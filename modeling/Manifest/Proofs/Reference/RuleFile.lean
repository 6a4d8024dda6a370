import Manifest.Proofs.Reference.Pairs
import Manifest.Proofs.Success
import Manifest.Reference.RuleFile

/-! Rules that are merged in turn hold one name rule for each type, with the fields that any source
names for it.  What was there first stays in front, a field is never added a second time, and a
source that was merged before adds nothing.  Only a rule that comes first for its type is taken as
it is, so that a field which it repeats stays repeated. -/

namespace Manifest.Reference

section AddNew

variable {α : Type} [DecidableEq α] {xs ys : List α} {x : α}

theorem addNew_eq_append (xs : List α) (x : α) :
    ∃ added, addNew xs x = xs ++ added ∧ added.Nodup ∧ ∀ y ∈ added, y ∉ xs := by
  rw [addNew]
  split
  · exact ⟨[], by simp⟩
  · rename_i h
    exact ⟨[x], rfl, List.nodup_singleton x, List.forall_mem_singleton.2 h⟩

theorem mem_foldl_addNew : x ∈ ys.foldl addNew xs ↔ x ∈ xs ∨ x ∈ ys := by
  induction ys generalizing xs with
  | nil => simp
  | cons y ys ih => rw [List.foldl_cons, ih, mem_addNew, List.mem_cons, or_assoc]

theorem foldl_addNew_eq_append (xs ys : List α) :
    ∃ added, ys.foldl addNew xs = xs ++ added ∧ added.Nodup ∧ ∀ y ∈ added, y ∉ xs := by
  induction ys generalizing xs with
  | nil => exact ⟨[], by simp⟩
  | cons y ys ih =>
    obtain ⟨first, hfirst, hnodup, hnew⟩ := addNew_eq_append xs y
    obtain ⟨later, hlater, hnodup', hnew'⟩ := ih (addNew xs y)
    rw [hfirst] at hnew'
    refine ⟨first ++ later, by rw [List.foldl_cons, hlater, hfirst, List.append_assoc], ?_, ?_⟩
    · refine List.nodup_append.2 ⟨hnodup, hnodup', ?_⟩
      rintro z hz _ hz' rfl
      exact hnew' z hz' (List.mem_append_right xs hz)
    · intro z hz
      rcases List.mem_append.1 hz with hz | hz
      · exact hnew z hz
      · exact fun hmem => hnew' z hz (List.mem_append_left first hmem)

theorem prefix_foldl_addNew (xs ys : List α) : xs <+: ys.foldl addNew xs := by
  obtain ⟨added, h, -⟩ := foldl_addNew_eq_append xs ys
  exact ⟨added, h.symm⟩

theorem nodup_foldl_addNew : (ys.foldl addNew xs).Nodup ↔ xs.Nodup := by
  obtain ⟨added, h, hnodup, hnew⟩ := foldl_addNew_eq_append xs ys
  rw [h, List.nodup_append]
  refine ⟨And.left, fun hxs => ⟨hxs, hnodup, ?_⟩⟩
  rintro x hx _ hadded rfl
  exact hnew x hadded hx

theorem foldl_addNew_of_subset (h : ys ⊆ xs) : ys.foldl addNew xs = xs := by
  induction ys with
  | nil => rfl
  | cons y ys ih =>
    obtain ⟨hy, hys⟩ := List.cons_subset.1 h
    rw [List.foldl_cons, addNew, if_pos hy, ih hys]

end AddNew

section AddRule

variable {rule : NameRule} {rs : List NameRule}

def NameRule.withFields (r rule : NameRule) : NameRule :=
  { r with fields := rule.fields.foldl addNew r.fields }

theorem addRule_cases (rule : NameRule) (rs : List NameRule) :
    (∀ r ∈ rs, r.type ≠ rule.type) ∧ addRule rule rs = rs ++ [rule] ∨
      ∃ before r after, rs = before ++ r :: after ∧ (∀ r ∈ before, r.type ≠ rule.type) ∧
        r.type = rule.type ∧ addRule rule rs = before ++ r.withFields rule :: after := by
  induction rs with
  | nil => exact .inl ⟨nofun, rfl⟩
  | cons s rs ih =>
    rw [addRule]
    split
    · rename_i htype
      exact .inr ⟨[], s, rs, rfl, nofun, htype, rfl⟩
    · rename_i htype
      rcases ih with ⟨hnew, heq⟩ | ⟨before, r, after, rfl, hbefore, hr, heq⟩
      · exact .inl ⟨List.forall_mem_cons.2 ⟨htype, hnew⟩, by rw [heq, List.cons_append]⟩
      · exact .inr ⟨s :: before, r, after, rfl, List.forall_mem_cons.2 ⟨htype, hbefore⟩, hr,
          by rw [heq, List.cons_append]⟩

theorem map_type_addRule (rule : NameRule) (rs : List NameRule) :
    (addRule rule rs).map NameRule.type = addNew (rs.map NameRule.type) rule.type := by
  rcases addRule_cases rule rs with ⟨hnew, heq⟩ | ⟨before, r, after, rfl, -, hr, heq⟩
  · rw [heq, List.map_append, addNew, if_neg]
    · rfl
    · simpa using hnew
  · rw [heq, addNew, if_pos (by simp [← hr])]
    simp [NameRule.withFields]

theorem map_type_foldl_addRule (new rs : List NameRule) :
    (new.foldl (fun rs r => addRule r rs) rs).map NameRule.type =
      (new.map NameRule.type).foldl addNew (rs.map NameRule.type) := by
  induction new generalizing rs with
  | nil => rfl
  | cons rule new ih => rw [List.foldl_cons, ih, map_type_addRule, List.map_cons, List.foldl_cons]

theorem of_mem_addRule (distinct : (rs.map NameRule.type).Nodup) {r : NameRule}
    (h : r ∈ addRule rule rs) :
    r ∈ rs ∧ r.type ≠ rule.type ∨ (∃ s ∈ rs, s.type = rule.type ∧ r = s.withFields rule) ∨
      (∀ s ∈ rs, s.type ≠ rule.type) ∧ r = rule := by
  rcases addRule_cases rule rs with ⟨hnew, heq⟩ | ⟨before, s, after, rfl, hbefore, hs, heq⟩
  · rw [heq, List.mem_append, List.mem_singleton] at h
    rcases h with h | rfl
    · exact .inl ⟨h, hnew r h⟩
    · exact .inr (.inr ⟨hnew, rfl⟩)
  · -- types are distinct, so that none of the rules behind is of the type either
    have hafter : ∀ r ∈ after, r.type ≠ rule.type := by
      intro r hr heq
      rw [List.map_append, List.map_cons, List.nodup_append, List.nodup_cons] at distinct
      exact distinct.2.1.1 (hs.trans heq.symm ▸ List.mem_map_of_mem hr)
    rw [heq, List.mem_append, List.mem_cons] at h
    rcases h with h | rfl | h
    · exact .inl ⟨List.mem_append_left _ h, hbefore r h⟩
    · exact .inr (.inl ⟨s, by simp, hs, rfl⟩)
    · exact .inl ⟨by simp [h], hafter r h⟩

end AddRule

/-- One rule for each type of the sources, with all the fields that they name for it.  It starts
with the first source of the type, and repeats a field only if that one does. -/
structure Unites (sources rs : List NameRule) : Prop where
  distinct : (rs.map NameRule.type).Nodup
  types : ∀ t, t ∈ rs.map NameRule.type ↔ t ∈ sources.map NameRule.type
  fields : ∀ r ∈ rs, ∀ spec, spec ∈ r.fields ↔ ∃ e ∈ sources, e.type = r.type ∧ spec ∈ e.fields
  first : ∀ r ∈ rs, ∃ e, sources.find? (fun e => e.type = r.type) = some e ∧
    e.fields <+: r.fields ∧ (r.fields.Nodup ↔ e.fields.Nodup)

namespace Unites

variable {sources rs : List NameRule} {rule : NameRule}

theorem not_mem_types (h : Unites sources rs) (hnew : ∀ r ∈ rs, r.type ≠ rule.type) :
    ∀ e ∈ sources, e.type ≠ rule.type := by
  intro e he htype
  obtain ⟨r, hr, heq⟩ := List.mem_map.1 ((h.types e.type).2 (List.mem_map_of_mem he))
  exact hnew r hr (heq.trans htype)

theorem refl (distinct : (rs.map NameRule.type).Nodup) : Unites rs rs where
  distinct := distinct
  types _ := Iff.rfl
  fields r hr spec := by
    refine ⟨fun h => ⟨r, hr, rfl, h⟩, ?_⟩
    rintro ⟨e, he, htype, h⟩
    exact List.inj_on_of_nodup_map distinct he hr htype ▸ h
  first r hr := ⟨r, Entries.find?_key_of_mem distinct hr, List.prefix_rfl, Iff.rfl⟩

theorem addRule (h : Unites sources rs) (rule : NameRule) :
    Unites (sources ++ [rule]) (addRule rule rs) where
  distinct := by
    have hfold : addNew (rs.map NameRule.type) rule.type =
        [rule.type].foldl addNew (rs.map NameRule.type) := rfl
    rw [map_type_addRule, hfold, nodup_foldl_addNew]
    exact h.distinct
  types t := by
    rw [map_type_addRule, mem_addNew, h.types, List.map_append, List.mem_append,
      List.map_singleton, List.mem_singleton]
  fields r hr spec := by
    simp only [List.mem_append, List.mem_singleton, or_and_right, exists_or, exists_eq_left]
    rcases of_mem_addRule h.distinct hr with ⟨hr, hne⟩ | ⟨s, hs, htype, rfl⟩ | ⟨hnew, rfl⟩
    · rw [h.fields r hr, or_iff_left fun hrule => hne hrule.1.symm]
    · rw [NameRule.withFields, mem_foldl_addNew, h.fields s hs, and_iff_right htype.symm]
    · rw [and_iff_right rfl, or_iff_right]
      rintro ⟨e, he, htype, -⟩
      exact h.not_mem_types hnew e he htype
  first r hr := by
    simp only [List.find?_append, List.find?_singleton]
    rcases of_mem_addRule h.distinct hr with ⟨hr, -⟩ | ⟨s, hs, htype, rfl⟩ | ⟨hnew, rfl⟩
    · obtain ⟨e, hfind, hfirst⟩ := h.first r hr
      exact ⟨e, by rw [hfind, Option.some_or], hfirst⟩
    · obtain ⟨e, hfind, hprefix, hnodup⟩ := h.first s hs
      refine ⟨e, ?_, hprefix.trans (prefix_foldl_addNew _ _), nodup_foldl_addNew.trans hnodup⟩
      rw [NameRule.withFields, hfind, Option.some_or]
    · have hnone : sources.find? (fun e => e.type = r.type) = none :=
        List.find?_eq_none.2 fun e he => by simpa using h.not_mem_types hnew e he
      exact ⟨r, by simp [hnone], List.prefix_rfl, Iff.rfl⟩

theorem foldl (h : Unites sources rs) (new : List NameRule) :
    Unites (sources ++ new) (new.foldl (fun rs r => Reference.addRule r rs) rs) := by
  induction new generalizing sources rs with
  | nil => rwa [List.append_nil]
  | cons rule new ih =>
    rw [List.append_cons]
    exact ih (h.addRule rule)

theorem addRule_eq_self (h : Unites sources rs) (hrule : rule ∈ sources) :
    Reference.addRule rule rs = rs := by
  obtain ⟨r, hr, htype⟩ := List.mem_map.1 ((h.types rule.type).2 (List.mem_map_of_mem hrule))
  rcases addRule_cases rule rs with ⟨hnew, -⟩ | ⟨before, s, after, rfl, -, hs, heq⟩
  · exact absurd htype (hnew r hr)
  · have hsubset : rule.fields ⊆ s.fields := fun spec hspec =>
      (h.fields s (by simp) spec).2 ⟨rule, hrule, hs.symm, hspec⟩
    rw [heq, NameRule.withFields, foldl_addNew_of_subset hsubset]

theorem foldl_eq_self {again : List NameRule} (h : Unites sources rs) (hagain : again ⊆ sources) :
    again.foldl (fun rs r => Reference.addRule r rs) rs = rs := by
  induction again with
  | nil => rfl
  | cons rule again ih =>
    obtain ⟨hrule, hagain⟩ := List.cons_subset.1 hagain
    rw [List.foldl_cons, h.addRule_eq_self hrule, ih hagain]

end Unites

namespace Rules

structure Distinct (rules : Rules) : Prop where
  types : (rules.names.map NameRule.type).Nodup
  fields : ∀ r ∈ rules.names, r.fields.Nodup
  expanded : rules.expanded.Nodup

theorem distinct_builtin : builtin.Distinct :=
  ⟨by decide +kernel, by decide +kernel, by decide +kernel⟩

/-- The union of rules with those of files.  What was there before stays in front, in its order and
without repetition, and no file adds anything again. -/
structure Extends (rules base : Rules) (files : List Rules) : Prop where
  names : Unites (base.names ++ files.flatMap Rules.names) rules.names
  types : base.names.map NameRule.type <+: rules.names.map NameRule.type
  fields : ∀ b ∈ base.names, ∃ r ∈ rules.names, r.type = b.type ∧ b.fields <+: r.fields ∧
    r.fields.Nodup
  expanded : ∀ spec, spec ∈ rules.expanded ↔ spec ∈ base.expanded ∨ ∃ f ∈ files, spec ∈ f.expanded
  expanded_nodup : rules.expanded.Nodup
  expanded_prefix : base.expanded <+: rules.expanded
  again : ∀ f ∈ files, rules.merge f = rules

theorem names_foldl_merge (base : Rules) (files : List Rules) :
    (files.foldl merge base).names =
      (files.flatMap names).foldl (fun rs r => addRule r rs) base.names := by
  induction files generalizing base with
  | nil => rfl
  | cons f files ih => rw [List.foldl_cons, ih, List.flatMap_cons, List.foldl_append, merge]

theorem expanded_foldl_merge (base : Rules) (files : List Rules) :
    (files.foldl merge base).expanded =
      (files.flatMap expanded).foldl addNew base.expanded := by
  induction files generalizing base with
  | nil => rfl
  | cons f files ih => rw [List.foldl_cons, ih, List.flatMap_cons, List.foldl_append, merge]

theorem Distinct.foldl_merge {base : Rules} (distinct : base.Distinct) (files : List Rules) :
    (files.foldl merge base).Extends base files := by
  have names := (Unites.refl distinct.types).foldl (files.flatMap Rules.names)
  rw [← names_foldl_merge] at names
  have hexpanded : ∀ f ∈ files, f.expanded ⊆ (files.foldl merge base).expanded := by
    intro f hf spec hspec
    rw [expanded_foldl_merge, mem_foldl_addNew]
    exact .inr (List.mem_flatMap_of_mem hf hspec)
  constructor
  case names => exact names
  case types =>
    rw [names_foldl_merge, map_type_foldl_addRule]
    exact prefix_foldl_addNew _ _
  case fields =>
    intro b hb
    have hsource : b ∈ base.names ++ files.flatMap Rules.names := List.mem_append_left _ hb
    obtain ⟨r, hr, htype⟩ := List.mem_map.1 ((names.types b.type).2 (List.mem_map_of_mem hsource))
    obtain ⟨e, hfind, hprefix, hnodup⟩ := names.first r hr
    rw [htype, List.find?_append, Entries.find?_key_of_mem distinct.types hb,
      Option.some_or] at hfind
    obtain rfl := Option.some.inj hfind
    exact ⟨r, hr, htype, hprefix, hnodup.2 (distinct.fields b hb)⟩
  case expanded =>
    intro spec
    rw [expanded_foldl_merge, mem_foldl_addNew, List.mem_flatMap]
  case expanded_nodup =>
    rw [expanded_foldl_merge]
    exact nodup_foldl_addNew.2 distinct.expanded
  case expanded_prefix =>
    rw [expanded_foldl_merge]
    exact prefix_foldl_addNew _ _
  case again =>
    intro f hf
    have hnames : f.names ⊆ base.names ++ files.flatMap Rules.names := fun r hr =>
      List.mem_append_right _ (List.mem_flatMap_of_mem hf hr)
    rw [merge, names.foldl_eq_self hnames, foldl_addNew_of_subset (hexpanded f hf)]

def ofFile (w : Workspace) (path : String) : Except Error Rules := do parse (← w.load path)

theorem load_eq_ok {w : Workspace} {paths : List String} {rules : Rules} :
    load w paths = .ok rules ↔
      ∃ files, paths.mapM (ofFile w) = .ok files ∧ files.foldl merge builtin = rules := by
  rw [← foldlM_eq_ok, load]
  simp only [ofFile, bind_assoc]

/-- Files that can be read are united with the builtin rules.  In the rule of a builtin type no
field is repeated, and in that of another type only one that its first source repeats. -/
theorem load_extends_builtin {w : Workspace} {paths : List String} {files : List Rules}
    (read : paths.mapM (ofFile w) = .ok files) :
    ∃ rules, load w paths = .ok rules ∧ rules.Extends builtin files :=
  ⟨_, load_eq_ok.2 ⟨files, read, rfl⟩, distinct_builtin.foldl_merge files⟩

def custom : Rules where
  names :=
    [{ type := { version := "v1", kind := "Secret" }, fields := [{ path := "a" }] },
     { type := { kind := "Service" }, fields := [{ path := "b" }, { path := "b" }] }]

def customFiles : Workspace where
  root := "."
  files := { files := [(["rules"],
    ("nameReference:\n- version: v1\n  kind: Secret\n  fieldSpecs: [path: a]\n"
      ++ "- kind: Service\n  fieldSpecs: [path: b, path: b]\n").toUTF8.toList)] }

theorem read_custom : ["rules"].mapM (ofFile customFiles) = .ok [custom] :=
  eq_ok_of_toOption (by decide +kernel)

theorem load_extends_builtin_custom :
    ["rules"].mapM (ofFile customFiles) = .ok [custom] ∧
      ∃ rules, load customFiles ["rules"] = .ok rules ∧ rules.Extends builtin [custom] :=
  ⟨read_custom, load_extends_builtin read_custom⟩

theorem not_nodup_fields_in_general :
    ¬ ∀ (w : Workspace) (paths : List String) (rules : Rules), load w paths = .ok rules →
      ∀ r ∈ rules.names, r.fields.Nodup := by
  intro h
  have hrule := h customFiles ["rules"] _ (load_eq_ok.2 ⟨_, read_custom, rfl⟩)
    { type := { kind := "Service" }, fields := [{ path := "b" }, { path := "b" }] }
    (by decide +kernel)
  exact absurd hrule (by decide)

end Rules

end Manifest.Reference
