import Manifest.Proofs.Document
import Manifest.Proofs.Success
import Manifest.Proofs.Text.Quotes
import Manifest.Proofs.Text.Split
import Manifest.Proofs.Tree.Position
import Manifest.Selection

namespace Manifest

open Text

namespace Requirements

structure IsPair (r : String × String) : Prop where
  key_ne : r.1 ≠ ""
  key_trimmed : Trimmed r.1.toList
  key_plain : '=' ∉ r.1.toList
  value_trimmed : Trimmed r.2.toList

def Says (piece : List Char) (r : String × String) : Prop :=
  IsPair r ∧ ∃ before after gap rest, Blanks before ∧ Blanks after ∧ Blanks gap ∧ Blanks rest ∧
    piece = before ++ r.1.toList ++ after ++ '=' :: (gap ++ r.2.toList ++ rest)

section Pair

variable {piece : List Char} {r : String × String}

theorem readPair?_eq_some_iff : readPair? piece = some r ↔ Says piece r := by
  constructor
  · intro h
    rw [readPair?] at h
    cases hcut : splitFirst? '=' piece with
    | none =>
      rw [hcut] at h
      cases h
    | some p =>
      obtain ⟨pre, post⟩ := p
      obtain ⟨hequals, rfl⟩ := splitFirst?_eq_some_iff.1 hcut
      obtain ⟨hkey, before, after, hbefore, hafter, hpre⟩ := trim_eq_iff.1 (Eq.refl (trim pre))
      obtain ⟨hvalue, gap, rest, hgap, hrest, hpost⟩ := trim_eq_iff.1 (Eq.refl (trim post))
      simp only [hcut] at h
      split at h
      · cases h
      · rename_i hne
        obtain rfl := Option.some.inj h
        have hplain : '=' ∉ trim pre := fun hmem => hequals (mem_of_mem_trim hmem)
        refine ⟨⟨by simpa using hne, ?_, ?_, ?_⟩, before, after, gap, rest, hbefore, hafter,
          hgap, hrest, ?_⟩
        · rwa [String.toList_ofList]
        · rwa [String.toList_ofList]
        · rwa [String.toList_ofList]
        · rw [String.toList_ofList, String.toList_ofList, ← hpre, ← hpost]
  · rintro ⟨pair, before, after, gap, rest, hbefore, hafter, hgap, hrest, rfl⟩
    have hequals : '=' ∉ before ++ r.1.toList ++ after := by
      simp only [List.mem_append, not_or]
      exact ⟨⟨hbefore.not_mem (by decide), pair.key_plain⟩, hafter.not_mem (by decide)⟩
    have hkey : trim (before ++ r.1.toList ++ after) = r.1.toList :=
      trim_eq_iff.2 ⟨pair.key_trimmed, before, after, hbefore, hafter, rfl⟩
    have hvalue : trim (gap ++ r.2.toList ++ rest) = r.2.toList :=
      trim_eq_iff.2 ⟨pair.value_trimmed, gap, rest, hgap, hrest, rfl⟩
    rw [readPair?, splitFirst?_append hequals]
    simp only [hkey, hvalue, String.ofList_toList]
    exact if_neg (by simpa using pair.key_ne)

theorem readPair?_eq_none_iff :
    readPair? piece = none ↔ '=' ∉ piece ∨ Blanks (piece.takeWhile (· ≠ '=')) := by
  rw [readPair?]
  cases hcut : splitFirst? '=' piece with
  | none => exact iff_of_true rfl (.inl (splitFirst?_eq_none_iff.1 hcut))
  | some p =>
    obtain ⟨pre, post⟩ := p
    obtain ⟨hequals, rfl⟩ := splitFirst?_eq_some_iff.1 hcut
    have hkey : (pre ++ '=' :: post).takeWhile (· ≠ '=') = pre := by
      rw [List.takeWhile_append_of_pos, List.takeWhile_cons_of_neg (by simp), List.append_nil]
      intro c hc
      simpa using fun hceq : c = '=' => hequals (hceq ▸ hc)
    rw [hkey, or_iff_right (by simp), ← trim_eq_nil_iff]
    change (if trim pre = [] then none else some _) = none ↔ trim pre = []
    simp

theorem readPair?_trim (piece : List Char) : readPair? (trim piece) = readPair? piece := by
  obtain ⟨-, before, after, hbefore, hafter, hpiece⟩ := trim_eq_iff.1 (Eq.refl (trim piece))
  conv_rhs => rw [hpiece]
  rw [readPair?, readPair?]
  cases hcut : splitFirst? '=' (trim piece) with
  | none =>
    have hequals := splitFirst?_eq_none_iff.1 hcut
    rw [splitFirst?_of_not_mem]
    simp only [List.mem_append, not_or]
    exact ⟨⟨hbefore.not_mem (by decide), hequals⟩, hafter.not_mem (by decide)⟩
  | some p =>
    obtain ⟨pre, post⟩ := p
    obtain ⟨hequals, heq⟩ := splitFirst?_eq_some_iff.1 hcut
    have hwhole : before ++ trim piece ++ after = (before ++ pre) ++ '=' :: (post ++ after) := by
      rw [heq]
      simp
    have hmem : '=' ∉ before ++ pre := by
      rw [List.mem_append, not_or]
      exact ⟨hbefore.not_mem (by decide), hequals⟩
    rw [hwhole, splitFirst?_append hmem]
    simp only [trim_append_left hbefore, trim_append_right hafter]

end Pair

/-- The text says these pairs, in this order: each piece between its commas says one of them, or is
blank. -/
def Spelled (rs : Requirements) (text : String) : Prop :=
  ∃ pieces : List (List Char), pieces ≠ [] ∧ (∀ piece ∈ pieces, ',' ∉ piece) ∧
    text.toList = [','].intercalate pieces ∧
    List.Forall₂ Says (pieces.filter fun piece => ¬ Blanks piece) rs

/-- A piece between commas is not blank and says nothing: it has no `=`, or no key before it. -/
def Malformed (text : String) : Prop :=
  ∃ piece ∈ text.toList.splitOn ',',
    ¬ Blanks piece ∧ ('=' ∉ piece ∨ Blanks (piece.takeWhile (· ≠ '=')))

section Text

variable {text : String} {rs : Requirements}

theorem filter_map_trim (pieces : List (List Char)) :
    (pieces.map trim).filter (· ≠ []) = (pieces.filter fun piece => ¬ Blanks piece).map trim := by
  have hpiece : ∀ piece, decide (trim piece ≠ []) = decide (¬ Blanks piece) := fun piece =>
    decide_eq_decide.2 (not_congr trim_eq_nil_iff)
  rw [List.filter_map]
  exact congrArg (List.map trim) (List.filter_congr fun piece _ => hpiece piece)

theorem parse_eq_ok_iff : parse text = .ok rs ↔ Spelled rs text := by
  have hread : parse text = .ok rs ↔
      List.Forall₂ Says ((text.toList.splitOn ',').filter fun piece => ¬ Blanks piece) rs := by
    rw [parse, splitAll_eq_splitOn, filter_map_trim,
      mapM_eq_ok_iff_forall₂ (R := fun piece r => readPair? piece = some r),
      List.forall₂_map_left_iff]
    · simp only [readPair?_trim, readPair?_eq_some_iff]
    · intro piece r
      cases readPair? piece <;> simp
  rw [hread]
  constructor
  · intro h
    refine ⟨text.toList.splitOn ',', ?_, fun piece hpiece => ?_,
      (List.intercalate_splitOn ',').symm, h⟩
    · rw [← splitAll_eq_splitOn]
      exact splitAll_ne_nil _ _
    · rw [← splitAll_eq_splitOn] at hpiece
      exact not_mem_of_mem_splitAll hpiece
  · rintro ⟨pieces, hne, hcomma, htext, h⟩
    rwa [htext, List.splitOn_intercalate ',' hcomma hne]

theorem parse_eq_error_iff : (∃ e, parse text = .error e) ↔ Malformed text := by
  rw [parse, splitAll_eq_splitOn, filter_map_trim, exists_mapM_eq_error_iff]
  simp only [List.mem_map, exists_exists_and_eq_and]
  simp only [List.mem_filter, decide_eq_true_eq, and_assoc, Malformed]
  refine exists_congr fun piece => and_congr_right fun _ => and_congr_right fun _ => ?_
  rw [← readPair?_eq_none_iff, readPair?_trim]
  cases readPair? piece <;> simp

end Text

end Requirements

section Accepted

variable {sel : Selector} {labels annotations : Requirements} {d : Document}

def Document.Shows (d : Document) (keys : List String) (text : String) : Prop :=
  (d.tree.get? (.ofKeys keys)).bind Tree.text? = some text

instance (d : Document) (keys : List String) (text : String) : Decidable (d.Shows keys text) :=
  inferInstanceAs (Decidable (_ = _))

def Selector.Accepts (sel : Selector) (labels annotations : Requirements) (d : Document) : Prop :=
  (sel.type.group = "" ∨ sel.type.group = d.type.group) ∧
    (sel.type.version = "" ∨ sel.type.version = d.type.version) ∧
    (sel.type.kind = "" ∨ sel.type.kind = d.kind) ∧
    (sel.name = "" ∨ sel.name = d.name) ∧
    (sel.ns = "" ∨ sel.ns = d.ns) ∧
    (∀ r ∈ labels, d.Shows ["metadata", "labels", r.1] r.2) ∧
    ∀ r ∈ annotations, d.Shows ["metadata", "annotations", r.1] r.2

instance : Decidable (sel.Accepts labels annotations d) := inferInstanceAs (Decidable (_ ∧ _))

theorem Requirements.holds_iff {rs : Requirements} {part : String} :
    rs.holds ((d.metadata? part).bind Tree.entries?) = true ↔
      ∀ r ∈ rs, d.Shows ["metadata", part, r.1] r.2 := by
  have hget : ∀ key, ((d.metadata? part).bind Tree.entries?).bind (Entries.find? key) =
      d.tree.get? (.ofKeys ["metadata", part, key]) := by
    intro key
    simp only [Tree.get?_ofKeys_cons, Document.metadata?, Option.bind_assoc]
    refine congrArg _ (funext fun t => congrArg _ (funext fun u => ?_))
    cases h : u.field? key with
    | none => exact h
    | some v => exact h
  simp only [holds, List.all_eq_true, decide_eq_true_eq, hget, Document.Shows]

theorem Selector.matcher_eq_ok_iff {accepts : Document → Bool} :
    sel.matcher = .ok accepts ↔ ∃ labels annotations, Requirements.Spelled labels sel.labels ∧
      Requirements.Spelled annotations sel.annotations ∧
      accepts = fun d => decide (sel.Accepts labels annotations d) := by
  rw [matcher, bind_eq_ok]
  refine exists_congr fun labels => ?_
  rw [Requirements.parse_eq_ok_iff, bind_eq_ok, exists_and_left]
  refine and_congr_right fun _ => exists_congr fun annotations => ?_
  rw [Requirements.parse_eq_ok_iff, pure_eq_ok, eq_comm]
  refine and_congr_right fun _ => iff_of_eq (congrArg (accepts = ·) (funext fun d => ?_))
  rw [Bool.eq_iff_iff, decide_eq_true_eq, Accepts]
  simp only [ResourceType.selectedBy, Bool.and_eq_true, Bool.or_eq_true, decide_eq_true_eq,
    Document.labels?, Document.annotations?, Requirements.holds_iff, Document.kind_type, and_assoc]

end Accepted

/-- A store gives the documents that agree with all parts of a selector, in its order.  It gives
none at all exactly when the labels or the annotations of the selector are no pairs. -/
theorem Store.select_eq_filter_accepts (s : Store) (sel : Selector) :
    (∀ labels annotations, Requirements.Spelled labels sel.labels →
        Requirements.Spelled annotations sel.annotations →
        s.select sel = .ok (s.documents.filter fun d => sel.Accepts labels annotations d)) ∧
      ((∃ e, s.select sel = .error e) ↔
        Requirements.Malformed sel.labels ∨ Requirements.Malformed sel.annotations) := by
  constructor
  · intro labels annotations hlabels hannotations
    refine bind_eq_ok.2 ⟨_, Selector.matcher_eq_ok_iff.2 ?_, rfl⟩
    exact ⟨labels, annotations, hlabels, hannotations, rfl⟩
  · rw [← Requirements.parse_eq_error_iff, ← Requirements.parse_eq_error_iff, select,
      Selector.matcher]
    cases Requirements.parse sel.labels with
    | error e => exact iff_of_true ⟨e, rfl⟩ (.inl ⟨e, rfl⟩)
    | ok labels =>
      cases Requirements.parse sel.annotations with
      | error e => exact iff_of_true ⟨e, rfl⟩ (.inr ⟨e, rfl⟩)
      | ok annotations => exact iff_of_false nofun nofun

def serviceWithLabels (name : String) (labels : Entries Tree) : Document where
  tree := .map [("apiVersion", .text "v1"), ("kind", .text "Service"),
    ("metadata", .map [("name", .text name), ("namespace", .text "shop"), ("labels", .map labels)])]

theorem Store.select_eq_filter_accepts_labelled :
    Requirements.Spelled [("app", "web"), ("tier", "1")] " app = web ,, tier=1" ∧
      Requirements.Spelled [] "" ∧
      Store.select { type := { kind := "Service" }, ns := "shop", labels := " app = web ,, tier=1" }
        ⟨[serviceWithLabels "a" [("app", .text "web"), ("tier", .integer 1)],
          serviceWithLabels "b" [("app", .text "web"), ("tier", .null)],
          serviceWithLabels "c" [("tier", .text "1"), ("app", .text "web")]]⟩ =
        .ok [serviceWithLabels "a" [("app", .text "web"), ("tier", .integer 1)],
          serviceWithLabels "c" [("tier", .text "1"), ("app", .text "web")]] ∧
      ∃ e, Store.select { labels := "app=web, =x" } ⟨[]⟩ = .error e := by
  have hlabels : Requirements.Spelled [("app", "web"), ("tier", "1")] " app = web ,, tier=1" :=
    Requirements.parse_eq_ok_iff.1 (eq_ok_of_toOption (by decide +kernel))
  have hannotations : Requirements.Spelled [] "" := Requirements.parse_eq_ok_iff.1 rfl
  refine ⟨hlabels, hannotations, ?_, ?_⟩
  · rw [(select_eq_filter_accepts _ _).1 _ _ hlabels hannotations]
    exact congrArg Except.ok (by decide +kernel)
  · rw [(select_eq_filter_accepts _ _).2]
    exact .inl ⟨" =x".toList, by decide +kernel, by decide +kernel, .inr (by decide +kernel)⟩

end Manifest
