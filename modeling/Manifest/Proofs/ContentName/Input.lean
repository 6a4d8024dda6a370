import Manifest.Proofs.ContentName.KeyOrder
import Manifest.Proofs.Json.Unambiguous

namespace Manifest

namespace Tree

theorem decimalFreeEntries_iff {es : Entries Tree} :
    DecimalFreeEntries es ↔ ∀ e ∈ es, e.2.DecimalFree := by
  induction es with
  | nil => exact ⟨fun _ => nofun, fun _ => trivial⟩
  | cons e es ih => rw [DecimalFreeEntries, ih, List.forall_mem_cons]

mutual

theorem decimalFree_sorted : {t : Tree} → t.DecimalFree → t.sorted.DecimalFree
  | .list _, h => decimalFreeItems_sorted h
  | .map es, h => by
    rw [sorted_map, ← sortedEntries_eq]
    refine decimalFreeEntries_iff.2 fun e he => ?_
    exact decimalFreeEntries_iff.1 (decimalFreeEntries_sorted h) e
      ((Entries.byKey_perm _).mem_iff.1 he)
  | .null, _ | .boolean _, _ | .integer _, _ | .text _, _ => trivial

theorem decimalFreeItems_sorted : {items : List Tree} → DecimalFreeItems items →
    DecimalFreeItems (sortedItems items)
  | [], _ => trivial
  | _ :: _, h => ⟨decimalFree_sorted h.1, decimalFreeItems_sorted h.2⟩

theorem decimalFreeEntries_sorted : {es : List (String × Tree)} → DecimalFreeEntries es →
    DecimalFreeEntries (sortedEntries es)
  | [], _ => trivial
  | (_, _) :: _, h => ⟨decimalFree_sorted h.1, decimalFreeEntries_sorted h.2⟩

end

theorem rel_sameContent_iff {x y : Option Tree} (wf : ∀ t ∈ x, t.WellFormed) :
    Option.Rel SameContent x y ↔ x.map sorted = y.map sorted := by
  cases x with
  | none => cases y <;> simp
  | some t =>
    cases y with
    | none => simp
    | some u => simp [sorted_eq_iff (wf t rfl)]

theorem sameContent_map_iff {es fs : Entries Tree} (wf : (map es).WellFormed)
    (wf' : (map fs).WellFormed) : SameContent (map es) (map fs) ↔
      ∀ key, Option.Rel SameContent ((map es).field? key) ((map fs).field? key) := by
  have hfield : ∀ key, ∀ t ∈ (map es).field? key, t.WellFormed := fun key t ht =>
    wellFormed_child? wf (field?_eq_child? key _ ▸ ht)
  rw [← sorted_eq_iff wf]
  simp only [rel_sameContent_iff (hfield _)]
  constructor
  · intro h key
    rw [← field?_sorted wf, ← field?_sorted wf', h]
  · intro h
    have perm : (Entries.mapValues sorted es).Perm (Entries.mapValues sorted fs) :=
      Entries.perm_of_find? (Entries.distinct_mapValues.2 wf.1) (Entries.distinct_mapValues.2 wf'.1)
        fun key => by
          rw [Entries.find?_mapValues, Entries.find?_mapValues]
          exact h key
    rw [sorted_map, sorted_map, Entries.byKey_congr (Entries.distinct_mapValues.2 wf.1) perm]

theorem sameContent_text_iff {s s' : String} : SameContent (text s) (text s') ↔ s = s' := by
  refine ⟨fun h => ?_, fun h => h ▸ .refl _⟩
  cases h
  rfl

end Tree

namespace ContentName

open Tree

theorem canonicalText_eq_iff {t u : Tree} (wf : t.WellFormed) (ht : t.DecimalFree)
    (hu : u.DecimalFree) : canonicalText t = canonicalText u ↔ SameContent t u := by
  rw [← sorted_eq_iff wf]
  exact ⟨Json.write_inj (decimalFree_sorted ht) (decimalFree_sorted hu), congrArg Json.write⟩

theorem mem_of_mem_optional {key : String} {es : Entries Tree} (distinct : Entries.Distinct es)
    {e : String × Tree} (h : e ∈ optional key es) : e ∈ es := by
  rw [optional] at h
  split at h
  · cases h
  · rename_i t ht
    obtain rfl := List.mem_singleton.1 h
    exact (Entries.find?_eq_some_iff distinct).1 ht

theorem find?_optional (key other : String) (es : Entries Tree) :
    Entries.find? other (optional key es) = if key = other then Entries.find? key es else none := by
  rw [optional]
  cases Entries.find? key es with
  | none => rw [ite_self]; rfl
  | some t => rfl

theorem mem_keys_optional {key other : String} {es : Entries Tree}
    (h : other ∈ (optional key es).keys) : other = key := by
  rw [optional] at h
  split at h
  · cases h
  · exact List.mem_singleton.1 h

theorem distinct_append_optional {fs : Entries Tree} (distinct : Entries.Distinct fs) {key : String}
    (new : key ∉ fs.keys) (es : Entries Tree) : Entries.Distinct (fs ++ optional key es) := by
  rw [Entries.Distinct, Entries.keys, List.map_append]
  refine List.nodup_append.2 ⟨distinct, ?_, fun k hk l hl => ?_⟩
  · rw [optional]
    cases Entries.find? key es with
    | none => exact List.nodup_nil
    | some t => exact List.nodup_singleton _
  · rintro rfl
    exact new (mem_keys_optional hl ▸ hk)

theorem not_mem_keys_append_optional {fs es : Entries Tree} {key other : String}
    (h : other ∉ fs.keys) (hne : other ≠ key) : other ∉ (fs ++ optional key es).keys := by
  rw [Entries.keys, List.map_append, List.mem_append, not_or]
  exact ⟨h, fun hmem => hne (mem_keys_optional hmem)⟩

theorem exists_entries_input {P : Tree → Prop} (text : ∀ s, P (.text s)) (empty : P (.map []))
    {es : Entries Tree} (distinct : Entries.Distinct es) (h : ∀ e ∈ es, P e.2)
    (kind name : String) :
    ∃ fs, input kind name (.map es) = .map fs ∧ Entries.Distinct fs ∧ ∀ e ∈ fs, P e.2 := by
  have hfind : ∀ {key t}, Entries.find? key es = some t → P t := fun ht =>
    h _ ((Entries.find?_eq_some_iff distinct).1 ht)
  have hdata : P (dataOrEmpty es) := by
    rw [dataOrEmpty]
    split
    · exact empty
    · exact empty
    · rename_i t _ ht
      exact hfind ht
  have hoptional : ∀ key, ∀ e ∈ optional key es, P e.2 := fun key e he =>
    h e (mem_of_mem_optional distinct he)
  rw [input]
  split
  · refine ⟨_, rfl, ?_, ?_⟩
    · refine distinct_append_optional (distinct_append_optional ?_ ?_ es) ?_ es
      · simp [Entries.Distinct, Entries.keys]
      · simp [Entries.keys]
      · exact not_mem_keys_append_optional (by simp [Entries.keys]) (by decide)
    · simp only [List.forall_mem_append, List.forall_mem_cons]
      exact ⟨⟨⟨text _, text _, hdata, List.forall_mem_nil _⟩, hoptional _⟩, hoptional _⟩
  · split
    · refine ⟨_, rfl, ?_, ?_⟩
      · refine distinct_append_optional ?_ ?_ es
        · simp [Entries.Distinct, Entries.keys]
        · simp [Entries.keys]
      · have htype : P ((Entries.find? "type" es).getD (.text "")) := by
          cases ht : Entries.find? "type" es with
          | none => exact text _
          | some t => exact hfind ht
        simp only [List.forall_mem_append, List.forall_mem_cons]
        exact ⟨⟨text _, htype, text _, hdata, List.forall_mem_nil _⟩, hoptional _⟩
    · exact ⟨es, rfl, distinct, h⟩

theorem wellFormed_input {es : Entries Tree} (wf : (map es).WellFormed) (kind name : String) :
    (input kind name (.map es)).WellFormed := by
  obtain ⟨fs, hfs, distinct, h⟩ := exists_entries_input (P := WellFormed) (fun _ => trivial)
    ⟨.nil, trivial⟩ wf.1 (wellFormedEntries_iff.1 wf.2) kind name
  exact hfs ▸ ⟨distinct, wellFormedEntries_iff.2 h⟩

theorem decimalFree_input {es : Entries Tree} (wf : (map es).WellFormed)
    (free : (map es).DecimalFree) (kind name : String) :
    (input kind name (.map es)).DecimalFree := by
  obtain ⟨fs, hfs, -, h⟩ := exists_entries_input (P := DecimalFree) (fun _ => trivial)
    trivial wf.1 (decimalFreeEntries_iff.1 free) kind name
  exact hfs ▸ decimalFreeEntries_iff.2 h

def digested (d : Document) : Tree := input d.kind d.name d.tree

def sharedData (d : Document) : Tree :=
  ((d.tree.field? "data").filter fun t => !t.isNull).getD (.map [])

structure SameConfigMap (d e : Document) : Prop where
  name : d.name = e.name
  data : SameContent (sharedData d) (sharedData e)
  binaryData : Option.Rel SameContent (d.tree.field? "binaryData") (e.tree.field? "binaryData")
  immutable : Option.Rel SameContent (d.tree.field? "immutable") (e.tree.field? "immutable")

structure SameSecret (d e : Document) : Prop where
  type : SameContent ((d.tree.field? "type").getD (.text ""))
    ((e.tree.field? "type").getD (.text ""))
  name : d.name = e.name
  data : SameContent (sharedData d) (sharedData e)
  immutable : Option.Rel SameContent (d.tree.field? "immutable") (e.tree.field? "immutable")

theorem dataOrEmpty_eq_sharedData {d : Document} {es : Entries Tree} (h : d.tree = .map es) :
    dataOrEmpty es = sharedData d := by
  rw [sharedData, h, field?, entries?, Option.bind_some, dataOrEmpty]
  cases Entries.find? "data" es with
  | none => rfl
  | some t => cases t <;> rfl

theorem exists_entries_of_kind {d : Document} {kind : String} (h : d.kind = kind) (ne : kind ≠ "") :
    ∃ es, d.tree = .map es := by
  cases ht : d.tree with
  | map es => exact ⟨es, rfl⟩
  | _ =>
    rw [Document.kind, ht] at h
    exact absurd h.symm ne

theorem field?_digested_configMap {d : Document} (h : d.kind = "ConfigMap") (key : String) :
    (digested d).field? key =
      if key = "kind" then some (.text "ConfigMap")
      else if key = "name" then some (.text d.name)
      else if key = "data" then some (sharedData d)
      else if key = "binaryData" then d.tree.field? "binaryData"
      else if key = "immutable" then d.tree.field? "immutable"
      else none := by
  obtain ⟨es, hes⟩ := exists_entries_of_kind h (by decide)
  rw [digested, ← dataOrEmpty_eq_sharedData hes, hes, h, input, if_pos rfl]
  simp only [field?, entries?, Option.bind_some, Entries.find?_append, find?_optional,
    Entries.find?_cons, Entries.find?_nil, eq_comm (a := key)]
  split_ifs <;> simp_all

theorem field?_digested_secret {d : Document} (h : d.kind = "Secret") (key : String) :
    (digested d).field? key =
      if key = "kind" then some (.text "Secret")
      else if key = "type" then some ((d.tree.field? "type").getD (.text ""))
      else if key = "name" then some (.text d.name)
      else if key = "data" then some (sharedData d)
      else if key = "immutable" then d.tree.field? "immutable"
      else none := by
  obtain ⟨es, hes⟩ := exists_entries_of_kind h (by decide)
  rw [digested, ← dataOrEmpty_eq_sharedData hes, hes, h, input, if_neg (by decide), if_pos rfl]
  simp only [field?, entries?, Option.bind_some, Entries.find?_append, find?_optional,
    Entries.find?_cons, Entries.find?_nil, eq_comm (a := key)]
  split_ifs <;> simp_all

section

variable {d e : Document}

theorem sameContent_digested_iff (wf : d.tree.WellFormed) (wf' : e.tree.WellFormed) {kind : String}
    (ne : kind ≠ "") (hd : d.kind = kind) (he : e.kind = kind) :
    SameContent (digested d) (digested e) ↔
      ∀ key, Option.Rel SameContent ((digested d).field? key) ((digested e).field? key) := by
  obtain ⟨es, hes⟩ := exists_entries_of_kind hd ne
  obtain ⟨fs, hfs⟩ := exists_entries_of_kind he ne
  obtain ⟨es', hes', -⟩ := exists_entries_input (P := fun _ => True) (fun _ => trivial) trivial
    (hes ▸ wf).1 (fun _ _ => trivial) d.kind d.name
  obtain ⟨fs', hfs', -⟩ := exists_entries_input (P := fun _ => True) (fun _ => trivial) trivial
    (hfs ▸ wf').1 (fun _ _ => trivial) e.kind e.name
  have hwf := wellFormed_input (hes ▸ wf) d.kind d.name
  have hwf' := wellFormed_input (hfs ▸ wf') e.kind e.name
  rw [digested, digested, hes, hfs, hes', hfs']
  exact sameContent_map_iff (hes' ▸ hwf) (hfs' ▸ hwf')

theorem sameContent_digested_iff_sameConfigMap (wf : d.tree.WellFormed) (wf' : e.tree.WellFormed)
    (hd : d.kind = "ConfigMap") (he : e.kind = "ConfigMap") :
    SameContent (digested d) (digested e) ↔ SameConfigMap d e := by
  rw [sameContent_digested_iff wf wf' (by decide) hd he]
  simp only [field?_digested_configMap hd, field?_digested_configMap he]
  constructor
  · intro h
    exact ⟨sameContent_text_iff.1 (by simpa using h "name"), by simpa using h "data",
      by simpa using h "binaryData", by simpa using h "immutable"⟩
  · intro h key
    split_ifs
    exacts [.some (.refl _), .some (sameContent_text_iff.2 h.name), .some h.data, h.binaryData,
      h.immutable, .none]

theorem sameContent_digested_iff_sameSecret (wf : d.tree.WellFormed) (wf' : e.tree.WellFormed)
    (hd : d.kind = "Secret") (he : e.kind = "Secret") :
    SameContent (digested d) (digested e) ↔ SameSecret d e := by
  rw [sameContent_digested_iff wf wf' (by decide) hd he]
  simp only [field?_digested_secret hd, field?_digested_secret he]
  constructor
  · intro h
    exact ⟨by simpa using h "type", sameContent_text_iff.1 (by simpa using h "name"),
      by simpa using h "data", by simpa using h "immutable"⟩
  · intro h key
    split_ifs
    exacts [.some (.refl _), .some h.type, .some (sameContent_text_iff.2 h.name), .some h.data,
      h.immutable, .none]

theorem canonicalText_digested_eq_iff (wf : d.tree.WellFormed) (wf' : e.tree.WellFormed)
    (free : d.tree.DecimalFree) (free' : e.tree.DecimalFree) {kind : String} (ne : kind ≠ "")
    (hd : d.kind = kind) (he : e.kind = kind) :
    canonicalText (digested d) = canonicalText (digested e) ↔
      SameContent (digested d) (digested e) := by
  obtain ⟨es, hes⟩ := exists_entries_of_kind hd ne
  obtain ⟨fs, hfs⟩ := exists_entries_of_kind he ne
  rw [hes] at wf free
  rw [hfs] at wf' free'
  rw [digested, digested, hes, hfs]
  exact canonicalText_eq_iff (wellFormed_input wf _ _) (decimalFree_input wf free _ _)
    (decimalFree_input wf' free' _ _)

end

/-- Texts without decimals are told apart by their content and nothing else: whole trees, and what
is digested of a `ConfigMap` and of a `Secret`. -/
theorem canonicalText_inj :
    (∀ t u : Tree, t.WellFormed → t.DecimalFree → u.DecimalFree →
      (canonicalText t = canonicalText u ↔ SameContent t u)) ∧
    ∀ d e : Document, d.tree.WellFormed → e.tree.WellFormed → d.tree.DecimalFree →
      e.tree.DecimalFree →
      (d.kind = "ConfigMap" → e.kind = "ConfigMap" →
        (canonicalText (digested d) = canonicalText (digested e) ↔ SameConfigMap d e)) ∧
      (d.kind = "Secret" → e.kind = "Secret" →
        (canonicalText (digested d) = canonicalText (digested e) ↔ SameSecret d e)) := by
  refine ⟨fun t u => canonicalText_eq_iff, fun d e wf wf' free free' => ⟨fun hd he => ?_,
    fun hd he => ?_⟩⟩
  · rw [canonicalText_digested_eq_iff wf wf' free free' (by decide) hd he,
      sameContent_digested_iff_sameConfigMap wf wf' hd he]
  · rw [canonicalText_digested_eq_iff wf wf' free free' (by decide) hd he,
      sameContent_digested_iff_sameSecret wf wf' hd he]

def namedA (kind : String) (fields : Entries Tree) : Document where
  tree := .map (("kind", .text kind) :: ("metadata", .map [("name", .text "a")]) :: fields)

theorem canonicalText_inj_absent_fields :
    canonicalText (.text "1") ≠ canonicalText (.integer 1) ∧
      canonicalText (digested (namedA "ConfigMap" [])) =
        canonicalText (digested (namedA "ConfigMap" [("data", .null)])) ∧
      canonicalText (digested (namedA "Secret" [])) =
        canonicalText (digested (namedA "Secret" [("type", .text "")])) := by
  obtain ⟨trees, documents⟩ := canonicalText_inj
  refine ⟨fun h => ?_, ?_, ?_⟩
  · cases (trees (.text "1") (.integer 1) trivial trivial trivial).1 h
  · refine ((documents _ _ (by decide) (by decide) ?_ ?_).1 rfl rfl).2
      ⟨rfl, .refl (.map []), .none, .none⟩ <;> simp [namedA, DecimalFree, DecimalFreeEntries]
  · refine ((documents _ _ (by decide) (by decide) ?_ ?_).2 rfl rfl).2
      ⟨.refl (.text ""), rfl, .refl (.map []), .none⟩ <;>
        simp [namedA, DecimalFree, DecimalFreeEntries]

end ContentName

end Manifest
