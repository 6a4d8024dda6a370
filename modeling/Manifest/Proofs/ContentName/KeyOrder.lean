import Manifest.Proofs.ContentName
import Manifest.Proofs.FieldPath.KeyOrder
import Manifest.Proofs.Success

namespace Manifest

namespace Document

variable {d e : Document}

section Sorted

variable (wf : d.tree.WellFormed) (h : e.tree = d.tree.sorted)

include wf h

theorem kind_of_sorted : e.kind = d.kind := by
  rw [kind, kind, h, Tree.fieldText_sorted wf]

theorem type_of_sorted : e.type = d.type := by
  rw [type, type, kind_of_sorted wf h, apiVersion, apiVersion, h, Tree.fieldText_sorted wf]

theorem metadata?_of_sorted (key : String) : e.metadata? key = (d.metadata? key).map .sorted := by
  rw [metadata?, metadata?, h, Tree.field?_sorted wf]
  cases hm : d.tree.field? "metadata" with
  | none => rfl
  | some u =>
    rw [Tree.field?_eq_child?] at hm
    exact Tree.field?_sorted (Tree.wellFormed_child? wf hm) key

theorem name_of_sorted : e.name = d.name := by
  rw [name, name, metadata?_of_sorted wf h, Option.bind_map]
  simp only [Function.comp_def, Tree.string?_sorted]

end Sorted

end Document

namespace ContentName

open Tree

def withoutField (t : Tree) (spec : FieldSpec) : Except Error Tree := do
  let p ← spec.fieldPath
  if p.isRoot then return t
  else return (← p.remove t).1

theorem withoutVolatile_eq (volatile : List FieldSpec) (type : ResourceType) (t : Tree) :
    withoutVolatile volatile type t =
      (volatile.filter (·.appliesTo type)).foldlM withoutField t := rfl

theorem withoutField_sorted {t : Tree} (wf : t.WellFormed) (spec : FieldSpec) :
    withoutField t.sorted spec = (withoutField t spec).map .sorted := by
  rw [withoutField, withoutField]
  cases spec.fieldPath with
  | error e => rfl
  | ok p =>
    cases hroot : p.isRoot with
    | true => simp [hroot, bind, Except.bind, pure, Except.pure, Except.map]
    | false =>
      simp only [hroot, bind, Except.bind, Bool.false_eq_true, if_false, p.remove_sorted wf]
      cases p.remove t <;> rfl

theorem wellFormed_withoutField {t u : Tree} {spec : FieldSpec} (wf : t.WellFormed)
    (h : withoutField t spec = .ok u) : u.WellFormed := by
  obtain ⟨p, -, h⟩ := bind_eq_ok.1 h
  split at h
  · exact pure_eq_ok.1 h ▸ wf
  · obtain ⟨⟨v, n⟩, hv, h⟩ := bind_eq_ok.1 h
    exact pure_eq_ok.1 h ▸ FieldPath.wellFormed_remove wf hv

theorem withoutVolatile_sorted {t : Tree} (wf : t.WellFormed) (volatile : List FieldSpec)
    (type : ResourceType) :
    withoutVolatile volatile type t.sorted = (withoutVolatile volatile type t).map .sorted := by
  rw [withoutVolatile_eq, withoutVolatile_eq]
  induction volatile.filter (·.appliesTo type) generalizing t with
  | nil => rfl
  | cons spec specs ih =>
    rw [List.foldlM_cons, List.foldlM_cons, withoutField_sorted wf]
    cases h : withoutField t spec with
    | error e => rfl
    | ok u => exact ih (wellFormed_withoutField wf h)

theorem wellFormed_withoutVolatile {t u : Tree} (wf : t.WellFormed) {volatile : List FieldSpec}
    {type : ResourceType} (h : withoutVolatile volatile type t = .ok u) : u.WellFormed :=
  foldlM_invariant (fun _ _ _ _ wf h => wellFormed_withoutField wf h) wf h

section

variable {es : Entries Tree} (distinct : Entries.Distinct es)

include distinct

theorem find?_sorted (key : String) :
    Entries.find? key (Entries.mapValues sorted es).byKey = (Entries.find? key es).map sorted := by
  rw [Entries.find?_byKey (Entries.distinct_mapValues.2 distinct), Entries.find?_mapValues]

theorem dataOrEmpty_sorted :
    dataOrEmpty (Entries.mapValues sorted es).byKey = (dataOrEmpty es).sorted := by
  have hempty : (map []).sorted = map [] := by
    rw [sorted_map]
    exact congrArg map (Entries.byKey_of_pairwise .nil)
  rw [dataOrEmpty, dataOrEmpty, find?_sorted distinct]
  cases Entries.find? "data" es with
  | none => exact hempty.symm
  | some t =>
    cases t with
    | null => exact hempty.symm
    | _ => rfl

theorem optional_sorted (key : String) :
    optional key (Entries.mapValues sorted es).byKey =
      Entries.mapValues sorted (optional key es) := by
  rw [optional, optional, find?_sorted distinct]
  cases Entries.find? key es <;> rfl

end

theorem sorted_input {t : Tree} (wf : t.WellFormed) (kind name : String) :
    (input kind name t.sorted).sorted = (input kind name t).sorted := by
  cases t with
  | map es =>
    rw [sorted_map, input, input]
    split
    · rw [dataOrEmpty_sorted wf.1, optional_sorted wf.1, optional_sorted wf.1]
      refine .trans (congrArg sorted ?_) (sorted_map_mapValues _)
      simp only [Entries.mapValues, List.map_append]
      rfl
    · split
      · have htype : ((Entries.find? "type" es).map sorted).getD (.text "") =
            ((Entries.find? "type" es).getD (.text "")).sorted := by
          cases Entries.find? "type" es <;> rfl
        rw [dataOrEmpty_sorted wf.1, optional_sorted wf.1, find?_sorted wf.1, htype]
        refine .trans (congrArg sorted ?_) (sorted_map_mapValues _)
        simp only [Entries.mapValues, List.map_append]
        rfl
      · rw [← sorted_map, sorted_sorted]
  | _ => exact sorted_sorted _

section Hash

variable {d e : Document} (wf : d.tree.WellFormed) (h : e.tree = d.tree.sorted)
variable (volatile : List FieldSpec)

include wf h

theorem hash_of_sorted : hash volatile e = hash volatile d := by
  rw [hash, hash, Document.type_of_sorted wf h, Document.kind_of_sorted wf h,
    Document.name_of_sorted wf h, h, withoutVolatile_sorted wf]
  cases ht : withoutVolatile volatile d.type d.tree with
  | error e => rfl
  | ok t =>
    refine congrArg Except.ok ?_
    rw [hashTree, hashTree, canonicalText, canonicalText,
      sorted_input (wellFormed_withoutVolatile wf ht)]

theorem suffixed_of_sorted : suffixed volatile e = suffixed volatile d := by
  rw [suffixed, suffixed, hash_of_sorted wf h, Document.name_of_sorted wf h]

end Hash

theorem hash_eq_of_sameContent {d e : Document} (wf : d.tree.WellFormed)
    (same : d.tree.SameContent e.tree) (volatile : List FieldSpec) :
    hash volatile d = hash volatile e ∧ suffixed volatile d = suffixed volatile e := by
  have wf' : e.tree.WellFormed := same.wellFormed wf
  have hsorted : d.tree.sorted = e.tree.sorted := same.sorted_eq wf
  let common : Document := { tree := d.tree.sorted }
  constructor
  · exact (hash_of_sorted (e := common) wf rfl volatile).symm.trans
      (hash_of_sorted wf' hsorted volatile)
  · exact (suffixed_of_sorted (e := common) wf rfl volatile).symm.trans
      (suffixed_of_sorted wf' hsorted volatile)

def fooWithElement (element : Entries Tree) : Document where
  tree := .map [("kind", .text "Foo"), ("metadata", .map [("name", .text "foo")]),
    ("list", .list [.map element])]

theorem sameContent_fooWithElement {es es' : Entries Tree} (perm : es.Perm es') :
    SameContent (fooWithElement es).tree (fooWithElement es').tree :=
  .map (.cons (.refl _) (.cons (.refl _)
    (.cons (.list (.cons (.map (.refl es) perm) .nil)) .nil))) (.refl _)

theorem hash_eq_of_sameContent_below_match :
    hash [⟨{}, "list[name=a]/seen", false⟩, ⟨{}, "list[0]/at", false⟩]
        (fooWithElement [("name", .text "a"), ("at", .integer 1), ("seen", .null)]) =
      hash [⟨{}, "list[name=a]/seen", false⟩, ⟨{}, "list[0]/at", false⟩]
        (fooWithElement [("seen", .null), ("at", .integer 1), ("name", .text "a")]) :=
  (hash_eq_of_sameContent (by decide +kernel)
    (sameContent_fooWithElement (by decide)) _).1

end ContentName

end Manifest
