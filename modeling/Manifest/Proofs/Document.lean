import Manifest.Document
import Manifest.Proofs.FieldPath.Addressed

namespace Manifest

namespace Tree

theorem field?_modify_of_ne {f : Tree → Tree} {key other : String} (h : key ≠ other) (t : Tree) :
    (t.modify f [.key key]).field? other = t.field? other := by
  rw [← get?_key, ← get?_key]
  exact get?_modify_of_apart f (Position.apart_of_head_ne (by simpa using h) _ _) t

theorem field?_modify_self (f : Tree → Tree) (key : String) (t : Tree) :
    (t.modify f [.key key]).field? key = (t.field? key).map f := by
  rw [← get?_key, ← get?_key, get?_modify_self]

theorem addressedEntry_modify_of_ne {spread : Bool} {f : Tree → Tree} {key other : String}
    (h : key ≠ other) (segments : List Segment) (es : Entries Tree) :
    addressedEntry spread other segments (Entries.modify key f es) =
      addressedEntry spread other segments es := by
  induction es with
  | nil => rfl
  | cons e es ih =>
    obtain ⟨k, t⟩ := e
    by_cases hk : k = key
    · subst hk
      rw [Entries.modify, if_pos rfl, addressedEntry, addressedEntry, if_neg h, if_neg h]
    · rw [Entries.modify, if_neg hk, addressedEntry, addressedEntry, ih]

theorem addressed_modify_of_ne {spread : Bool} {f : Tree → Tree} {key other : String}
    (h : key ≠ other) (segments : List Segment) {t : Tree} (map : ∃ es, t = .map es) :
    (t.modify f [.key key]).addressed spread (.field other :: segments) =
      t.addressed spread (.field other :: segments) := by
  obtain ⟨es, rfl⟩ := map
  rw [modify_cons, modifyChild, addressed, addressed]
  exact addressedEntry_modify_of_ne h segments es

def writeEntry (key : String) (value : Tree) : Tree → Tree
  | .map es => .map (Entries.insert key value es)
  | t => t

theorem writeEntry_writeEntry (key : String) (value value' t : Tree) :
    writeEntry key value' (writeEntry key value t) = writeEntry key value' t := by
  cases t with
  | map es => exact congrArg map (Entries.insert_insert key value value' es)
  | _ => rfl

theorem field?_writeEntry (key other : String) (value : Tree) (es : Entries Tree) :
    (writeEntry key value (.map es)).field? other =
      if key = other then some value else (map es).field? other := by
  simp [writeEntry, field?, entries?, Entries.find?_insert]

theorem field?_writeEntry_of_ne {key other : String} (h : key ≠ other) (value t : Tree) :
    (writeEntry key value t).field? other = t.field? other := by
  cases t with
  | map es => rw [field?_writeEntry, if_neg h]
  | _ => rfl

end Tree

namespace Document

theorem tree_setMetadata (key : String) (value : Tree) (d : Document) :
    (d.setMetadata key value).tree = d.tree.modify (Tree.writeEntry key value) [.key "metadata"] :=
  rfl

@[simp] theorem kind_setMetadata (key : String) (value : Tree) (d : Document) :
    (d.setMetadata key value).kind = d.kind := by
  rw [kind, kind, Tree.fieldText, Tree.fieldText, tree_setMetadata,
    Tree.field?_modify_of_ne (by decide)]

@[simp] theorem type_setMetadata (key : String) (value : Tree) (d : Document) :
    (d.setMetadata key value).type = d.type := by
  rw [type, type, apiVersion, apiVersion, kind_setMetadata, Tree.fieldText, Tree.fieldText,
    tree_setMetadata, Tree.field?_modify_of_ne (by decide)]

theorem metadata?_setMetadata_of_ne {key other : String} (h : key ≠ other) (value : Tree)
    (d : Document) : (d.setMetadata key value).metadata? other = d.metadata? other := by
  rw [metadata?, metadata?, tree_setMetadata, Tree.field?_modify_self]
  cases d.tree.field? "metadata" with
  | none => rfl
  | some u => exact Tree.field?_writeEntry_of_ne h value u

theorem setMetadata_setMetadata (key : String) (value value' : Tree) (d : Document) :
    (d.setMetadata key value).setMetadata key value' = d.setMetadata key value' := by
  have htree : ((d.setMetadata key value).setMetadata key value').tree =
      (d.setMetadata key value').tree := by
    rw [tree_setMetadata, tree_setMetadata, tree_setMetadata, Tree.modify_modify]
    simp only [Tree.writeEntry_writeEntry]
  exact congrArg (fun t => (⟨t, d.previous⟩ : Document)) htree

def HasMetadata (d : Document) : Prop := ∃ es, d.tree.field? "metadata" = some (.map es)

theorem hasMetadata_of_name {d : Document} (h : d.name ≠ "") : d.HasMetadata := by
  rw [name, metadata?] at h
  cases hm : d.tree.field? "metadata" with
  | none =>
    rw [hm] at h
    exact absurd rfl h
  | some u =>
    rw [hm] at h
    cases u with
    | map es => exact ⟨es, hm⟩
    | _ => exact absurd rfl h

theorem HasMetadata.setMetadata {d : Document} (h : d.HasMetadata) (key : String) (value : Tree) :
    (d.setMetadata key value).HasMetadata := by
  obtain ⟨es, hes⟩ := h
  exact ⟨_, by rw [tree_setMetadata, Tree.field?_modify_self, hes]; rfl⟩

theorem HasMetadata.metadata?_setMetadata {d : Document} (h : d.HasMetadata) (key : String)
    (value : Tree) : (d.setMetadata key value).metadata? key = some value := by
  obtain ⟨es, hes⟩ := h
  rw [metadata?, tree_setMetadata, Tree.field?_modify_self, hes]
  exact (Tree.field?_writeEntry key key value es).trans (if_pos rfl)

theorem HasMetadata.name_setName {d : Document} (h : d.HasMetadata) (name : String) :
    (d.setName name).name = name := by
  rw [Document.name, setName, h.metadata?_setMetadata]
  rfl

@[simp] theorem ns_setName (name : String) (d : Document) : (d.setName name).ns = d.ns := by
  rw [ns, ns, setName, metadata?_setMetadata_of_ne (by decide)]

theorem HasMetadata.id_setName {d : Document} (h : d.HasMetadata) (name : String) :
    (d.setName name).id = d.id.withName name := by
  rw [id, h.name_setName, ns_setName, setName, type_setMetadata]
  rfl

@[simp] theorem kind_type (d : Document) : d.type.kind = d.kind := by
  rw [type, ResourceType.ofApiVersion]
  split <;> rfl

structure SameIdentity (d e : Document) : Prop where
  previous : d.previous = e.previous
  apiVersion : d.tree.field? "apiVersion" = e.tree.field? "apiVersion"
  kind : d.tree.field? "kind" = e.tree.field? "kind"
  metadata : d.tree.field? "metadata" = e.tree.field? "metadata"

namespace SameIdentity

@[refl] theorem refl (d : Document) : SameIdentity d d := ⟨rfl, rfl, rfl, rfl⟩

theorem trans {d e f : Document} (h : SameIdentity d e) (h' : SameIdentity e f) :
    SameIdentity d f where
  previous := h.previous.trans h'.previous
  apiVersion := h.apiVersion.trans h'.apiVersion
  kind := h.kind.trans h'.kind
  metadata := h.metadata.trans h'.metadata

variable {d e : Document} (h : SameIdentity d e)

include h

theorem kind_eq : d.kind = e.kind := by
  rw [Document.kind, Document.kind, Tree.fieldText, Tree.fieldText, h.kind]

theorem type_eq : d.type = e.type := by
  rw [Document.type, Document.type, h.kind_eq, Document.apiVersion, Document.apiVersion,
    Tree.fieldText, Tree.fieldText, h.apiVersion]

theorem metadata?_eq (key : String) : d.metadata? key = e.metadata? key := by
  rw [Document.metadata?, Document.metadata?, h.metadata]

theorem name_eq : d.name = e.name := by rw [Document.name, Document.name, h.metadata?_eq]

theorem ns_eq : d.ns = e.ns := by rw [Document.ns, Document.ns, h.metadata?_eq]

theorem id_eq : d.id = e.id := by rw [Document.id, Document.id, h.type_eq, h.ns_eq, h.name_eq]

theorem firstId_eq : d.firstId = e.firstId := by
  rw [Document.firstId, Document.firstId, h.previous, h.id_eq]

theorem hasName_eq (name : String) : d.hasName name = e.hasName name := by
  rw [Document.hasName, Document.hasName, h.name_eq, h.previous]

theorem hasMetadata_iff : d.HasMetadata ↔ e.HasMetadata := by
  rw [HasMetadata, HasMetadata, h.metadata]

end SameIdentity

@[simp] theorem previous_rename (name : String) (d : Document) :
    (d.rename name).previous = d.previous ++ [d.id] := rfl

@[simp] theorem tree_rename (name : String) (d : Document) :
    (d.rename name).tree = (d.setName name).tree := rfl

theorem tree_setName_rename (name name' : String) (d : Document) :
    ((d.rename name).setName name').tree = (d.setName name').tree := by
  have h := setMetadata_setMetadata "name" (.text name) (.text name') d.remember
  exact (congrArg tree h).trans rfl

@[simp] theorem type_rename (name : String) (d : Document) : (d.rename name).type = d.type :=
  type_setMetadata "name" (.text name) d

@[simp] theorem kind_rename (name : String) (d : Document) : (d.rename name).kind = d.kind :=
  kind_setMetadata "name" (.text name) d

@[simp] theorem ns_rename (name : String) (d : Document) : (d.rename name).ns = d.ns :=
  ns_setName name d

theorem HasMetadata.name_rename {d : Document} (h : d.HasMetadata) (name : String) :
    (d.rename name).name = name :=
  h.name_setName name

theorem HasMetadata.id_rename {d : Document} (h : d.HasMetadata) (name : String) :
    (d.rename name).id = d.id.withName name :=
  h.id_setName name

@[simp] theorem firstId_rename (name : String) (d : Document) :
    (d.rename name).firstId = d.firstId := by
  rw [firstId, firstId, previous_rename]
  cases d.previous <;> rfl

theorem hasName_firstId (d : Document) : d.hasName d.firstId.name = true := by
  rw [hasName, firstId]
  cases d.previous with
  | nil => simp [id]
  | cons id ids => simp

theorem hasName_rename {d : Document} {m : String} (h : d.hasName m = true)
    (name : String) : (d.rename name).hasName m = true := by
  simp only [hasName, previous_rename, List.any_append, Bool.or_eq_true, decide_eq_true_eq] at h ⊢
  rcases h with rfl | h
  · exact .inr (.inr (by simp [id]))
  · exact .inr (.inl h)

def identityFields : List (List String) :=
  [["apiVersion"], ["kind"], ["metadata", "namespace"], ["metadata", "name"]]

def Valid (d : Document) : Prop := d.tree.identityFault? = none

instance (d : Document) : Decidable d.Valid := inferInstanceAs (Decidable (_ = none))

theorem Valid.tree_eq_map {d : Document} (h : d.Valid) : ∃ es, d.tree = .map es := by
  rw [Valid] at h
  cases ht : d.tree with
  | map es => exact ⟨es, rfl⟩
  | _ =>
    rw [ht] at h
    cases h

theorem textAt_kind (d : Document) : d.tree.textAt ["kind"] = d.kind := by
  rw [Tree.textAt, Position.ofKeys, List.map_singleton, Tree.get?_key]
  rfl

theorem textAt_apiVersion (d : Document) : d.tree.textAt ["apiVersion"] = d.apiVersion := by
  rw [Tree.textAt, Position.ofKeys, List.map_singleton, Tree.get?_key]
  rfl

theorem textAt_metadata (key : String) (d : Document) :
    d.tree.textAt ["metadata", key] = ((d.metadata? key).bind Tree.string?).getD "" := by
  rw [Tree.textAt, metadata?, Tree.field?_eq_child?]
  change (((d.tree.child? (.key "metadata")).bind fun u => u.get? [.key key]).bind _).getD _ = _
  simp only [Tree.get?_key]

theorem textAt_name (d : Document) : d.tree.textAt ["metadata", "name"] = d.name :=
  textAt_metadata "name" d

theorem textAt_namespace (d : Document) : d.tree.textAt ["metadata", "namespace"] = d.ns :=
  textAt_metadata "namespace" d

theorem valid_iff {d : Document} : d.Valid ↔
    d.kind ≠ "" ∧ d.tree.IsLeaf (.ofKeys ["apiVersion"]) ∧ d.name ≠ "" := by
  have hname : d.name = ((d.tree.field? "metadata").map (Tree.fieldText "name")).getD "" := by
    rw [name, metadata?]
    cases d.tree.field? "metadata" <;> rfl
  have hfault : Tree.identityFault?.nameFault? d.tree = none ↔ d.name ≠ "" := by
    rw [hname, Tree.identityFault?.nameFault?]
    split <;> simp_all
  rw [Valid, kind, Tree.IsLeaf, Position.ofKeys, List.map_singleton, Tree.get?_key]
  cases ht : d.tree with
  | map es =>
    rw [ht] at hfault
    have hkind : Tree.fieldText "kind" (.map es) =
        ((Entries.find? "kind" es).bind Tree.string?).getD "" := rfl
    have hversion : (Tree.map es).field? "apiVersion" = Entries.find? "apiVersion" es := rfl
    rw [Tree.identityFault?, hkind, hversion]
    split
    · rename_i hempty
      exact ⟨nofun, fun h => absurd hempty h.1⟩
    · rename_i hne
      split
      · rename_i hnone
        exact hfault.trans ⟨fun h => ⟨hne, .inl hnone, h⟩, fun h => h.2.2⟩
      · rename_i s htext
        exact hfault.trans ⟨fun h => ⟨hne, .inr ⟨s, htext⟩, h⟩, fun h => h.2.2⟩
      · rename_i u hother hsome
        refine ⟨nofun, fun h => ?_⟩
        rcases h.2.1 with hnone | ⟨s, htext⟩
        · rw [hnone] at hsome
          cases hsome
        · rw [htext] at hsome
          exact absurd (Option.some.inj hsome).symm (hother s)
  | _ => exact ⟨nofun, fun h => absurd rfl h.1⟩

theorem Valid.name_ne_empty {d : Document} (h : d.Valid) : d.name ≠ "" := (valid_iff.1 h).2.2

theorem valid_iff_ofTree {d : Document} : d.Valid ↔ ofTree d.tree = .ok { tree := d.tree } := by
  rw [Valid, ofTree]
  cases d.tree.identityFault? with
  | none => exact ⟨fun _ => rfl, fun _ => rfl⟩
  | some fault => exact ⟨nofun, nofun⟩

theorem eq_of_replaceTree {d d' : Document} {t : Tree} (h : d.replaceTree t = .ok d') :
    d' = { d with tree := t } := by
  rw [replaceTree] at h
  split at h
  · cases h
  · exact (Except.ok.inj h).symm

theorem valid_of_replaceTree {d d' : Document} {t : Tree} (h : d.replaceTree t = .ok d') :
    d'.Valid := by
  obtain rfl := eq_of_replaceTree h
  rw [replaceTree] at h
  split at h
  · cases h
  · assumption

theorem Valid.replaceTree_eq {d e : Document} (valid : e.Valid)
    (previous : e.previous = d.previous) : d.replaceTree e.tree = .ok e := by
  rw [Valid] at valid
  rw [replaceTree, valid, ← previous]

theorem withTree_eq_self_iff {d : Document} {t : Tree} :
    { d with tree := t } = d ↔ t = d.tree := by
  obtain ⟨tree, previous⟩ := d
  simp

theorem Valid.rename {d : Document} (h : d.Valid) {name : String} (hne : name ≠ "") :
    (d.rename name).Valid := by
  obtain ⟨hkind, hversion, hname⟩ := valid_iff.1 h
  refine valid_iff.2 ⟨by rwa [kind_rename], ?_, ?_⟩
  · rw [tree_rename, setName, tree_setMetadata, Tree.IsLeaf, Position.ofKeys, List.map_singleton,
      Tree.get?_modify_of_apart _ (Position.apart_of_head_ne (by decide) _ _)]
    exact hversion
  · rwa [(hasMetadata_of_name hname).name_rename]

theorem SameIdentity.valid {d e : Document} (same : d.SameIdentity e) (h : e.Valid) :
    d.Valid := by
  obtain ⟨hkind, hversion, hname⟩ := valid_iff.1 h
  refine valid_iff.2 ⟨by rwa [same.kind_eq], ?_, by rwa [same.name_eq]⟩
  rw [Tree.IsLeaf, Position.ofKeys, List.map_singleton, Tree.get?_key] at hversion ⊢
  rwa [same.apiVersion]

theorem id_eq_of_textAt {d e : Document} (h : ∀ keys ∈ identityFields,
    d.tree.textAt keys = e.tree.textAt keys) : d.id = e.id := by
  simp only [identityFields, List.forall_mem_cons, textAt_apiVersion, textAt_kind, textAt_namespace,
    textAt_name] at h
  obtain ⟨hversion, hkind, hns, hname, -⟩ := h
  rw [id, id, type, type, hversion, hkind, hns, hname]

structure KeepsIdentity (d e : Document) : Prop where
  previous : e.previous = d.previous
  fields : ∀ keys ∈ identityFields, e.tree.get? (.ofKeys keys) = d.tree.get? (.ofKeys keys)

namespace KeepsIdentity

@[refl] theorem refl (d : Document) : KeepsIdentity d d := ⟨rfl, fun _ _ => rfl⟩

theorem trans {d e f : Document} (h : KeepsIdentity d e) (h' : KeepsIdentity e f) :
    KeepsIdentity d f where
  previous := h'.previous.trans h.previous
  fields keys hkeys := (h'.fields keys hkeys).trans (h.fields keys hkeys)

variable {d e : Document} (h : KeepsIdentity d e)

include h

theorem textAt_eq {keys : List String} (hkeys : keys ∈ identityFields) :
    e.tree.textAt keys = d.tree.textAt keys := by
  rw [Tree.textAt, Tree.textAt, h.fields keys hkeys]

theorem id_eq : e.id = d.id := id_eq_of_textAt fun _ hkeys => h.textAt_eq hkeys

theorem valid (hd : d.Valid) : e.Valid := by
  rw [valid_iff, ← textAt_kind, ← textAt_name, Tree.IsLeaf] at hd ⊢
  rwa [h.textAt_eq (by decide), h.textAt_eq (by decide), h.fields _ (by decide)]

end KeepsIdentity

end Document

end Manifest
