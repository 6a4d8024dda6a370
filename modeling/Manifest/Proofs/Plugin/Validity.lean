import Manifest.Plugin.Catalog
import Manifest.Proofs.EncodedField
import Manifest.Proofs.FieldPath.KeepsChecked
import Manifest.Proofs.Plugin.LayeredMap
import Manifest.Proofs.Plugin.TextEdits
import Manifest.Proofs.Reference.Identity

/-! Replaced trees are checked, and maps are renamed to names that are not empty.  Other
transformers write at configured paths without a check, and keep documents valid if their paths
spare the checked fields or their edits keep texts. -/

namespace Manifest

open Reference

variable {w : Workspace} {s s' : Store}

def FieldSpec.AddsNoVersion (spec : FieldSpec) : Prop :=
  spec.create = true → ∀ p, spec.fieldPath = .ok p → p.firstField? ≠ some "apiVersion"

namespace Document.Valid

variable {d d' : Document} {specs : List FieldSpec}

theorem editFields_of_spares {edit : Tree → Except Error Tree} (valid : d.Valid)
    (noVersion : ∀ spec ∈ specs, spec.AddsNoVersion)
    (spares : ∀ spec ∈ specs, ∀ p, spec.fieldPath = .ok p → p.SparesChecked)
    (h : d.editFields specs edit = .ok d') : d'.Valid :=
  valid.editFields (fun spec hspec p hp _ _ _ map happly =>
    (FieldPath.applied_of_run happly).keepsChecked_of_spares map
      (fun create => noVersion spec hspec create p hp) (spares spec hspec p hp)) h

theorem editFields_of_keepsTexts {f : Tree → Tree} (valid : d.Valid)
    (noVersion : ∀ spec ∈ specs, spec.AddsNoVersion) (keeps : ∀ u : Tree, u.KeepsTexts (f u))
    (h : d.editFields specs (fun t => .ok (f t)) = .ok d') : d'.Valid :=
  valid.editFields (fun spec hspec p hp _ _ _ map happly =>
    (FieldPath.applied_of_run happly).keepsChecked_of_keepsTexts map
      (fun create => noVersion spec hspec create p hp) keeps) h

end Document.Valid

theorem FullPath.valid_of_transform {c : FullPath}
    (noVersion : ∀ spec ∈ c.specs, spec.AddsNoVersion) (valid : s.Valid)
    (h : c.transform w s = .ok s') : s'.Valid :=
  Store.valid_of_mapM valid (fun _ _ hd =>
    hd.editFields_of_keepsTexts noVersion (keepsTexts_resolveNode w)) h

theorem ImageUpdate.valid_of_transform {c : ImageUpdate} (named : c.image.name ≠ "")
    (noVersion : ∀ spec ∈ c.specs, spec.AddsNoVersion) (valid : s.Valid)
    (h : c.transform s = .ok s') : s'.Valid := by
  refine Store.valid_of_mapM valid (fun d d' hd hd' => ?_) h
  have hcontainers : (Document.mk (c.image.updateContainers d.tree).1 d.previous).Valid :=
    hd.of_keepsChecked (.of_keepsTexts (c.image.keepsTexts_updateContainers named d.tree))
  exact hcontainers.editFields_of_keepsTexts noVersion (c.image.keepsTexts_updateNode named) hd'

theorem VariableExpansion.valid_of_transform {c : VariableExpansion}
    (noVersion : ∀ spec ∈ c.rules.expanded, spec.AddsNoVersion)
    (spares : ∀ spec ∈ c.rules.expanded, ∀ p, spec.fieldPath = .ok p → p.SparesChecked)
    (valid : s.Valid) (h : c.transform s = .ok s') : s'.Valid := by
  obtain ⟨vars, -, h⟩ := bind_eq_ok.1 h
  split at h
  · exact pure_eq_ok.1 h ▸ valid
  · exact Store.valid_of_mapM valid (fun _ _ hd => hd.editFields_of_spares noVersion spares) h

namespace SearchReplace

variable {c : SearchReplace} {r : Replacement} {d d' : Document}

theorem valid_of_replaceRoot (h : c.replaceRoot r d = .ok d') : d'.Valid := by
  obtain ⟨t, -, h⟩ := bind_eq_ok.1 h
  cases t with
  | map es => exact Document.valid_of_replaceTree h
  | _ => cases h

theorem valid_of_replaceIn (spares : c.path.isRoot = true ∨ c.path.SparesChecked)
    (valid : d.Valid) (h : c.replaceIn r d = .ok d') : d'.Valid := by
  rw [replaceIn] at h
  split at h
  · exact valid_of_replaceRoot h
  · rename_i hroot
    obtain ⟨⟨e, n⟩, happly, rfl⟩ := map_eq_ok.1 h
    obtain ⟨t, ht, rfl⟩ := EncodedField.applied_eq_ok happly
    have happlied := FieldPath.applied_of_run ht
    exact valid.of_keepsChecked (happlied.keepsChecked_of_spares valid.tree_eq_map nofun
      (spares.resolve_left hroot))

theorem valid_of_transform (spares : c.path.isRoot = true ∨ c.path.SparesChecked)
    (valid : s.Valid) (h : c.transform w s = .ok s') : s'.Valid := by
  obtain ⟨r?, -, h⟩ := bind_eq_ok.1 h
  cases r? with
  | none => exact pure_eq_ok.1 h ▸ valid
  | some r =>
    obtain ⟨accepts, -, h⟩ := bind_eq_ok.1 h
    refine Store.valid_of_mapM valid (fun d d' hd hd' => ?_) h
    split at hd'
    · exact valid_of_replaceIn spares hd hd'
    · exact Except.ok.inj hd' ▸ hd

end SearchReplace

theorem Patch.valid_of_apply {p : Patch} (valid : s.Valid) (h : p.apply s = .ok s') :
    s'.Valid := by
  obtain ⟨accepts, -, h⟩ := bind_eq_ok.1 h
  refine Store.valid_of_mapM valid (fun d d' hd hd' => ?_) h
  split at hd'
  · exact Document.valid_of_replaceTree hd'
  · exact Except.ok.inj hd' ▸ hd

theorem SelectivePatch.valid_of_transform {c : SelectivePatch} (valid : s.Valid)
    (h : c.transform s = .ok s') : s'.Valid := by
  rw [transform] at h
  split at h
  · exact foldlM_invariant (fun _ _ _ _ => Patch.valid_of_apply) valid h
  · exact Except.ok.inj h ▸ valid

namespace LayeredMap

variable {m : LayeredMap} {d : Document}

theorem valid_of_replace {id : Identity} {t : Tree} (valid : s.Valid)
    (h : replace s id t = .ok s') : s'.Valid := by
  rw [replace] at h
  split at h
  · cases h
  · rename_i e he
    obtain ⟨e', hreplaced, h⟩ := bind_eq_ok.1 h
    obtain rfl := pure_eq_ok.1 h
    obtain ⟨before, after, around⟩ := Store.get?_eq_some_iff.1 he
    intro f hf
    rw [Store.modify, around.position?_eq] at hf
    simp only [around.modify_eq, List.mem_append, List.mem_cons] at hf
    rw [Store.Valid, around.documents] at valid
    rcases hf with hf | rfl | hf
    · exact valid f (List.mem_append_left _ hf)
    · exact Document.valid_of_replaceTree hreplaced
    · exact valid f (List.mem_append_right _ (List.mem_cons_of_mem e hf))

theorem valid_of_mergeInto (valid : s.Valid) (hd : d ∈ s.documents)
    (h : m.mergeInto d s = .ok s') : s'.Valid := by
  cases hplain : m.recipe.plainName with
  | true =>
    obtain ⟨merged, -, h⟩ := bind_eq_ok.1 h
    rw [hplain] at h
    exact valid_of_replace valid h
  | false =>
    obtain ⟨before, e, after, around⟩ := Store.exists_around (List.mem_map_of_mem hd : d.id ∈ s.ids)
    obtain ⟨merged, name, k, hmerged, hname, -, hrepair⟩ := mergeInto_eq_ok hplain around h
    have hne : name ≠ "" := ContentName.ne_empty_of_suffixed hname
    have hvalid := ((sameIdentity_appendData hmerged).valid (valid d hd)).rename hne
    refine valid_of_repair (fun r hr => ?_) (fun f hf => ?_) hrepair
    · rcases mem_mergeRenames.1 hr with rfl | rfl <;> exact hne
    · rw [Store.Valid, around.documents] at valid
      simp only [List.mem_append, List.mem_singleton] at hf
      rcases hf with (hf | hf) | rfl
      · exact valid f (List.mem_append_left _ hf)
      · exact valid f (List.mem_append_right _ (List.mem_cons_of_mem e hf))
      · exact hvalid

theorem valid_of_anticipate (valid : s.Valid) (h : m.anticipate w s = .ok s') : s'.Valid := by
  obtain ⟨ps, e, s₁, s₂, k, e', -, -, -, htree, hext, hrepair, hremove⟩ := anticipate_eq_ok h
  have hne := m.recipe.hashedName_ne_empty (m.namePrefix ++ m.recipe.name) (m.recipe.entries ps)
  have hvalid : s₂.Valid := by
    refine valid_of_repair (fun r hr => ?_) (fun f hf => ?_) hrepair
    · rwa [new_of_mem_anticipated hr]
    · rw [hext.documents, List.mem_append, List.mem_singleton] at hf
      rcases hf with hf | rfl
      · exact valid f hf
      · exact MapRecipe.valid_of_tree htree hne
  obtain ⟨before, after, around, hdocs⟩ := Store.removed_eq_ok.1 hremove
  intro f hf
  refine hvalid f ?_
  rw [hdocs, List.mem_append] at hf
  rw [around.documents, List.mem_append]
  exact hf.imp_right (List.mem_cons_of_mem e')

theorem valid_of_transform (valid : s.Valid) (h : m.transform w s = .ok s') : s'.Valid := by
  rw [transform] at h
  split at h
  · rename_i d hfound
    exact valid_of_mergeInto valid (List.mem_of_find?_eq_some hfound) h
  · split at h
    · exact valid_of_anticipate valid h
    · exact Except.ok.inj h ▸ valid

end LayeredMap

theorem MapRecipe.name_ne_empty_of_configure {kind : MapKind} {config : Tree} {r : MapRecipe}
    (h : configure kind config = .ok r) : r.name ≠ "" := (configure_eq_ok.1 h).2.1

theorem LayeredMap.name_ne_empty_of_configure {kind : MapKind} {config : Tree} {m : LayeredMap}
    (h : configure w kind config = .ok m) : m.recipe.name ≠ "" := by
  obtain ⟨r, hr, h⟩ := bind_eq_ok.1 h
  split at h
  · cases h
  · obtain ⟨rules, -, h⟩ := bind_eq_ok.1 h
    exact pure_eq_ok.1 h ▸ MapRecipe.name_ne_empty_of_configure hr

theorem ImageUpdate.name_ne_empty_of_configure {config : Tree} {c : ImageUpdate}
    (h : configure config = .ok c) : c.image.name ≠ "" := by
  rw [configure] at h
  split at h
  · cases h
  · split at h
    · cases h
    · rename_i hne
      exact Except.ok.inj h ▸ hne

theorem Generator.valid_of_generate {g : Generator} {kind : String} {config : Tree} {d : Document}
    (configured : configure w kind config = .ok g) (h : g.generate w = .ok d) : d.Valid := by
  rw [configure] at configured
  split at configured
  · rename_i read hread
    have hmem := Entries.mem_of_find? hread
    simp only [catalog, List.mem_cons, List.not_mem_nil, or_false, Prod.mk.injEq] at hmem
    rcases hmem with ⟨-, rfl⟩ | ⟨-, rfl⟩ | ⟨-, rfl⟩ | ⟨-, rfl⟩ <;>
      obtain ⟨r, hr, rfl⟩ := map_eq_ok.1 configured
    · exact MapRecipe.valid_of_generate (MapRecipe.name_ne_empty_of_configure hr) h
    · exact MapRecipe.valid_of_generate (MapRecipe.name_ne_empty_of_configure hr) h
    · exact MapRecipe.valid_of_generate (LayeredMap.name_ne_empty_of_configure hr) h
    · exact MapRecipe.valid_of_generate (LayeredMap.name_ne_empty_of_configure hr) h
  · cases configured

namespace Transformer

/-- No path at which the transformer may write anything leads to a checked field, and none at which
it adds keys starts with `apiVersion`. -/
def SparesChecked : Transformer → Prop
  | layeredMap _ | patches _ => True
  | searchReplace c => c.path.isRoot = true ∨ c.path.SparesChecked
  | fullPath c => ∀ spec ∈ c.specs, spec.AddsNoVersion
  | images c => ∀ spec ∈ c.specs, spec.AddsNoVersion
  | expansion c => (∀ spec ∈ c.rules.expanded, spec.AddsNoVersion) ∧
      ∀ spec ∈ c.rules.expanded, ∀ p, spec.fieldPath = .ok p → p.SparesChecked

theorem name_ne_empty_of_configure {kind : String} {config : Tree} {c : ImageUpdate}
    (h : configure w kind config = .ok (images c)) : c.image.name ≠ "" := by
  rw [configure] at h
  split at h
  · rename_i read hread
    have hmem := Entries.mem_of_find? hread
    simp only [catalog, List.mem_cons, List.not_mem_nil, or_false, Prod.mk.injEq] at hmem
    rcases hmem with ⟨-, rfl⟩ | ⟨-, rfl⟩ | ⟨-, rfl⟩ | ⟨-, rfl⟩ | ⟨-, rfl⟩ | ⟨-, rfl⟩ | ⟨-, rfl⟩ <;>
      obtain ⟨c', hc', heq⟩ := map_eq_ok.1 h <;> cases heq
    exact ImageUpdate.name_ne_empty_of_configure hc'
  · cases h

theorem valid_of_transform {x : Transformer} {kind : String} {config : Tree}
    (configured : configure w kind config = .ok x) (spares : x.SparesChecked) (valid : s.Valid)
    (h : x.transform w s = .ok s') : s'.Valid := by
  cases x with
  | layeredMap m => exact m.valid_of_transform valid h
  | searchReplace c => exact c.valid_of_transform spares valid h
  | fullPath c => exact c.valid_of_transform spares valid h
  | expansion c => exact c.valid_of_transform spares.1 spares.2 valid h
  | patches c => exact c.valid_of_transform valid h
  | images c => exact c.valid_of_transform (name_ne_empty_of_configure configured) spares valid h

end Transformer

end Manifest
