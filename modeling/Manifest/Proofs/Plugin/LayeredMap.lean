import Manifest.Plugin.LayeredMap
import Manifest.Proofs.Plugin.GeneratedMap
import Manifest.Proofs.Reference.Builtin
import Manifest.Proofs.Store

namespace Manifest.LayeredMap

open Reference

variable {w : Workspace} {m : LayeredMap} {s s' : Store}

def start (m : LayeredMap) (s : Store) : Identity :=
  ⟨m.recipe.kind.type, (m.adoptNamespace s).ns, m.recipe.name⟩

def anticipated (m : LayeredMap) (s : Store) (name : String) : List Rename :=
  (if m.namePrefix = "" then [m.start s]
    else [m.start s, (m.start s).withName (m.namePrefix ++ m.recipe.name)]).map
      fun old => ⟨old, name⟩

theorem start_mem_anticipated (m : LayeredMap) (s : Store) (name : String) :
    ⟨m.start s, name⟩ ∈ m.anticipated s name := by
  rw [anticipated]
  split <;> simp

theorem new_of_mem_anticipated {name : String} {r : Rename} (h : r ∈ m.anticipated s name) :
    r.new = name := by
  obtain ⟨old, _, rfl⟩ := List.mem_map.1 h
  rfl

section Adopted

variable (m : LayeredMap) (s : Store)

theorem adoptNamespace_eq :
    m.adoptNamespace s = { m.recipe with ns := (m.adoptNamespace s).ns } := by
  rw [adoptNamespace]
  split <;> rfl

@[simp] theorem kind_adoptNamespace : (m.adoptNamespace s).kind = m.recipe.kind := by
  rw [adoptNamespace_eq]

@[simp] theorem name_adoptNamespace : (m.adoptNamespace s).name = m.recipe.name := by
  rw [adoptNamespace_eq]

@[simp] theorem pairs_adoptNamespace (w : Workspace) :
    (m.adoptNamespace s).pairs w = m.recipe.pairs w := by
  rw [adoptNamespace_eq]
  rfl

@[simp] theorem entries_adoptNamespace (ps : List (String × String)) :
    (m.adoptNamespace s).entries ps = m.recipe.entries ps := by
  rw [adoptNamespace_eq]
  rfl

@[simp] theorem hashedName_adoptNamespace (name : String) (data : Entries Tree) :
    (m.adoptNamespace s).hashedName name data = m.recipe.hashedName name data := by
  rw [adoptNamespace_eq]
  rfl

end Adopted

theorem addPrefix_extends {ds : List Document} {d : Document} {r : MapRecipe} {name : String}
    {data : Entries Tree} {id : Identity} (h : s.Extends ds d) (htree : d.tree = r.tree name data)
    (hs' : m.addPrefix d.id s = .ok (s', id)) :
    ∃ d', s'.Extends ds d' ∧ d'.tree = r.tree (m.namePrefix ++ name) data ∧ d'.id = id := by
  have hmeta := MapRecipe.hasMetadata_of_tree htree
  rw [addPrefix] at hs'
  split at hs'
  · rename_i hprefix
    obtain ⟨rfl, rfl⟩ := Prod.mk.inj (Except.ok.inj hs')
    exact ⟨d, h, by rw [htree, hprefix, String.empty_append], rfl⟩
  · obtain ⟨s₁, hs₁, hs'⟩ := bind_eq_ok.1 hs'
    obtain ⟨rfl, rfl⟩ := Prod.mk.inj (pure_eq_ok.1 hs')
    refine ⟨_, (h.renamed_eq_ok hmeta).1 hs₁, ?_, hmeta.id_rename _⟩
    rw [MapRecipe.tree_rename_of_tree htree, MapRecipe.id_of_tree htree]

theorem repaired_of_dropped {renames : List Rename} {ds : List Document} {e e' : Document}
    {s₁ s₂ : Store} {k : Nat} (h : s₁.Extends ds e) (he : e.kind = m.recipe.kind.name)
    (hrepair : repair .builtin renames s₁ = .ok (s₂, k))
    (hremove : s₂.removed e.id = .ok (s', e')) :
    ds.map (repaired .builtin renames) = s'.documents.map .ok := by
  obtain rfl : s₁ = ⟨ds ++ [e]⟩ := Store.ext h.documents
  obtain ⟨ds', hdocs, hds'⟩ := (repair_append_map _ he).1 ⟨k, hrepair⟩
  have hext' : s₂.Extends ds' e := ⟨hdocs, by
    rw [map_of_repaired hds' fun _ _ => Document.SameIdentity.id_eq]
    exact h.fresh⟩
  rw [hext'.removed_eq] at hremove
  obtain ⟨rfl, -⟩ := Prod.mk.inj (Except.ok.inj hremove)
  exact hds'

theorem anticipated_eq (m : LayeredMap) (s : Store) (name : String) {current : Identity}
    (h : current = (m.start s).withName (m.namePrefix ++ m.recipe.name)) :
    ((if m.namePrefix = "" then [current] else [m.start s, current]).map fun old => ⟨old, name⟩) =
      m.anticipated s name := by
  rw [anticipated, h]
  split
  · rename_i hempty
    rw [hempty, String.empty_append]
    rfl
  · rfl

/-- No document has an identity that the scaffold goes through when it holds the data. -/
structure Free (m : LayeredMap) (s : Store) (data : Entries Tree) : Prop where
  start : m.start s ∉ s.ids
  prefixed : (m.start s).withName (m.namePrefix ++ m.recipe.name) ∉ s.ids
  hashed : (m.start s).withName
    (m.recipe.hashedName (m.namePrefix ++ m.recipe.name) data) ∉ s.ids

theorem anticipate_eq_ok (h : m.anticipate w s = .ok s') :
    ∃ ps e s₁ s₂ k e', m.recipe.pairs w = .ok ps ∧ MapRecipe.ValidPairs ps ∧
      m.Free s (m.recipe.entries ps) ∧
      e.tree = (m.adoptNamespace s).tree
        (m.recipe.hashedName (m.namePrefix ++ m.recipe.name) (m.recipe.entries ps))
        (m.recipe.entries ps) ∧
      s₁.Extends s.documents e ∧
      repair m.rules (m.anticipated s
        (m.recipe.hashedName (m.namePrefix ++ m.recipe.name) (m.recipe.entries ps))) s₁ =
          .ok (s₂, k) ∧
      s₂.removed e.id = .ok (s', e') := by
  obtain ⟨scaffold, hbuild, h⟩ := bind_eq_ok.1 h
  obtain ⟨s₁, happend, h⟩ := bind_eq_ok.1 h
  obtain ⟨⟨s₂, current⟩, hprefix, h⟩ := bind_eq_ok.1 h
  obtain ⟨ps, hps, hvalid, rfl⟩ := MapRecipe.build_eq_ok.1 hbuild
  rw [pairs_adoptNamespace] at hps
  have htree := (m.adoptNamespace s).tree_assemble ((m.adoptNamespace s).entries ps)
  have hstart : ((m.adoptNamespace s).assemble ((m.adoptNamespace s).entries ps)).id =
      m.start s := by
    rw [MapRecipe.id_of_tree htree, start, kind_adoptNamespace, name_adoptNamespace]
  obtain ⟨d, hext, hdtree, hcurrent⟩ :=
    addPrefix_extends (Store.appended_eq_ok_iff_extends.1 happend) htree hprefix
  have hid : current = (m.start s).withName (m.namePrefix ++ m.recipe.name) := by
    rw [← hcurrent, MapRecipe.id_of_tree hdtree, start, kind_adoptNamespace, name_adoptNamespace]
    rfl
  subst hcurrent
  simp only [hext.around.get?_eq] at h
  obtain ⟨name, hname, h⟩ := bind_eq_ok.1 h
  rw [MapRecipe.suffixed_of_tree hdtree, hashedName_adoptNamespace, entries_adoptNamespace,
    name_adoptNamespace] at hname
  obtain rfl := Except.ok.inj hname
  obtain ⟨s₃, hrename, h⟩ := bind_eq_ok.1 h
  obtain ⟨⟨s₄, k⟩, hrepair, h⟩ := bind_eq_ok.1 h
  obtain ⟨⟨s₅, e'⟩, hremove, h⟩ := bind_eq_ok.1 h
  obtain rfl := pure_eq_ok.1 h
  rw [hstart, m.anticipated_eq s _ hid] at hrepair
  have hmeta := MapRecipe.hasMetadata_of_tree hdtree
  rw [← hmeta.id_rename] at hremove
  have hlast := (hext.renamed_eq_ok hmeta).1 hrename
  refine ⟨ps, _, s₃, s₄, k, e', hps, hvalid, ?_, ?_, hlast, hrepair, hremove⟩
  · refine ⟨hstart ▸ (Store.appended_eq_ok_iff_extends.1 happend).fresh, hid ▸ hext.fresh, ?_⟩
    have hnew := hlast.fresh
    rwa [hmeta.id_rename, hid] at hnew
  · rw [MapRecipe.tree_rename_of_tree hdtree, entries_adoptNamespace]

theorem repair_of_anticipate (builtin : m.rules = .builtin) (h : m.anticipate w s = .ok s') :
    ∃ ps, m.recipe.pairs w = .ok ps ∧ MapRecipe.ValidPairs ps ∧
      ∃ k, repair .builtin (m.anticipated s
        (m.recipe.hashedName (m.namePrefix ++ m.recipe.name) (m.recipe.entries ps))) s =
          .ok (s', k) := by
  obtain ⟨ps, e, s₁, s₂, k, e', hps, hvalid, -, htree, hext, hrepair, hremove⟩ := anticipate_eq_ok h
  refine ⟨ps, hps, hvalid, repair_eq_ok.2 (repaired_of_dropped (m := m) hext ?_ (builtin ▸ hrepair)
    hremove)⟩
  rw [MapRecipe.kind_of_tree htree, kind_adoptNamespace]

theorem exists_addPrefix {ds : List Document} {d : Document} {r : MapRecipe} {name : String}
    {data : Entries Tree} (h : s.Extends ds d) (htree : d.tree = r.tree name data)
    (fresh : d.id.withName (m.namePrefix ++ name) ∉ ds.map Document.id) :
    ∃ s' d', s'.Extends ds d' ∧ d'.tree = r.tree (m.namePrefix ++ name) data ∧
      m.addPrefix d.id s = .ok (s', d'.id) := by
  have hmeta := MapRecipe.hasMetadata_of_tree htree
  have hname : d.id.name = name := by rw [MapRecipe.id_of_tree htree]
  rw [addPrefix]
  split
  · rename_i hprefix
    exact ⟨s, d, h, by rw [htree, hprefix, String.empty_append], rfl⟩
  · have hext : (Store.mk (ds ++ [d.rename (m.namePrefix ++ name)])).Extends ds
        (d.rename (m.namePrefix ++ name)) := ⟨rfl, by rwa [hmeta.id_rename]⟩
    refine ⟨_, _, hext, ?_, ?_⟩
    · rw [MapRecipe.tree_rename_of_tree htree]
    · rw [hname]
      exact bind_eq_ok.2 ⟨_, (h.renamed_eq_ok hmeta).2 hext, by rw [hmeta.id_rename]; rfl⟩

theorem anticipate_of_repair {ps : List (String × String)} {k : Nat} (builtin : m.rules = .builtin)
    (hps : m.recipe.pairs w = .ok ps) (hvalid : MapRecipe.ValidPairs ps)
    (free : m.Free s (m.recipe.entries ps))
    (hrepair : repair .builtin (m.anticipated s
      (m.recipe.hashedName (m.namePrefix ++ m.recipe.name) (m.recipe.entries ps))) s =
        .ok (s', k)) :
    m.anticipate w s = .ok s' := by
  have hbuild : (m.adoptNamespace s).build w =
      .ok ((m.adoptNamespace s).assemble ((m.adoptNamespace s).entries ps)) :=
    MapRecipe.build_eq_ok.2 ⟨ps, by rwa [pairs_adoptNamespace], hvalid, rfl⟩
  have htree := (m.adoptNamespace s).tree_assemble ((m.adoptNamespace s).entries ps)
  have hid : ((m.adoptNamespace s).assemble ((m.adoptNamespace s).entries ps)).id = m.start s := by
    rw [MapRecipe.id_of_tree htree, start, kind_adoptNamespace, name_adoptNamespace]
  obtain ⟨s₁, hext₁⟩ : ∃ s₁ : Store, s₁.Extends s.documents
      ((m.adoptNamespace s).assemble ((m.adoptNamespace s).entries ps)) :=
    ⟨⟨s.documents ++ [_]⟩, rfl, by rw [hid]; exact free.start⟩
  obtain ⟨s₂, d, hext₂, hdtree, hprefix⟩ := exists_addPrefix (m := m) hext₁ htree
    (by rw [hid, name_adoptNamespace]; exact free.prefixed)
  have hd : d.id = (m.start s).withName (m.namePrefix ++ m.recipe.name) := by
    rw [MapRecipe.id_of_tree hdtree, start, kind_adoptNamespace, name_adoptNamespace]
    rfl
  have hmeta := MapRecipe.hasMetadata_of_tree hdtree
  have hname := MapRecipe.suffixed_of_tree hdtree
  rw [hashedName_adoptNamespace, entries_adoptNamespace, name_adoptNamespace] at hname
  have hlast := free.hashed
  generalize m.recipe.hashedName (m.namePrefix ++ m.recipe.name) (m.recipe.entries ps) = name at *
  have hext₃ : (Store.mk (s.documents ++ [d.rename name])).Extends s.documents (d.rename name) :=
    ⟨rfl, by rw [hmeta.id_rename, hd]; exact hlast⟩
  have hkind : (d.rename name).kind = m.recipe.kind.name := by
    rw [Document.kind_rename, MapRecipe.kind_of_tree hdtree, kind_adoptNamespace]
  have hrepaired := repair_eq_ok.1 ⟨k, hrepair⟩
  obtain ⟨s₄, hext₄⟩ : ∃ s₄ : Store, s₄.Extends s'.documents (d.rename name) :=
    ⟨⟨s'.documents ++ [d.rename name]⟩, rfl, by
      rw [map_of_repaired hrepaired fun _ _ => Document.SameIdentity.id_eq]
      exact hext₃.fresh⟩
  obtain ⟨k', hrepair'⟩ := (repair_append_map _ hkind).2 ⟨s'.documents, hext₄.documents, hrepaired⟩
  refine bind_eq_ok.2 ⟨_, hbuild, bind_eq_ok.2 ⟨s₁, Store.appended_eq_ok_iff_extends.2 hext₁,
    bind_eq_ok.2 ⟨(s₂, d.id), hprefix, ?_⟩⟩⟩
  simp only [hext₂.around.get?_eq]
  refine bind_eq_ok.2 ⟨name, hname, bind_eq_ok.2 ⟨_, (hext₂.renamed_eq_ok hmeta).2 hext₃,
    bind_eq_ok.2 ⟨(s₄, k'), ?_, bind_eq_ok.2 ⟨_, hmeta.id_rename name ▸ hext₄.removed_eq, rfl⟩⟩⟩⟩
  rw [hid, m.anticipated_eq s name hd, builtin]
  exact hrepair'

theorem anticipate_builtin_eq_ok (builtin : m.rules = .builtin) : m.anticipate w s = .ok s' ↔
    ∃ ps, m.recipe.pairs w = .ok ps ∧ MapRecipe.ValidPairs ps ∧ m.Free s (m.recipe.entries ps) ∧
      ∃ k, repair .builtin (m.anticipated s
        (m.recipe.hashedName (m.namePrefix ++ m.recipe.name) (m.recipe.entries ps))) s =
          .ok (s', k) := by
  constructor
  · intro h
    obtain ⟨ps, e, s₁, s₂, k, e', hps, hvalid, hfree, -⟩ := anticipate_eq_ok h
    obtain ⟨ps', hps', -, hrepair⟩ := repair_of_anticipate builtin h
    obtain rfl := Except.ok.inj (hps.symm.trans hps')
    exact ⟨ps, hps, hvalid, hfree, hrepair⟩
  · rintro ⟨ps, hps, hvalid, hfree, k, hrepair⟩
    exact anticipate_of_repair builtin hps hvalid hfree hrepair

def mergeRenames (d : Document) (name : String) : List Rename :=
  ⟨d.id, name⟩ :: if d.firstId = d.id then [] else [⟨d.firstId, name⟩]

theorem mem_mergeRenames {d : Document} {name : String} {r : Rename} :
    r ∈ mergeRenames d name ↔ r = ⟨d.id, name⟩ ∨ r = ⟨d.firstId, name⟩ := by
  rw [mergeRenames]
  split
  · rename_i h
    simp [h]
  · simp

theorem sameIdentity_appendData {d merged : Document} (h : m.appendData d = .ok merged) :
    merged.SameIdentity d := by
  rw [appendData] at h
  split at h
  · rename_i es hes
    obtain ⟨data, _, h⟩ := bind_eq_ok.1 h
    obtain rfl := pure_eq_ok.1 h
    have hfield : ∀ key, "data" ≠ key → ∀ new,
        (Tree.map (Entries.insert "data" new es)).field? key = d.tree.field? key := by
      intro key hkey new
      rw [hes]
      exact (Entries.find?_insert "data" key new es).trans (if_neg hkey)
    exact ⟨rfl, hfield _ (by decide) _, hfield _ (by decide) _, hfield _ (by decide) _⟩
  · cases h

theorem extends_of_moveToEnd {d e : Document} {before after : List Document} {name : String}
    (h : s.Around d.id before e after) (hs' : moveToEnd s d name = .ok s') :
    s'.Extends (before ++ after) (d.rename name) := by
  rw [moveToEnd] at hs'
  split at hs'
  · cases hs'
  · obtain ⟨⟨s₁, e'⟩, hremove, hs'⟩ := bind_eq_ok.1 hs'
    rw [h.removed_eq] at hremove
    obtain ⟨rfl, -⟩ := Prod.mk.inj (Except.ok.inj hremove)
    exact Store.appended_eq_ok_iff_extends.1 hs'

theorem moveToEnd_of_extends {d e : Document} {before after : List Document} {name : String}
    (h : s.Around d.id before e after) (hasMetadata : d.HasMetadata)
    (hext : s'.Extends (before ++ after) (d.rename name)) : moveToEnd s d name = .ok s' := by
  have hfree : ¬ (d.id.withName name ≠ d.id ∧ (s.get? (d.id.withName name)).isSome = true) := by
    rintro ⟨hne, htaken⟩
    refine hext.fresh ?_
    rw [Store.isSome_get?, Store.ids_eq h.documents, h.id_eq] at htaken
    rw [hasMetadata.id_rename, List.map_append, List.mem_append]
    exact (List.mem_append.1 htaken).imp_right fun h => (List.mem_cons.1 h).resolve_left hne
  rw [moveToEnd]
  simp only [if_neg hfree]
  exact bind_eq_ok.2 ⟨_, h.removed_eq, Store.appended_eq_ok_iff_extends.2 hext⟩

theorem mergeInto_eq_ok {d e : Document} {before after : List Document}
    (hashed : m.recipe.plainName = false) (around : s.Around d.id before e after)
    (h : m.mergeInto d s = .ok s') :
    ∃ merged name k, m.appendData d = .ok merged ∧ contentName merged = .ok name ∧
      (merged.rename name).id ∉ (before ++ after).map Document.id ∧
      repair m.rules (mergeRenames d name) ⟨before ++ after ++ [merged.rename name]⟩ =
        .ok (s', k) := by
  obtain ⟨merged, hmerged, h⟩ := bind_eq_ok.1 h
  rw [hashed] at h
  obtain ⟨name, hname, h⟩ := bind_eq_ok.1 h
  obtain ⟨s₁, hs₁, h⟩ := bind_eq_ok.1 h
  obtain ⟨⟨s₂, k⟩, hrepair, h⟩ := bind_eq_ok.1 h
  obtain rfl := pure_eq_ok.1 h
  have hsame := sameIdentity_appendData hmerged
  have hext := extends_of_moveToEnd (hsame.id_eq ▸ around) hs₁
  obtain rfl : s₁ = ⟨before ++ after ++ [merged.rename name]⟩ := Store.ext hext.documents
  rw [hsame.firstId_eq] at hrepair
  exact ⟨merged, name, k, hmerged, hname, hext.fresh, hrepair⟩

theorem mergeInto_of_repair {d e merged : Document} {before after : List Document} {name : String}
    {k : Nat} (hashed : m.recipe.plainName = false) (around : s.Around d.id before e after)
    (hasMetadata : d.HasMetadata) (hmerged : m.appendData d = .ok merged)
    (hname : contentName merged = .ok name)
    (fresh : d.id.withName name ∉ (before ++ after).map Document.id)
    (hrepair : repair m.rules (mergeRenames d name)
      ⟨before ++ after ++ [merged.rename name]⟩ = .ok (s', k)) : m.mergeInto d s = .ok s' := by
  have hsame := sameIdentity_appendData hmerged
  have hmeta := hsame.hasMetadata_iff.2 hasMetadata
  have hmove : moveToEnd s merged name = .ok ⟨before ++ after ++ [merged.rename name]⟩ :=
    moveToEnd_of_extends (hsame.id_eq.symm ▸ around) hmeta
      ⟨rfl, by rw [hmeta.id_rename, hsame.id_eq]; exact fresh⟩
  rw [mergeRenames, ← hsame.firstId_eq] at hrepair
  refine bind_eq_ok.2 ⟨merged, hmerged, ?_⟩
  rw [hashed]
  exact bind_eq_ok.2 ⟨name, hname, bind_eq_ok.2 ⟨_, hmove, bind_eq_ok.2 ⟨(s', k), hrepair, rfl⟩⟩⟩

end Manifest.LayeredMap
