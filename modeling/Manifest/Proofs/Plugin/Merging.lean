import Manifest.Proofs.Plugin.LayeredMap

namespace Manifest

open Reference

namespace MapRecipe

def overridden (r : MapRecipe) (ps : List (String × String)) (data : Entries Tree) : MapRecipe :=
  { r with
    literals := [], files := [], envs := [], plainName := false
    data := Entries.insertAll (ps.map fun p => (p.1, .text p.2)) data }

def generatedValue (k : MapKind) (t : Tree) : Tree := .text (k.stored (dataText t))

variable {w : Workspace} {r : MapRecipe} {ps : List (String × String)} {data : Entries Tree}

theorem pairs_overridden (w : Workspace) (r : MapRecipe) (ps : List (String × String))
    (data : Entries Tree) : (r.overridden ps data).pairs w =
      .ok (Entries.mapValues dataText (r.overridden ps data).data) := by
  have h : (r.overridden ps data).pairs w =
    .ok ([] ++ (r.overridden ps data).data.map (fun e => (e.1, dataText e.2)) ++ []) := rfl
  rw [h, List.nil_append, List.append_nil]
  rfl

theorem entries_overridden (r : MapRecipe) (ps : List (String × String)) (data : Entries Tree) :
    (r.overridden ps data).entries (Entries.mapValues dataText (r.overridden ps data).data) =
      Entries.insertAll (r.entries ps) (Entries.mapValues (generatedValue r.kind) data) := by
  have hentries : (r.overridden ps data).entries
      (Entries.mapValues dataText (r.overridden ps data).data) =
      Entries.mapValues (generatedValue r.kind) (r.overridden ps data).data := by
    rw [entries, Entries.mapValues, Entries.mapValues, List.map_map]
    rfl
  have hps : Entries.mapValues (generatedValue r.kind) (ps.map fun p => (p.1, .text p.2)) =
      r.entries ps := by
    rw [entries, Entries.mapValues, List.map_map]
    rfl
  rw [hentries, overridden, Entries.mapValues_insertAll, hps]

theorem ValidPairs.overridden (h : ValidPairs ps) (r : MapRecipe)
    (keys : ∀ e ∈ data, Validity.keyFault? e.1 = none) :
    ValidPairs (Entries.mapValues dataText (r.overridden ps data).data) := by
  have hmap : Entries.keys (ps.map fun p => (p.1, Tree.text p.2)) = ps.map Prod.fst := by
    simp [Entries.keys]
  refine ⟨fun p hp => ?_, ?_⟩
  · have hkey : p.1 ∈ (r.overridden ps data).data.keys := by
      rw [← Entries.keys_mapValues dataText]
      exact List.mem_map_of_mem hp
    rw [MapRecipe.overridden, Entries.mem_keys_insertAll, hmap] at hkey
    rcases hkey with hkey | hkey
    · obtain ⟨p', hp', heq⟩ := List.mem_map.1 hkey
      exact heq ▸ h.keys p' hp'
    · obtain ⟨e, he, heq⟩ := List.mem_map.1 hkey
      exact heq ▸ keys e he
  · have hdistinct : Entries.Distinct (r.overridden ps data).data :=
      Entries.distinct_insertAll (by rw [Entries.Distinct, hmap]; exact h.distinct)
    rwa [Entries.Distinct, ← Entries.keys_mapValues dataText] at hdistinct

theorem exists_generate_overridden (w : Workspace) (r : MapRecipe) (h : ValidPairs ps)
    (keys : ∀ e ∈ data, Validity.keyFault? e.1 = none) :
    ∃ g, (r.overridden ps data).generate w = .ok g ∧
      g.tree = r.tree (r.hashedName r.name (Entries.insertAll (r.entries ps)
        (Entries.mapValues (generatedValue r.kind) data)))
        (Entries.insertAll (r.entries ps) (Entries.mapValues (generatedValue r.kind) data)) := by
  refine ⟨_, (generate_eq_ok rfl).2 ⟨_, pairs_overridden w r ps data, h.overridden r keys, rfl⟩, ?_⟩
  rw [tree_rename_of_tree (tree_assemble _ _), entries_overridden]
  rfl

end MapRecipe

namespace LayeredMap

variable {w w' : Workspace} {m : LayeredMap} {r : MapRecipe} {s s' : Store} {d : Document}

theorem mergedValue_eq_generatedValue {k : MapKind} {t : Tree} :
    mergedValue k t = MapRecipe.generatedValue k t ↔ ∃ text, t = .text text := by
  cases t <;> simp [mergedValue, MapRecipe.generatedValue]
  rfl

def mergedData (m : LayeredMap) (data : Entries Tree) : Entries Tree :=
  Entries.insertAll data (Entries.mapValues (mergedValue m.recipe.kind) m.recipe.data)

theorem appendData_of_tree {name : String} {data : Entries Tree} (h : d.tree = r.tree name data) :
    m.appendData d = .ok ⟨r.tree name (m.mergedData data), d.previous⟩ := by
  rw [appendData, h, MapRecipe.tree, MapRecipe.tree, MapRecipe.typeEntry]
  cases r.kind <;> rfl

theorem contentName_of_tree {name : String} {data : Entries Tree} (h : d.tree = r.tree name data)
    (first : d.firstId.name = r.name) : contentName d = .ok (r.hashedName r.name data) := by
  rw [contentName, first, MapRecipe.suffixed_of_tree (MapRecipe.tree_setName_of_tree h r.name)]

section Generated

variable {ps : List (String × String)} {before after : List Document}

theorem find?_generated (generated : r.generate w = .ok d) (kind : m.recipe.kind = r.kind)
    (name : m.recipe.name = r.name) (hs : s.documents = before ++ d :: after)
    (alone : ∀ e ∈ before ++ after, e.kind = r.kind.name → e.hasName r.name = false) :
    s.find? m.recipe.kind.name m.recipe.name = some d := by
  obtain ⟨_, _, _, _, htree, hfirst⟩ := MapRecipe.tree_of_generate generated
  have hname := d.hasName_firstId
  rw [hfirst] at hname
  rw [kind, name, Store.find?, List.find?_eq_some_iff_append]
  refine ⟨by simp [MapRecipe.kind_of_tree htree, hname], before, after, hs, fun e he => ?_⟩
  by_cases hk : e.kind = r.kind.name
  · simp [alone e (List.mem_append_left _ he) hk]
  · simp [hk]

theorem transform_generated (hps : r.pairs w = .ok ps) (generated : r.generate w = .ok d)
    (kind : m.recipe.kind = r.kind) (name : m.recipe.name = r.name)
    (hashed : m.recipe.plainName = false) (hs : s.documents = before ++ d :: after)
    (distinct : s.ids.Nodup)
    (alone : ∀ e ∈ before ++ after, e.kind = r.kind.name → e.hasName r.name = false)
    (h : m.transform w' s = .ok s') :
    ∃ merged, merged.previous = d.previous ++ [d.id] ∧
      merged.tree = r.tree (r.hashedName r.name (m.mergedData (r.entries ps)))
        (m.mergedData (r.entries ps)) ∧
      (before ++ after ++ [merged]).map (repaired m.rules (mergeRenames d merged.name)) =
        s'.documents.map .ok := by
  obtain ⟨ps', x, hps', hvalid, htree, hfirst⟩ := MapRecipe.tree_of_generate generated
  obtain rfl := Except.ok.inj (hps.symm.trans hps')
  rw [transform, find?_generated generated kind name hs alone] at h
  obtain ⟨merged, new, k, hmerged, hnew, -, hrepair⟩ :=
    mergeInto_eq_ok hashed (Store.around_of_nodup hs distinct) h
  have hsame := sameIdentity_appendData hmerged
  rw [appendData_of_tree htree] at hmerged
  have hmtree : merged.tree = r.tree x (m.mergedData (r.entries ps)) :=
    (congrArg Document.tree (Except.ok.inj hmerged)).symm
  rw [contentName_of_tree hmtree (by rw [hsame.firstId_eq, hfirst])] at hnew
  obtain rfl := Except.ok.inj hnew
  have htree' := MapRecipe.tree_rename_of_tree hmtree
    (r.hashedName r.name (m.mergedData (r.entries ps)))
  refine ⟨merged.rename _, ?_, htree', ?_⟩
  · rw [Document.previous_rename, hsame.previous, hsame.id_eq]
  · rw [MapRecipe.name_of_tree htree']
    exact repair_eq_ok.1 ⟨k, hrepair⟩

theorem exists_transform_generated (generated : r.generate w = .ok d)
    (kind : m.recipe.kind = r.kind) (name : m.recipe.name = r.name)
    (hashed : m.recipe.plainName = false) (builtin : m.rules = .builtin)
    (hs : s.documents = before ++ d :: after)
    (others : ∀ e ∈ before ++ after, e.kind ≠ r.kind.name ∧ Walkable e) :
    ∃ s', m.transform w' s = .ok s' := by
  obtain ⟨ps, x, hps, -, htree, hfirst⟩ := MapRecipe.tree_of_generate generated
  have hkind := MapRecipe.kind_of_tree htree
  have hid : ∀ e ∈ before ++ after, ∀ name, e.id ≠ d.id.withName name := fun e he name heq => by
    refine (others e he).1 ?_
    rw [← hkind, ← Document.kind_type, ← Document.kind_type]
    exact congrArg (fun id => id.type.kind) heq
  have hmerged := appendData_of_tree (m := m) htree
  have hname := contentName_of_tree (d := ⟨r.tree x (m.mergedData (r.entries ps)), d.previous⟩) rfl
    (by rw [(sameIdentity_appendData hmerged).firstId_eq, hfirst])
  have hwalk : ∀ e ∈ before ++ after ++ [(Document.mk (r.tree x (m.mergedData (r.entries ps)))
      d.previous).rename (r.hashedName r.name (m.mergedData (r.entries ps)))], Walkable e := by
    intro e he
    rcases List.mem_append.1 he with he | he
    · exact (others e he).2
    · rw [List.mem_singleton.1 he]
      exact walkable_map r.kind (by rw [Document.kind_rename]; exact MapRecipe.kind_of_tree rfl)
  obtain ⟨s', k, hs'⟩ :=
    exists_repair hwalk (mergeRenames d (r.hashedName r.name (m.mergedData (r.entries ps))))
  have around : s.Around d.id before d after :=
    ⟨hs, rfl, fun e he => hid e (List.mem_append_left _ he) d.id.name⟩
  refine ⟨s', ?_⟩
  rw [transform, find?_generated generated kind name hs fun e he hk => absurd hk (others e he).1]
  refine mergeInto_of_repair hashed around (MapRecipe.hasMetadata_of_tree htree) hmerged hname ?_
    (builtin ▸ hs')
  intro hmem
  obtain ⟨e, he, heq⟩ := List.mem_map.1 hmem
  exact hid e he _ heq

theorem mergedData_eq_generated (kind : m.recipe.kind = r.kind)
    (once : Entries.Distinct m.recipe.data) :
    m.mergedData (r.entries ps) = Entries.insertAll (r.entries ps)
      (Entries.mapValues (MapRecipe.generatedValue r.kind) m.recipe.data) ↔
      ∀ e ∈ m.recipe.data, ∃ text, e.2 = .text text := by
  rw [mergedData, kind, Entries.insertAll_mapValues_inj once]
  exact forall₂_congr fun _ _ => mergedValue_eq_generatedValue

/-- Merging makes the document that the generator makes of all the data, if the layer holds only
texts.  If it holds anything else, the data differs. -/
theorem merged_eq_generated (hps : r.pairs w = .ok ps) (generated : r.generate w = .ok d)
    (kind : m.recipe.kind = r.kind) (name : m.recipe.name = r.name)
    (hashed : m.recipe.plainName = false)
    (keys : ∀ e ∈ m.recipe.data, Validity.keyFault? e.1 = none)
    (once : Entries.Distinct m.recipe.data) (hs : s.documents = before ++ d :: after)
    (distinct : s.ids.Nodup)
    (alone : ∀ e ∈ before ++ after, e.kind = r.kind.name → e.hasName r.name = false)
    (h : m.transform w' s = .ok s') :
    ∃ g merged, (r.overridden ps m.recipe.data).generate w = .ok g ∧
      (before ++ after ++ [merged]).map (repaired m.rules (mergeRenames d merged.name)) =
        s'.documents.map .ok ∧
      merged.previous = d.previous ++ [d.id] ∧
      (merged.tree.field? "data" = g.tree.field? "data" ↔
        ∀ e ∈ m.recipe.data, ∃ text, e.2 = .text text) ∧
      ((∀ e ∈ m.recipe.data, ∃ text, e.2 = .text text) →
        merged.name = g.name ∧ merged.tree = g.tree) ∧
      ((∀ rule ∈ m.rules.names, ∀ spec ∈ rule.fields, spec.appliesTo r.kind.type = false) →
        s'.documents.getLast? = some merged) := by
  obtain ⟨merged, hprevious, htree, hall⟩ :=
    transform_generated hps generated kind name hashed hs distinct alone h
  obtain ⟨_, _, hps', hvalid, -⟩ := MapRecipe.tree_of_generate generated
  obtain rfl := Except.ok.inj (hps.symm.trans hps')
  obtain ⟨g, hg, hgtree⟩ := MapRecipe.exists_generate_overridden w r hvalid keys
  have hdata := @mergedData_eq_generated m r ps kind once
  refine ⟨g, merged, hg, hall, hprevious, ?_, fun htexts => ?_, fun untouched => ?_⟩
  · rw [MapRecipe.data_of_tree htree, MapRecipe.data_of_tree hgtree, Option.some.injEq,
      Tree.map.injEq, hdata]
  · have heq : merged.tree = g.tree := by rw [htree, hgtree, hdata.2 htexts]
    exact ⟨by rw [Document.name, Document.name, Document.metadata?, Document.metadata?, heq], heq⟩
  · rw [← MapRecipe.type_of_tree htree] at untouched
    exact getLast?_of_repaired untouched hall

end Generated

def settings : MapRecipe where
  kind := .configMap
  name := "settings"
  literals := ["a=1"]

def addingLayer (value : Tree) : LayeredMap where
  recipe := { kind := .configMap, name := "settings", data := [("b", value)] }
  rules := .builtin

theorem generate_settings (w : Workspace) : ∃ d, settings.generate w = .ok d :=
  ⟨_, (MapRecipe.generate_eq_ok rfl).2
    ⟨[("a", "1")], rfl, ⟨by decide, by decide⟩, rfl⟩⟩

theorem kind_of_settings {w : Workspace} {d : Document} (h : settings.generate w = .ok d) :
    d.kind = "ConfigMap" := by
  obtain ⟨_, _, _, _, htree, _⟩ := MapRecipe.tree_of_generate h
  exact MapRecipe.kind_of_tree htree

theorem merged_eq_generated_text :
    ∃ d g merged s', settings.generate ⟨".", {}, []⟩ = .ok d ∧
      (settings.overridden [("a", "1")] [("b", .text "2")]).generate ⟨".", {}, []⟩ = .ok g ∧
      (addingLayer (.text "2")).transform ⟨".", {}, []⟩ ⟨[podWithVolume "settings", d]⟩ = .ok s' ∧
      s'.documents.getLast? = some merged ∧ merged.tree = g.tree := by
  obtain ⟨d, hd⟩ := generate_settings ⟨".", {}, []⟩
  have others : ∀ e ∈ [podWithVolume "settings"] ++ [], e.kind ≠ settings.kind.name ∧ Walkable e :=
    List.forall_mem_singleton.2 ⟨by decide +kernel, walkable_podWithVolume⟩
  have distinct : (Store.mk [podWithVolume "settings", d]).ids.Nodup := by
    refine Store.nodup_ids_pair ?_
    rw [kind_of_settings hd]
    decide +kernel
  obtain ⟨s', hs'⟩ : ∃ s', (addingLayer (.text "2")).transform ⟨".", {}, []⟩
      ⟨[podWithVolume "settings", d]⟩ = .ok s' :=
    exists_transform_generated hd rfl rfl rfl rfl rfl others
  obtain ⟨g, merged, hg, -, -, -, htree, hlast⟩ :=
    @merged_eq_generated _ _ (addingLayer (.text "2")) settings ⟨[podWithVolume "settings", d]⟩ s' d
      [("a", "1")] [podWithVolume "settings"] [] rfl hd rfl rfl rfl (by decide +kernel)
      (List.nodup_singleton _) rfl distinct (fun e he hk => absurd hk (others e he).1) hs'
  exact ⟨d, g, merged, s', hd, hg, hs', hlast (by decide +kernel),
    (htree (by simp [addingLayer])).2⟩

/-- An integer stays an integer in a merge, where the generator writes its text. -/
theorem not_merged_eq_generated_in_general :
    ¬ ∀ (w w' : Workspace) (m : LayeredMap) (r : MapRecipe) (s s' : Store) (d : Document)
      (ps : List (String × String)) (before after : List Document), r.pairs w = .ok ps →
      r.generate w = .ok d → m.recipe.kind = r.kind → m.recipe.name = r.name →
      m.recipe.plainName = false → (∀ e ∈ m.recipe.data, Validity.keyFault? e.1 = none) →
      Entries.Distinct m.recipe.data → s.documents = before ++ d :: after → s.ids.Nodup →
      (∀ e ∈ before ++ after, e.kind = r.kind.name → e.hasName r.name = false) →
      m.transform w' s = .ok s' → ∃ g merged, (r.overridden ps m.recipe.data).generate w = .ok g ∧
        s'.documents.getLast? = some merged ∧
        merged.tree.field? "data" = g.tree.field? "data" := by
  intro h
  obtain ⟨d, hd⟩ := generate_settings ⟨".", {}, []⟩
  obtain ⟨s', hs'⟩ : ∃ s', (addingLayer (.integer 5)).transform ⟨".", {}, []⟩ ⟨[d]⟩ = .ok s' :=
    @exists_transform_generated _ _ (addingLayer (.integer 5)) settings ⟨[d]⟩ d [] [] hd rfl rfl rfl
      rfl rfl nofun
  obtain ⟨g, last, hg, hlast, hdata⟩ := h ⟨".", {}, []⟩ ⟨".", {}, []⟩ (addingLayer (.integer 5))
    settings ⟨[d]⟩ s' d [("a", "1")] [] [] rfl hd rfl rfl rfl (by decide +kernel)
    (List.nodup_singleton _) rfl (List.nodup_singleton _) nofun hs'
  obtain ⟨merged, -, htree, hall⟩ := @transform_generated _ _ (addingLayer (.integer 5)) settings
    ⟨[d]⟩ s' d [("a", "1")] [] [] rfl hd rfl rfl rfl rfl (List.nodup_singleton _) nofun hs'
  obtain ⟨g', hg', hgtree⟩ := @MapRecipe.exists_generate_overridden [("a", "1")] [("b", .integer 5)]
    ⟨".", {}, []⟩ settings ⟨by decide +kernel, by decide +kernel⟩ (by decide +kernel)
  obtain rfl := Except.ok.inj (hg.symm.trans hg')
  have htype := MapRecipe.type_of_tree htree
  have hlast' : s'.documents.getLast? = some merged :=
    getLast?_of_repaired (by rw [htype]; decide +kernel) hall
  obtain rfl := Option.some.inj (hlast.symm.trans hlast')
  rw [MapRecipe.data_of_tree htree, MapRecipe.data_of_tree hgtree, Option.some.injEq,
    Tree.map.injEq] at hdata
  obtain ⟨text, htext⟩ := (@mergedData_eq_generated (addingLayer (.integer 5)) settings _ rfl
    (List.nodup_singleton _)).1 hdata ("b", .integer 5) List.mem_cons_self
  cases htext

end LayeredMap

end Manifest
