import Manifest.Proofs.Plugin.LayeredMap

namespace Manifest.LayeredMap

open Reference

variable {w : Workspace} {m : LayeredMap} {s s' : Store}

def Absent (m : LayeredMap) (s : Store) : Prop :=
  ∀ d ∈ s.documents, d.kind = m.recipe.kind.name → d.hasName m.recipe.name = false

instance (m : LayeredMap) (s : Store) : Decidable (m.Absent s) :=
  inferInstanceAs (Decidable (∀ _ ∈ _, _ = _ → _ = _))

theorem find?_eq_none_iff_absent :
    s.find? m.recipe.kind.name m.recipe.name = none ↔ m.Absent s := by
  simp [Store.find?, Absent]

theorem Absent.start_not_mem (absent : m.Absent s) : m.start s ∉ s.ids := by
  intro hmem
  obtain ⟨d, hd, hid⟩ := List.mem_map.1 hmem
  have hkind : d.kind = m.recipe.kind.name := by
    rw [← Document.kind_type]
    exact congrArg (fun id => id.type.kind) hid
  have hname : d.name = m.recipe.name := congrArg Identity.name hid
  have hhas := absent d hd hkind
  rw [Document.hasName, hname] at hhas
  simp at hhas

theorem transform_of_absent (hashed : m.recipe.plainName = false) (assumed : m.assumeTarget = true)
    (absent : m.Absent s) : m.transform w s = m.anticipate w s := by
  rw [transform, find?_eq_none_iff_absent.2 absent, assumed, hashed]
  rfl

theorem id_of_build {scaffold : Document} (built : (m.adoptNamespace s).build w = .ok scaffold) :
    scaffold.id = m.start s := by
  obtain ⟨ps, -, -, rfl⟩ := MapRecipe.build_eq_ok.1 built
  rw [MapRecipe.id_of_tree (MapRecipe.tree_assemble _ _), start, kind_adoptNamespace,
    name_adoptNamespace]

theorem suffixed_of_build {scaffold : Document}
    (built : (m.adoptNamespace s).build w = .ok scaffold) :
    ∃ ps, m.recipe.pairs w = .ok ps ∧ MapRecipe.ValidPairs ps ∧
      ContentName.suffixed [] scaffold =
        .ok (m.recipe.hashedName m.recipe.name (m.recipe.entries ps)) ∧
      ∀ name, ContentName.suffixed [] (scaffold.setName name) =
        .ok (m.recipe.hashedName name (m.recipe.entries ps)) := by
  obtain ⟨ps, hps, hvalid, rfl⟩ := MapRecipe.build_eq_ok.1 built
  have htree := (m.adoptNamespace s).tree_assemble ((m.adoptNamespace s).entries ps)
  rw [pairs_adoptNamespace] at hps
  refine ⟨ps, hps, hvalid, ?_, fun name => ?_⟩
  · rw [MapRecipe.suffixed_of_tree htree, hashedName_adoptNamespace, entries_adoptNamespace,
      name_adoptNamespace]
  · rw [MapRecipe.suffixed_of_tree (MapRecipe.tree_setName_of_tree htree name),
      hashedName_adoptNamespace, entries_adoptNamespace]

/-- A layer that misses its map ends in the repair of the store, which never holds the scaffold. -/
theorem scaffold_leaves_no_trace (hashed : m.recipe.plainName = false)
    (assumed : m.assumeTarget = true) (builtin : m.rules = .builtin) (absent : m.Absent s)
    (h : m.transform w s = .ok s') :
    ∃ scaffold name k, (m.adoptNamespace s).build w = .ok scaffold ∧
      ContentName.suffixed [] (scaffold.setName (m.namePrefix ++ m.recipe.name)) = .ok name ∧
      repair .builtin (m.anticipated s name) s = .ok (s', k) ∧ s'.ids = s.ids ∧
      s'.documents.map Document.previous = s.documents.map Document.previous := by
  rw [transform_of_absent hashed assumed absent] at h
  obtain ⟨ps, hps, hvalid, k, hrepair⟩ := repair_of_anticipate builtin h
  have built : (m.adoptNamespace s).build w =
      .ok ((m.adoptNamespace s).assemble ((m.adoptNamespace s).entries ps)) :=
    MapRecipe.build_eq_ok.2 ⟨ps, by rwa [pairs_adoptNamespace], hvalid, rfl⟩
  obtain ⟨ps', hps', -, -, hnamed⟩ := suffixed_of_build built
  obtain rfl := Except.ok.inj (hps.symm.trans hps')
  have hrepaired := repair_eq_ok.1 ⟨k, hrepair⟩
  exact ⟨_, _, k, built, hnamed _, hrepair,
    map_of_repaired hrepaired fun _ _ => Document.SameIdentity.id_eq,
    map_of_repaired hrepaired fun _ _ => Document.SameIdentity.previous⟩

theorem exists_transform_of_absent {scaffold : Document} {name : String}
    (hashed : m.recipe.plainName = false) (assumed : m.assumeTarget = true)
    (builtin : m.rules = .builtin) (absent : m.Absent s)
    (built : (m.adoptNamespace s).build w = .ok scaffold)
    (named : ContentName.suffixed [] (scaffold.setName (m.namePrefix ++ m.recipe.name)) = .ok name)
    (free : ∀ name' ∈ [m.namePrefix ++ m.recipe.name, name], (m.start s).withName name' ∉ s.ids)
    (walkable : ∀ d ∈ s.documents, Walkable d) : ∃ s', m.transform w s = .ok s' := by
  obtain ⟨ps, hps, hvalid, -, hnamed⟩ := suffixed_of_build built
  obtain rfl := Except.ok.inj ((hnamed _).symm.trans named)
  obtain ⟨s', k, hrepair⟩ := exists_repair walkable (m.anticipated s
    (m.recipe.hashedName (m.namePrefix ++ m.recipe.name) (m.recipe.entries ps)))
  refine ⟨s', (transform_of_absent hashed assumed absent).trans ?_⟩
  exact anticipate_of_repair builtin hps hvalid
    ⟨absent.start_not_mem, free _ (by simp), free _ (by simp)⟩ hrepair

def prefixingLayer (text : String) : LayeredMap where
  recipe :=
    { kind := .configMap, name := "settings", data := [("a", .text "1"), ("b", .integer 2)] }
  namePrefix := text
  rules := .builtin

def secretAndPod : Store := ⟨[.skeleton MapKind.secret.type "settings", podWithVolume "settings"]⟩

theorem walkable_secretAndPod : ∀ d ∈ secretAndPod.documents, Walkable d :=
  List.forall_mem_cons.2
    ⟨walkable_map .secret rfl, List.forall_mem_singleton.2 walkable_podWithVolume⟩

theorem configMap_not_mem_secretAndPod (ns name : String) :
    ⟨MapKind.configMap.type, ns, name⟩ ∉ secretAndPod.ids := by
  have hkinds : MapKind.configMap.name ∉ secretAndPod.ids.map (·.type.kind) := by decide
  exact fun hmem => hkinds (List.mem_map_of_mem (f := fun id : Identity => id.type.kind) hmem)

theorem exists_build_prefixingLayer (text : String) (w : Workspace) (s : Store) :
    ∃ scaffold, ((prefixingLayer text).adoptNamespace s).build w = .ok scaffold :=
  ⟨_, MapRecipe.build_eq_ok.2 ⟨[("a", "1"), ("b", "2")], (pairs_adoptNamespace _ _ _).trans rfl,
    ⟨by decide, by decide⟩, rfl⟩⟩

theorem scaffold_leaves_no_trace_beside_secret :
    ∃ s' name k, (prefixingLayer "app-").transform ⟨".", {}, []⟩ secretAndPod = .ok s' ∧
      repair .builtin [⟨⟨MapKind.configMap.type, "", "settings"⟩, name⟩,
        ⟨⟨MapKind.configMap.type, "", "app-settings"⟩, name⟩] secretAndPod = .ok (s', k) ∧
      s'.ids = secretAndPod.ids := by
  have absent : (prefixingLayer "app-").Absent secretAndPod := by decide +kernel
  obtain ⟨scaffold, built⟩ := exists_build_prefixingLayer "app-" ⟨".", {}, []⟩ secretAndPod
  obtain ⟨ps, -, -, -, hnamed⟩ := suffixed_of_build built
  obtain ⟨s', hs'⟩ := exists_transform_of_absent rfl rfl rfl absent built (hnamed _)
    (fun _ _ => configMap_not_mem_secretAndPod _ _) walkable_secretAndPod
  obtain ⟨_, name, k, -, -, hrepair, hids, -⟩ := scaffold_leaves_no_trace rfl rfl rfl absent hs'
  exact ⟨s', name, k, hs', hrepair, hids⟩

theorem anticipate_of_taken {scaffold : Document} {name : String}
    (built : (m.adoptNamespace s).build w = .ok scaffold)
    (named : ContentName.suffixed [] (scaffold.setName (m.namePrefix ++ m.recipe.name)) = .ok name)
    (free : ∀ name' ∈ [m.recipe.name, m.namePrefix ++ m.recipe.name],
      (m.start s).withName name' ∉ s.ids)
    (taken : (m.start s).withName name ∈ s.ids) :
    m.anticipate w s = .error (.duplicateIdentity ((m.start s).withName name)) := by
  have hid := id_of_build built
  obtain ⟨ps, -, -, rfl⟩ := MapRecipe.build_eq_ok.1 built
  have htree := (m.adoptNamespace s).tree_assemble ((m.adoptNamespace s).entries ps)
  have hext₁ : (Store.mk (s.documents ++ [_])).Extends s.documents
      ((m.adoptNamespace s).assemble ((m.adoptNamespace s).entries ps)) :=
    ⟨rfl, by rw [hid]; exact free m.recipe.name (by simp)⟩
  obtain ⟨s₂, d, hext₂, hdtree, hprefix⟩ := exists_addPrefix (m := m) hext₁ htree
    (by rw [hid, name_adoptNamespace]; exact free (m.namePrefix ++ m.recipe.name) (by simp))
  have hd : d.id = (m.start s).withName (m.namePrefix ++ m.recipe.name) := by
    rw [MapRecipe.id_of_tree hdtree, start, kind_adoptNamespace, name_adoptNamespace]
    rfl
  have hname : ContentName.suffixed [] d = .ok name := by
    rw [← named, MapRecipe.suffixed_of_tree hdtree,
      MapRecipe.suffixed_of_tree (MapRecipe.tree_setName_of_tree htree _), name_adoptNamespace]
  -- the name is taken by another document, as the current name of the scaffold is free
  have htarget : d.id.withName name ≠ d.id ∧ d.id.withName name ∈ s₂.ids := by
    have htaken : d.id.withName name ∈ s.ids := by rw [hd]; exact taken
    refine ⟨fun heq => ?_, ?_⟩
    · rw [heq, hd] at htaken
      exact free (m.namePrefix ++ m.recipe.name) (by simp) htaken
    · rw [Store.ids, hext₂.documents, List.map_append]
      exact List.mem_append_left _ htaken
  have hrename : s₂.renamed d.id name = .error (.duplicateIdentity (d.id.withName name)) := by
    rw [hext₂.around.renamed_eq, if_pos htarget]
  have happend := Store.appended_eq_ok_iff_extends.2 hext₁
  rw [hid] at hprefix
  simp only [anticipate, built, happend, hid, hprefix, hext₂.around.get?_eq, hname, hrename, bind,
    Except.bind]
  rw [hd]
  rfl

/-- A layer that misses its map, and to whose references the name can be given, succeeds exactly
when no document of the store has the identity that the map will have. -/
theorem transform_absent_eq {scaffold : Document} {name : String} {k : Nat}
    (hashed : m.recipe.plainName = false) (assumed : m.assumeTarget = true)
    (builtin : m.rules = .builtin) (unprefixed : m.namePrefix = "") (absent : m.Absent s)
    (built : (m.adoptNamespace s).build w = .ok scaffold)
    (named : ContentName.suffixed [] scaffold = .ok name)
    (repaired : repair .builtin [⟨scaffold.id, name⟩] s = .ok (s', k)) :
    m.transform w s = if scaffold.id.withName name ∈ s.ids then
      .error (.duplicateIdentity (scaffold.id.withName name)) else .ok s' := by
  have hplain : m.namePrefix ++ m.recipe.name = m.recipe.name := by
    rw [unprefixed, String.empty_append]
  obtain ⟨ps, hps, hvalid, hown, hnamed⟩ := suffixed_of_build built
  obtain rfl := Except.ok.inj (hown.symm.trans named)
  have hstart : (m.start s).withName m.recipe.name ∉ s.ids := absent.start_not_mem
  rw [transform_of_absent hashed assumed absent]
  rw [id_of_build built] at repaired ⊢
  split
  · rename_i htaken
    refine anticipate_of_taken built ?_ ?_ htaken
    · rw [hplain, hnamed]
    · rw [hplain]
      simp [hstart]
  · rename_i hfree
    have hrepair : repair .builtin (m.anticipated s (m.recipe.hashedName
        (m.namePrefix ++ m.recipe.name) (m.recipe.entries ps))) s = .ok (s', k) := by
      rw [hplain, anticipated, if_pos unprefixed]
      exact repaired
    exact anticipate_of_repair builtin hps hvalid
      ⟨hstart, by rwa [hplain], by rwa [hplain]⟩ hrepair

theorem transform_absent_eq_beside_secret :
    ∃ s' name k, repair .builtin [⟨⟨MapKind.configMap.type, "", "settings"⟩, name⟩] secretAndPod =
        .ok (s', k) ∧
      (prefixingLayer "").transform ⟨".", {}, []⟩ secretAndPod = .ok s' := by
  have absent : (prefixingLayer "").Absent secretAndPod := by decide +kernel
  obtain ⟨scaffold, built⟩ := exists_build_prefixingLayer "" ⟨".", {}, []⟩ secretAndPod
  obtain ⟨ps, -, -, hown, -⟩ := suffixed_of_build built
  obtain ⟨s', k, hrepair⟩ := exists_repair walkable_secretAndPod
    [⟨scaffold.id, (prefixingLayer "").recipe.hashedName "settings"
      ((prefixingLayer "").recipe.entries ps)⟩]
  have h := @transform_absent_eq ⟨".", {}, []⟩ (prefixingLayer "") secretAndPod s' scaffold _ k rfl
    rfl rfl rfl absent built hown hrepair
  rw [id_of_build built] at h hrepair
  exact ⟨s', _, k, hrepair, h.trans (if_neg (configMap_not_mem_secretAndPod _ _))⟩

def settingsConfig : Tree :=
  .map [("kind", .text "SuperConfigMap"), ("metadata", .map [("name", .text "settings")]),
    ("data", .map [("a", .text "1"), ("b", .integer 2)])]

def withGenerated (name : String) : Store :=
  ⟨[podWithVolume "settings", .skeleton MapKind.configMap.type name]⟩

theorem id_skeleton (k : MapKind) (name : String) :
    (Document.skeleton k.type name).id = ⟨k.type, "", name⟩ := by
  have hid : (Document.skeleton k.type name).id =
    ⟨.ofApiVersion k.type.apiVersion k.type.kind, "", name⟩ := rfl
  have htype : ResourceType.ofApiVersion k.type.apiVersion k.type.kind = k.type := by
    cases k <;> rfl
  rw [hid, htype]

theorem withGenerated_valid {name : String} (hne : name ≠ "") :
    ∀ d ∈ (withGenerated name).documents, d.Valid := by
  refine List.forall_mem_cons.2 ⟨by decide, List.forall_mem_singleton.2 ?_⟩
  simp [Document.Valid, Document.skeleton, Tree.identityFault?, Tree.identityFault?.nameFault?,
    Entries.find?, Tree.string?, Tree.field?, Tree.entries?, Tree.fieldText, MapKind.type,
    MapKind.name, hne]

theorem walkable_withGenerated (name : String) :
    ∀ d ∈ (withGenerated name).documents, Walkable d :=
  List.forall_mem_cons.2
    ⟨walkable_podWithVolume, List.forall_mem_singleton.2 (walkable_map .configMap rfl)⟩

theorem absent_withGenerated {name : String} (hne : name ≠ "settings") :
    (prefixingLayer "").Absent (withGenerated name) := by
  refine List.forall_mem_cons.2 ⟨fun hkind => absurd hkind (by decide),
    List.forall_mem_singleton.2 fun _ => ?_⟩
  have hname : (Document.skeleton MapKind.configMap.type name).hasName "settings" =
      (decide (name = "settings") || false) := rfl
  exact hname.trans (by simp [hne])

/-- The layer fails where the map is in the store under its hashed name, although all references
to it can be repaired. -/
theorem not_transform_absent_succeeds_in_general :
    ¬ ∀ (w : Workspace) (config : Tree) (m : LayeredMap) (s s' : Store) (scaffold : Document)
      (name : String) (k : Nat), configure w m.recipe.kind config = .ok m →
      m.recipe.plainName = false → m.assumeTarget = true → m.rules = .builtin →
      m.namePrefix = "" → (∀ d ∈ s.documents, d.Valid) → s.ids.Nodup → m.Absent s →
      (m.adoptNamespace s).build w = .ok scaffold →
      ContentName.suffixed [] scaffold = .ok name →
      repair .builtin [⟨scaffold.id, name⟩] s = .ok (s', k) →
      ∃ s'', m.transform w s = .ok s'' := by
  intro h
  have hne := MapRecipe.hashedName_ne (prefixingLayer "").recipe "settings"
    ((prefixingLayer "").recipe.entries [("a", "1"), ("b", "2")])
  have hempty := MapRecipe.hashedName_ne_empty (prefixingLayer "").recipe "settings"
    ((prefixingLayer "").recipe.entries [("a", "1"), ("b", "2")])
  generalize hname : (prefixingLayer "").recipe.hashedName "settings"
    ((prefixingLayer "").recipe.entries [("a", "1"), ("b", "2")]) = name at hne hempty
  have absent := absent_withGenerated hne
  have hkind : (podWithVolume "settings").kind ≠ MapKind.configMap.name := by decide +kernel
  obtain ⟨scaffold, built⟩ :=
    exists_build_prefixingLayer "" ⟨".", {}, []⟩ (withGenerated name)
  obtain ⟨ps, hps, -, hown, hnamed⟩ := suffixed_of_build built
  obtain rfl : [("a", "1"), ("b", "2")] = ps := Except.ok.inj hps
  obtain ⟨s', k, hrepair⟩ := exists_repair (walkable_withGenerated name) [⟨scaffold.id, name⟩]
  obtain ⟨s'', hs''⟩ := h ⟨".", {}, []⟩ settingsConfig (prefixingLayer "") (withGenerated name) s'
    scaffold name k rfl rfl rfl rfl rfl (withGenerated_valid hempty)
    (Store.nodup_ids_pair (d := podWithVolume "settings") hkind) absent built
    (hown.trans (congrArg _ hname)) hrepair
  have hstart := absent.start_not_mem
  have htaken : ((prefixingLayer "").start (withGenerated name)).withName name ∈
      (withGenerated name).ids :=
    List.mem_cons_of_mem _ (List.mem_singleton.2 (id_skeleton .configMap name).symm)
  rw [transform_of_absent rfl rfl absent, anticipate_of_taken built
    ((hnamed _).trans (congrArg _ hname))
    (List.forall_mem_cons.2 ⟨hstart, List.forall_mem_singleton.2 hstart⟩) htaken] at hs''
  cases hs''

end Manifest.LayeredMap
