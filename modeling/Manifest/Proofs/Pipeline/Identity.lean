import Manifest.Proofs.Pipeline
import Manifest.Proofs.Reference.Identity
import Manifest.Proofs.Reference.Integrity

namespace Manifest.Pipeline

open Reference

structure Configured (w : Workspace) (p : Pipeline) : Prop where
  generators : ∀ g ∈ p.generators, ∃ config, configureGenerator w config = .ok g
  transformers : ∀ x ∈ p.transformers, ∃ config, configureTransformer w config = .ok x

variable {w : Workspace} {p : Pipeline} {s s' out : Store}

theorem nodup_ids_of_generateAll {gs : List Generator} (distinct : s.ids.Nodup)
    (h : generateAll w gs s = .ok s') : s'.ids.Nodup := by
  refine foldlM_invariant (P := fun t : Store => t.ids.Nodup)
    (fun t g t' _ ht hstep => ?_) distinct h
  obtain ⟨d, -, happend⟩ := bind_eq_ok.1 hstep
  rw [Store.appendedAll_singleton, Store.appended_eq_ok] at happend
  rw [Store.ids, happend.2, List.map_append, List.map_singleton]
  exact List.nodup_append.2 ⟨ht, List.nodup_singleton _, fun i hi j hj => by
    rintro rfl
    exact happend.1 (List.mem_singleton.1 hj ▸ hi)⟩

theorem nodup_ids_of_step {x : Transformer} (h : step w s x = .ok s') : s'.ids.Nodup := by
  obtain ⟨t, -, h⟩ := bind_eq_ok.1 h
  obtain ⟨_, hunique, h⟩ := bind_eq_ok.1 h
  obtain rfl := pure_eq_ok.1 h
  exact Store.ensureUnique_eq_ok.1 hunique

/-- The documents of a finished run have distinct identities, if there is a transformer or the rules
name no identity. -/
theorem nodup_ids_of_run (distinct : s.ids.Nodup)
    (spares : p.transformers = [] → p.rules.SpareIdentity) (h : p.run w s = .ok out) :
    out.ids.Nodup := by
  obtain ⟨s₁, s₂, k, hgenerate, hrepair, hsteps⟩ := run_eq_ok.1 h
  cases hx : p.transformers with
  | nil =>
    rw [hx] at hsteps
    obtain rfl : s₂ = out := pure_eq_ok.1 hsteps
    rw [ids_repair (spares hx) hrepair]
    exact nodup_ids_of_generateAll distinct hgenerate
  | cons x xs =>
    rw [hx, List.foldlM_cons] at hsteps
    obtain ⟨t, ht, hsteps⟩ := bind_eq_ok.1 hsteps
    exact foldlM_invariant (P := fun t : Store => t.ids.Nodup)
      (fun _ _ _ _ _ hstep => nodup_ids_of_step hstep) (nodup_ids_of_step ht) hsteps

theorem nodup_ids_of_run_settings : ∃ out, { settingsPipeline with transformers := [] }.run
    ⟨".", {}, []⟩ ⟨[podWithVolume "settings"]⟩ = .ok out ∧ out.ids.Nodup := by
  obtain ⟨d, e, -, -, -, hrun⟩ := exists_settings_generated ⟨".", {}, []⟩
  exact ⟨_, hrun, nodup_ids_of_run (by decide +kernel) (fun _ => spareIdentity_builtin) hrun⟩

def ownNameRules : Rules where
  names := [{ type := MapKind.configMap.type, fields := [Rules.spec "ConfigMap" "metadata/name"] }]

def configMapTree (name : String) (rest : Entries Tree) : Tree :=
  .map (("apiVersion", .text "v1") :: ("kind", .text "ConfigMap") ::
    ("metadata", .map [("name", .text name)]) :: rest)

theorem type_configMap : ResourceType.ofApiVersion "v1" "ConfigMap" = MapKind.configMap.type := by
  decide

theorem keyed_ownName : FieldPath.Keyed "metadata/name" ["metadata", "name"] :=
  FieldPath.keyed_slashKeys (by decide) (by decide)

theorem renameAt_ownName (pairs : NamePairs) (name : String) (rest : Entries Tree) :
    renameAt "metadata/name" pairs (configMapTree name rest) =
      .ok (configMapTree ((renameText pairs name).getD name) rest) := by
  refine bind_eq_ok.2 ⟨_, mapError_eq_ok.2 keyed_ownName, bind_eq_ok.2
    ⟨[[.key "metadata", .key "name"]], rfl, ?_⟩⟩
  have hnode : (configMapTree name rest).get? [.key "metadata", .key "name"] =
      some (.text name) := rfl
  rw [List.filterMap_cons, hnode, List.filterMap_nil, List.map_singleton, renamed_text]
  rfl

theorem repaired_ownName {d : Document} {old new name : String} {rest : Entries Tree}
    (htree : d.tree = configMapTree name rest) :
    repaired ownNameRules [⟨⟨MapKind.configMap.type, "", old⟩, new⟩] d = .ok { d with
      tree := configMapTree ((renameText [(old, new)] name).getD name) rest } := by
  have hpairs : pairsByPath ownNameRules [⟨⟨MapKind.configMap.type, "", old⟩, new⟩] d =
      [("metadata/name", [(old, new)])] := by
    have hns : d.ns = "" := by
      rw [Document.ns, Document.metadata?, htree]
      rfl
    have htype : d.type = MapKind.configMap.type := by
      rw [Document.type, Document.apiVersion, Document.kind, htree]
      exact type_configMap
    rw [pairsByPath, hns, htype]
    rfl
  refine repaired_eq_ok.2 ⟨?_, rfl⟩
  rw [hpairs, htree]
  exact bind_eq_ok.2 ⟨_, renameAt_ownName _ _ _, rfl⟩

theorem id_of_configMapTree {d : Document} {name : String} {rest : Entries Tree}
    (htree : d.tree = configMapTree name rest) : d.id = ⟨MapKind.configMap.type, "", name⟩ := by
  obtain ⟨t, previous⟩ := d
  obtain rfl : t = _ := htree
  exact congrArg (Identity.mk · "" name) type_configMap

def settingsGenerator : Tree :=
  .map [("apiVersion", .text "v1"), ("kind", .text "ConfigMapGenerator"),
    ("metadata", .map [("name", .text "settings")]), ("literals", .list [.text "a=1"])]

def collidingPipeline : Pipeline where
  generators := [.map LayeredMap.settings]
  transformers := []
  rules := ownNameRules

theorem run_colliding {d : Document} {new : String} {rest : Entries Tree}
    (generated : LayeredMap.settings.generate w = .ok d) (htree : d.tree = configMapTree new rest)
    (previous : d.previous = [LayeredMap.settings.plainId]) (hne : new ≠ "settings")
    (hold : renameText [("settings", new)] "settings" = some new)
    (hnew : renameText [("settings", new)] new = none) :
    collidingPipeline.run w ⟨[emptyConfigMap "settings"]⟩ =
      .ok ⟨[{ tree := configMapTree new [] }, d]⟩ := by
  have hempty : (emptyConfigMap "settings").tree = configMapTree "settings" [] := by decide
  have hid := id_of_configMapTree htree
  have hfirst : d.firstId = ⟨MapKind.configMap.type, "", "settings"⟩ := by
    rw [Document.firstId, previous]
    rfl
  have happend : (Store.mk [emptyConfigMap "settings"]).appended d =
      .ok ⟨[emptyConfigMap "settings", d]⟩ := by
    refine Store.appended_eq_ok.2 ⟨?_, rfl⟩
    rw [Store.ids, List.map_singleton, List.mem_singleton, id_of_configMapTree hempty, hid]
    exact fun heq => hne (Identity.mk.inj heq).2.2
  have hgenerate : generateAll w collidingPipeline.generators ⟨[emptyConfigMap "settings"]⟩ =
      .ok ⟨[emptyConfigMap "settings", d]⟩ := by
    refine bind_eq_ok.2 ⟨_, bind_eq_ok.2 ⟨d, generated, ?_⟩, rfl⟩
    rw [Store.appendedAll_singleton, happend]
  have hpast : pastRenames ⟨[emptyConfigMap "settings", d]⟩ =
      [⟨⟨MapKind.configMap.type, "", "settings"⟩, new⟩] := by
    have hname : d.name = new := congrArg Identity.name hid
    simp [pastRenames, previous, hfirst, hname, emptyConfigMap, Document.skeleton]
  have hrepairs : (Store.mk [emptyConfigMap "settings", d]).documents.map
      (repaired ownNameRules [⟨⟨MapKind.configMap.type, "", "settings"⟩, new⟩]) =
        [{ tree := configMapTree new [] }, d].map .ok := by
    rw [List.map_cons, List.map_singleton, repaired_ownName hempty, repaired_ownName htree, hold,
      hnew, Option.getD_some, Option.getD_none, ← htree]
    rfl
  obtain ⟨k, hrepair⟩ := (@repair_eq_ok _ _ _ ⟨[{ tree := configMapTree new [] }, d]⟩).2 hrepairs
  exact run_eq_ok.2 ⟨_, _, k, hgenerate, hpast ▸ hrepair, rfl⟩

theorem exists_run_colliding (w : Workspace) : ∃ out,
    collidingPipeline.run w ⟨[emptyConfigMap "settings"]⟩ = .ok out ∧ ¬ out.ids.Nodup := by
  obtain ⟨d, hd⟩ := LayeredMap.generate_settings w
  obtain ⟨data, htree, hprevious⟩ := MapRecipe.hashed_of_generate rfl hd
  have hne := LayeredMap.settings.hashedName_ne LayeredMap.settings.name data
  have hall := LayeredMap.settings.all_hashedName data
    (by decide : LayeredMap.settings.name.toList.all isNameChar = true)
  have hstays : renameText [("settings", LayeredMap.settings.hashedName "settings" data)]
      (LayeredMap.settings.hashedName "settings" data) = none := by
    rw [renameText_eq_none_iff, List.forall_mem_singleton]
    exact fun hstands => hne (String.toList_inj.1 (hstands.eq_of_all hall)).symm
  refine ⟨_, run_colliding hd htree hprevious hne ?_ hstays, fun hnodup => ?_⟩
  · exact renameText_of_mem (by decide) ⟨_, List.mem_singleton_self _, rfl⟩ (by simp)
  · refine (List.nodup_cons.1 hnodup).1 (List.mem_singleton.2 ?_)
    rw [id_of_configMapTree htree, id_of_configMapTree rfl]

theorem not_nodup_ids_of_run_in_general :
    ¬ ∀ (w : Workspace) (p : Pipeline) (s out : Store), s.Valid → s.ids.Nodup →
      p.Configured w → p.run w s = .ok out → out.ids.Nodup := by
  intro h
  obtain ⟨out, hrun, hrepeat⟩ := exists_run_colliding ⟨".", {}, []⟩
  refine hrepeat (h _ _ _ out ?_ (by decide +kernel) ⟨?_, List.forall_mem_nil _⟩ hrun)
  · exact List.forall_mem_singleton.2 (by decide +kernel)
  · exact List.forall_mem_singleton.2 ⟨settingsGenerator, rfl⟩

end Manifest.Pipeline
