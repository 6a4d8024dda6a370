import Manifest.Proofs.Plugin.LayeredMap

namespace Manifest.LayeredMap

open Reference

variable {w : Workspace} {m : LayeredMap} {s s' : Store}

/-- The recipe makes the map of the layer in another place: under the prefixed name, of the same
type, and from the same pairs in any order. -/
structure Counterpart (w w' : Workspace) (m : LayeredMap) (r : MapRecipe) : Prop where
  kind : r.kind = m.recipe.kind
  name : r.name = m.namePrefix ++ m.recipe.name
  hashed : r.plainName = false
  type : r.kind = .secret → r.secretType.getD "Opaque" = m.recipe.secretType.getD "Opaque"
  pairs : ∃ ps ps', m.recipe.pairs w = .ok ps ∧ r.pairs w' = .ok ps' ∧ ∀ p, p ∈ ps' ↔ p ∈ ps

namespace Counterpart

variable {w' : Workspace} {r : MapRecipe} (c : Counterpart w w' m r)

include c

theorem typeEntry : r.typeEntry = m.recipe.typeEntry := by
  rw [MapRecipe.typeEntry, MapRecipe.typeEntry, ← c.kind]
  cases hk : r.kind with
  | configMap => rfl
  | secret => rw [c.type hk]

theorem hashedName {ps ps' : List (String × String)} (valid : MapRecipe.ValidPairs ps)
    (valid' : MapRecipe.ValidPairs ps') (same : ∀ p, p ∈ ps' ↔ p ∈ ps) :
    r.hashedName r.name (r.entries ps') =
      m.recipe.hashedName (m.namePrefix ++ m.recipe.name) (m.recipe.entries ps) := by
  have perm : ps'.Perm ps :=
    (List.perm_ext_iff_of_nodup (valid'.distinct.of_map _) (valid.distinct.of_map _)).2 same
  have hentries : r.entries ps = m.recipe.entries ps := by
    rw [MapRecipe.entries, MapRecipe.entries, c.kind]
  rw [c.name, ← hentries]
  refine MapRecipe.hashedName_congr c.kind c.typeEntry _ ?_ (perm.map _)
  rw [Entries.Distinct, Entries.keys, MapRecipe.entries, List.map_map]
  exact valid'.distinct

end Counterpart

/-- A layer that misses its map makes the references to it hold one name, and every recipe for the
map of the layer generates a document of that name. -/
theorem anticipated_name_generated (hashed : m.recipe.plainName = false)
    (assumed : m.assumeTarget = true) (builtin : m.rules = .builtin)
    (absent : s.find? m.recipe.kind.name m.recipe.name = none) (h : m.transform w s = .ok s') :
    ∃ name, (∃ k, repair .builtin (m.anticipated s name) s = .ok (s', k)) ∧
      (m.recipe.name ≠ "" → ∀ rule ∈ Rules.builtin.names, ∀ (i : Nat) d q,
        s.documents[i]? = some d → rule.Reaches d (m.start s) → rule.FieldHolds d q m.recipe.name →
        ∃ d', s'.documents[i]? = some d' ∧ rule.FieldHolds d' q name) ∧
      ∀ w' r, Counterpart w w' m r → (∀ d, r.generate w' = .ok d → d.name = name) ∧
        ∀ ps', r.pairs w' = .ok ps' → (ps'.map Prod.fst).Nodup → ∃ d, r.generate w' = .ok d := by
  rw [transform, absent, assumed, hashed] at h
  obtain ⟨ps, hps, hvalid, k, hrepair⟩ := repair_of_anticipate builtin h
  refine ⟨_, ⟨k, hrepair⟩, fun hne rule hrule i d q hd hreach hold => ?_, fun w' r c => ⟨?_, ?_⟩⟩
  · obtain ⟨d', hd', hrep⟩ := repaired_getElem? hrepair hd
    exact ⟨d', hd', hold.repaired_of_renamed hrule hrep hne
      ⟨_, m.start_mem_anticipated s _, hreach, rfl⟩ fun r hr _ _ => new_of_mem_anticipated hr⟩
  · intro d hd
    obtain ⟨ps₀, ps', hps₀, hps', hsame⟩ := c.pairs
    obtain ⟨ps'', hps'', hvalid', rfl⟩ := (MapRecipe.generate_eq_ok c.hashed).1 hd
    obtain rfl := Except.ok.inj (hps.symm.trans hps₀)
    obtain rfl := Except.ok.inj (hps'.symm.trans hps'')
    rw [(MapRecipe.hasMetadata_of_tree (r.tree_assemble _)).name_rename]
    exact c.hashedName hvalid hvalid' hsame
  · intro ps'' hps'' hdistinct
    obtain ⟨ps₀, ps', hps₀, hps', hsame⟩ := c.pairs
    obtain rfl := Except.ok.inj (hps.symm.trans hps₀)
    obtain rfl := Except.ok.inj (hps'.symm.trans hps'')
    have hvalid' : MapRecipe.ValidPairs ps' :=
      ⟨fun p hp => hvalid.keys p ((hsame p).1 hp), hdistinct⟩
    exact ⟨_, (MapRecipe.generate_eq_ok c.hashed).2 ⟨ps', hps', hvalid', rfl⟩⟩

def settingsLayer : LayeredMap where
  recipe :=
    { kind := .configMap, name := "settings", data := [("a", .text "1"), ("b", .integer 2)] }
  namePrefix := "app-"
  rules := .builtin

def appSettings : MapRecipe where
  kind := .configMap
  name := "app-settings"
  ns := "prod"
  literals := ["b=2", "a=1"]

theorem settingsLayer_counterpart (w w' : Workspace) :
    Counterpart w w' settingsLayer appSettings where
  kind := rfl
  name := by decide
  hashed := rfl
  type := nofun
  pairs := ⟨[("a", "1"), ("b", "2")], [("b", "2"), ("a", "1")], rfl, rfl, by simp [or_comm]⟩

theorem anticipated_name_generated_settings :
    ∃ s' d d', settingsLayer.transform ⟨".", {}, []⟩ ⟨[podWithVolume "settings"]⟩ = .ok s' ∧
      s'.documents[0]? = some d' ∧ appSettings.generate ⟨"prod", {}, []⟩ = .ok d ∧
      configMapRule.FieldHolds d' volumeName d.name := by
  have absent : Store.find? settingsLayer.recipe.kind.name settingsLayer.recipe.name
      ⟨[podWithVolume "settings"]⟩ = none := by decide +kernel
  have valid : MapRecipe.ValidPairs [("a", "1"), ("b", "2")] :=
    ⟨by decide +kernel, by decide +kernel⟩
  obtain ⟨s', k, hrepair⟩ := exists_repair (List.forall_mem_singleton.2 walkable_podWithVolume)
    (settingsLayer.anticipated ⟨[podWithVolume "settings"]⟩ (settingsLayer.recipe.hashedName
      (settingsLayer.namePrefix ++ settingsLayer.recipe.name)
      (settingsLayer.recipe.entries [("a", "1"), ("b", "2")])))
  have free : ∀ name, (settingsLayer.start ⟨[podWithVolume "settings"]⟩).withName name ∉
      (Store.mk [podWithVolume "settings"]).ids := by
    intro name hmem
    have hkind : "ConfigMap" = (podWithVolume "settings").id.type.kind :=
      congrArg (fun id => id.type.kind) (List.mem_singleton.1 hmem)
    exact absurd hkind (by decide +kernel)
  have h : settingsLayer.transform ⟨".", {}, []⟩ ⟨[podWithVolume "settings"]⟩ = .ok s' := by
    rw [transform, absent]
    exact anticipate_of_repair rfl rfl valid ⟨free _, free _, free _⟩ hrepair
  obtain ⟨name, -, hrefs, hgen⟩ := anticipated_name_generated rfl rfl rfl absent h
  obtain ⟨hname, hsome⟩ := hgen ⟨"prod", {}, []⟩ appSettings (settingsLayer_counterpart _ _)
  obtain ⟨d, hd⟩ := hsome _ rfl (by decide +kernel)
  obtain ⟨d', hd', hold⟩ := hrefs (by decide +kernel) configMapRule configMapRule_mem 0 _ volumeName
    rfl (by decide +kernel) (fieldHolds_podWithVolume _)
  exact ⟨s', d, d', h, hd', hd, hname d hd ▸ hold⟩

end Manifest.LayeredMap
