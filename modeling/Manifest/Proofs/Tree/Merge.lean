import Manifest.Plugin.SelectivePatch
import Manifest.Proofs.Tree.KeyOrder

namespace Manifest.Tree

variable {p t : Tree} {key : String} {keys : List String}

def mergedValue? (value : Tree) (old : Option Tree) : Option Tree :=
  if value.isNull then none else some (old.elim value (merge value))

def mergeEntry (key : String) (value : Tree) (target : Entries Tree) : Entries Tree :=
  if value.isNull then Entries.erase key target
  else if Entries.has key target then Entries.modify key (merge value) target
  else target ++ [(key, value)]

theorem mergeEntries_cons (key : String) (value : Tree) (patch target : Entries Tree) :
    mergeEntries ((key, value) :: patch) target =
      mergeEntries patch (mergeEntry key value target) := by
  rw [mergeEntries, mergeEntry]

theorem distinct_mergeEntry {target : Entries Tree} (value : Tree)
    (distinct : Entries.Distinct target) : Entries.Distinct (mergeEntry key value target) := by
  rw [mergeEntry]
  split
  · exact Entries.distinct_erase distinct
  · split
    · exact Entries.distinct_modify distinct
    · rename_i hnew
      rw [Entries.has_iff_mem_keys] at hnew
      rw [← Entries.insert_of_not_mem hnew]
      exact Entries.distinct_insert distinct

theorem find?_mergeEntry_of_ne {other : String} (h : key ≠ other) (value : Tree)
    (target : Entries Tree) :
    Entries.find? other (mergeEntry key value target) = Entries.find? other target := by
  rw [mergeEntry]
  split
  · exact Entries.find?_erase_of_ne h target
  · split
    · rw [Entries.find?_modify, if_neg h]
    · simp [Entries.find?_append, Entries.find?_cons, h]

theorem find?_mergeEntry_self {value : Tree} {target : Entries Tree}
    (distinct : value.isNull = true → Entries.Distinct target) :
    Entries.find? key (mergeEntry key value target) =
      mergedValue? value (Entries.find? key target) := by
  rw [mergeEntry, mergedValue?]
  split
  · rename_i hnull
    exact Entries.find?_erase_self (distinct hnull)
  · split
    · rename_i hhas
      obtain ⟨old, hold⟩ := Option.isSome_iff_exists.1 hhas
      rw [Entries.find?_modify, if_pos rfl, hold]
      rfl
    · rename_i hnew
      rw [Entries.has, Option.not_isSome_iff_eq_none] at hnew
      simp [Entries.find?_append, Entries.find?_cons, hnew]

theorem find?_mergeEntries_of_not_mem {patch : Entries Tree} (h : key ∉ patch.keys)
    (target : Entries Tree) :
    Entries.find? key (mergeEntries patch target) = Entries.find? key target := by
  induction patch generalizing target with
  | nil => rfl
  | cons e patch ih =>
    obtain ⟨k, value⟩ := e
    obtain ⟨hk, hpatch⟩ := not_or.1 (mt List.mem_cons.2 h)
    rw [mergeEntries_cons, ih hpatch, find?_mergeEntry_of_ne (Ne.symm hk)]

theorem find?_mergeEntries {value : Tree} {patch : Entries Tree} (target : Entries Tree)
    (distinct : Entries.Distinct patch) (h : Entries.find? key patch = some value)
    (htarget : value.isNull = true → Entries.Distinct target) :
    Entries.find? key (mergeEntries patch target) =
      mergedValue? value (Entries.find? key target) := by
  induction patch generalizing target with
  | nil => cases h
  | cons e patch ih =>
    obtain ⟨k, v⟩ := e
    obtain ⟨hk, hpatch⟩ := List.nodup_cons.1 distinct
    rw [Entries.find?_cons] at h
    rw [mergeEntries_cons]
    split at h
    · rename_i heq
      obtain rfl := Option.some.inj h
      subst heq
      rw [find?_mergeEntries_of_not_mem hk, find?_mergeEntry_self htarget]
    · rename_i hne
      rw [ih _ hpatch h fun hnull => distinct_mergeEntry v (htarget hnull),
        find?_mergeEntry_of_ne hne]

theorem merge_map_map (es ts : Entries Tree) :
    merge (.map es) (.map ts) = .map (mergeEntries es ts) := by
  rw [merge]

theorem merge_map_of_not_map {es : Entries Tree} (h : ∀ ts, t ≠ .map ts) :
    merge (.map es) t = .map es := by
  cases t with
  | map ts => exact absurd rfl (h ts)
  | _ => rw [merge]; nofun

def HasMap (t : Tree) (keys : List String) : Prop := ∃ es, t.get? (.ofKeys keys) = some (.map es)

theorem hasMap_cons_iff {es : Entries Tree} :
    (map es).HasMap (key :: keys) ↔ ∃ u, Entries.find? key es = some u ∧ u.HasMap keys := by
  have hget : (map es).get? (.ofKeys (key :: keys)) =
      (Entries.find? key es).bind fun u => u.get? (.ofKeys keys) := get?_ofKeys_cons key keys _
  simp only [HasMap, hget, Option.bind_eq_some_iff]
  exact ⟨fun ⟨fs, u, hu, hfs⟩ => ⟨u, hu, fs, hfs⟩, fun ⟨u, hu, fs, hfs⟩ => ⟨fs, u, hu, hfs⟩⟩

theorem HasMap.isMap (h : t.HasMap keys) : ∃ es, t = .map es := by
  obtain ⟨fs, hfs⟩ := h
  cases keys with
  | nil => exact ⟨fs, Option.some.inj hfs⟩
  | cons key keys =>
    obtain ⟨es, -, hes, -⟩ := exists_entries_of_get?_ofKeys_cons hfs
    exact ⟨es, hes⟩

theorem get?_merge_cons {value : Tree} {es ts : Entries Tree} (distinct : Entries.Distinct es)
    (h : Entries.find? key es = some value) (hvalue : value.isNull = false) :
    (merge (.map es) (.map ts)).get? (.ofKeys (key :: keys)) =
      ((Entries.find? key ts).elim value (merge value)).get? (.ofKeys keys) := by
  have hfind := find?_mergeEntries ts distinct h fun hnull => by
    rw [hvalue] at hnull
    cases hnull
  rw [mergedValue?, hvalue, if_neg Bool.false_ne_true] at hfind
  rw [merge_map_map, get?_ofKeys_cons]
  exact congrArg (Option.bind · _) hfind

/-- The induction is on the keys before the null.  The patch is taken over, with its nulls, from the
first of them under which the target has no map. -/
theorem get?_merge_of_null (wfp : p.WellFormed) (wft : t.WellFormed)
    (h : p.get? (.ofKeys (keys ++ [key])) = some .null) :
    (t.HasMap keys → (merge p t).get? (.ofKeys (keys ++ [key])) = none) ∧
      (¬ t.HasMap keys → (merge p t).get? (.ofKeys (keys ++ [key])) = some .null) := by
  induction keys generalizing p t with
  | nil =>
    obtain ⟨es, v, rfl, hv, hnull⟩ := exists_entries_of_get?_ofKeys_cons h
    obtain rfl : v = .null := Option.some.inj hnull
    constructor
    · intro hmap
      obtain ⟨ts, rfl⟩ := hmap.isMap
      rw [merge_map_map, List.nil_append, get?_ofKeys_cons]
      have hfind := find?_mergeEntries ts wfp.1 hv fun _ => wft.1
      exact congrArg (Option.bind · _) hfind
    · intro hnot
      rwa [merge_map_of_not_map fun ts hts => hnot ⟨ts, congrArg some hts⟩]
  | cons k keys ih =>
    obtain ⟨es, v, rfl, hv, hnull⟩ := exists_entries_of_get?_ofKeys_cons h
    have wfv : v.WellFormed := wellFormedEntries_iff.1 wfp.2 (k, v) (Entries.mem_of_find? hv)
    have hvalue : v.isNull = false := by
      cases v with
      | null => cases keys <;> cases hnull
      | _ => rfl
    by_cases hmap : ∃ ts, t = .map ts
    · obtain ⟨ts, rfl⟩ := hmap
      rw [List.cons_append, get?_merge_cons wfp.1 hv hvalue, hasMap_cons_iff]
      cases hu : Entries.find? k ts with
      | none => exact ⟨fun ⟨_, hsome, _⟩ => (nomatch hsome), fun _ => hnull⟩
      | some u =>
        have wfu : u.WellFormed := wellFormedEntries_iff.1 wft.2 (k, u) (Entries.mem_of_find? hu)
        simpa using ih wfv wfu hnull
    · rw [merge_map_of_not_map fun ts hts => hmap ⟨ts, hts⟩]
      exact ⟨fun hhas => absurd hhas.isMap hmap, fun _ => h⟩

/-- A null of a patch deletes its key exactly when the target has a map to delete it from. -/
theorem merge_deletes_null_iff (wfp : p.WellFormed) (wft : t.WellFormed)
    (h : p.get? (.ofKeys (keys ++ [key])) = some .null) :
    (merge p t).get? (.ofKeys (keys ++ [key])) = none ↔ t.HasMap keys := by
  obtain ⟨deleted, kept⟩ := get?_merge_of_null wfp wft h
  constructor
  · intro hnone
    by_contra hnot
    rw [kept hnot] at hnone
    cases hnone
  · exact deleted

def recreating : Tree :=
  .map [("spec", .map [("strategy", .map [("type", .text "Recreate"), ("rollingUpdate", .null)])])]

def deployed (spec : Entries Tree) : Tree :=
  .map [("kind", .text "Deployment"), ("spec", .map spec)]

theorem wellFormed_recreating : recreating.WellFormed := by
  simp [recreating, WellFormed, WellFormedEntries, Entries.Distinct, Entries.keys]

theorem merge_deletes_null_iff_strategy :
    recreating.get? (.ofKeys (["spec", "strategy"] ++ ["rollingUpdate"])) = some .null ∧
      (merge recreating (deployed [("strategy", .map [("rollingUpdate", .map [])])])).get?
        (.ofKeys (["spec", "strategy"] ++ ["rollingUpdate"])) = none := by
  have wf : (deployed [("strategy", .map [("rollingUpdate", .map [])])]).WellFormed := by
    simp [deployed, WellFormed, WellFormedEntries, Entries.Distinct, Entries.keys]
  exact ⟨rfl, (merge_deletes_null_iff wellFormed_recreating wf rfl).2 ⟨_, rfl⟩⟩

/-- Where the target has no strategy, the null is written into it. -/
theorem not_merge_deletes_null_in_general :
    ¬ ∀ (p t : Tree) (keys : List String) (key : String), p.WellFormed → t.WellFormed →
      p.get? (.ofKeys (keys ++ [key])) = some .null →
      (merge p t).get? (.ofKeys (keys ++ [key])) = none := by
  intro h
  have wf : (deployed [("replicas", .integer 1)]).WellFormed := by
    simp [deployed, WellFormed, WellFormedEntries, Entries.Distinct, Entries.keys]
  have hnone := h recreating _ ["spec", "strategy"] "rollingUpdate" wellFormed_recreating wf rfl
  exact absurd hnone (by decide +kernel)

end Manifest.Tree
