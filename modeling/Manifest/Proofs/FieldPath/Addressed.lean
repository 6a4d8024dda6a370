import Manifest.FieldPath.Walk
import Manifest.Proofs.Tree.Outline

namespace Manifest

namespace Tree

/-- The segments lead from the node to a position; with `spread`, through a list at the end. -/
inductive Addresses (spread : Bool) : Tree → List Segment → Position → Prop
  | here {t} : (spread = true → ∀ items, t ≠ .list items) → Addresses spread t [] []
  | element {items i} : spread = true → i < items.length →
      Addresses spread (.list items) [] [.index i]
  | item {items i u s rest p} : items[i]? = some u → picks s i u →
      Addresses spread u (afterList s rest) p →
      Addresses spread (.list items) (s :: rest) (.index i :: p)
  | entry {es key u rest p} : Entries.find? key es = some u → Addresses spread u rest p →
      Addresses spread (.map es) (.field key :: rest) (.key key :: p)

theorem Addresses.get?_isSome {spread : Bool} {t : Tree} {segments : List Segment} {p : Position}
    (h : Addresses spread t segments p) : (t.get? p).isSome := by
  induction h with
  | here => rfl
  | element _ hi => simpa [get?_cons, child?] using hi
  | item hu _ _ ih => simpa [get?_cons, child?, hu] using ih
  | entry hu _ ih => simpa [get?_cons, child?, hu] using ih

mutual

theorem addresses_of_mem_addressed (spread : Bool) : (t : Tree) → (segments : List Segment) →
    {ps : List Position} → t.addressed spread segments = .ok ps → {p : Position} → p ∈ ps →
    Addresses spread t segments p
  | .list items, [], ps, h, p, hp => by
    cases spread with
    | false =>
      obtain rfl : [[]] = ps := by simpa [addressed] using h
      obtain rfl := List.mem_singleton.1 hp
      exact .here nofun
    | true =>
      obtain rfl : (List.range items.length).map (fun i => [Step.index i]) = ps := by
        simpa [addressed] using h
      obtain ⟨i, hi, rfl⟩ := List.mem_map.1 hp
      exact .element rfl (List.mem_range.1 hi)
  | .null, [], ps, h, p, hp | .boolean _, [], ps, h, p, hp | .integer _, [], ps, h, p, hp
  | .decimal _, [], ps, h, p, hp | .text _, [], ps, h, p, hp | .map _, [], ps, h, p, hp => by
    obtain rfl : [[]] = ps := by simpa [addressed] using h
    obtain rfl := List.mem_singleton.1 hp
    exact .here fun _ _ => nofun
  | .list items, s :: rest, ps, h, p, hp => by
    rw [addressed] at h
    obtain ⟨i, u, q, rfl, hu, hs, hq⟩ := addresses_of_mem_items spread (picks s) _ 0 items h hp
    rw [Nat.zero_add] at hs ⊢
    exact .item hu hs hq
  | .map es, .field key :: rest, ps, h, p, hp => by
    rw [addressed] at h
    obtain ⟨u, q, rfl, hu, hq⟩ := addresses_of_mem_entry spread key rest es h hp
    exact .entry hu hq
  | .null, _ :: _, ps, h, p, hp => by
    obtain rfl : [] = ps := by simpa [addressed] using h
    cases hp
  | .boolean _, s :: _, _, h, _, _ | .integer _, s :: _, _, h, _, _ | .decimal _, s :: _, _, h, _, _
  | .text _, s :: _, _, h, _, _ => by cases s <;> simp [addressed] at h
  | .map _, .index _ :: _, _, h, _, _ | .map _, .matching _ _ :: _, _, h, _, _ => by
    simp [addressed] at h

theorem addresses_of_mem_items (spread : Bool) (pick : Nat → Tree → Bool) (segments : List Segment)
    (i : Nat) : (items : List Tree) → {ps : List Position} →
    addressedItems spread pick segments i items = .ok ps → {p : Position} → p ∈ ps →
    ∃ j u q, p = .index (i + j) :: q ∧ items[j]? = some u ∧ pick (i + j) u ∧
      Addresses spread u segments q
  | [], ps, h, p, hp => by
    obtain rfl : [] = ps := by simpa [addressedItems] using h
    cases hp
  | t :: ts, ps, h, p, hp => by
    rw [addressedItems] at h
    split at h
    · cases h
    rename_i here hhere
    split at h
    · cases h
    rename_i later hlater
    obtain rfl : _ = ps := by simpa using h
    rcases List.mem_append.1 hp with hp | hp
    · obtain ⟨q, hq, rfl⟩ := List.mem_map.1 hp
      by_cases hpick : pick i t
      · rw [if_pos hpick] at hhere
        exact ⟨0, t, q, rfl, rfl, hpick, addresses_of_mem_addressed spread t segments hhere hq⟩
      · rw [if_neg hpick] at hhere
        obtain rfl : [] = here := by simpa using hhere
        cases hq
    · obtain ⟨j, u, q, rfl, hu, hpick, hq⟩ :=
        addresses_of_mem_items spread pick segments (i + 1) ts hlater hp
      rw [show i + 1 + j = i + (j + 1) by omega] at hpick ⊢
      exact ⟨j + 1, u, q, rfl, hu, hpick, hq⟩

theorem addresses_of_mem_entry (spread : Bool) (key : String) (segments : List Segment) :
    (es : List (String × Tree)) → {ps : List Position} →
    addressedEntry spread key segments es = .ok ps → {p : Position} → p ∈ ps →
    ∃ u q, p = .key key :: q ∧ Entries.find? key es = some u ∧ Addresses spread u segments q
  | [], ps, h, p, hp => by
    obtain rfl : [] = ps := by simpa [addressedEntry] using h
    cases hp
  | (k, t) :: es, ps, h, p, hp => by
    rw [addressedEntry] at h
    split at h
    · rename_i hk
      cases ha : t.addressed spread segments with
      | error m => rw [ha] at h; cases h
      | ok qs =>
        rw [ha] at h
        obtain rfl : qs.map (.key key :: ·) = ps := by simpa [Except.map] using h
        obtain ⟨q, hq, rfl⟩ := List.mem_map.1 hp
        exact ⟨t, q, rfl, by simp [Entries.find?_cons, hk],
          addresses_of_mem_addressed spread t segments ha hq⟩
    · rename_i hk
      obtain ⟨u, q, rfl, hu, hq⟩ := addresses_of_mem_entry spread key segments es h hp
      exact ⟨u, q, rfl, by simpa [Entries.find?_cons, hk] using hu, hq⟩

end

theorem exists_of_addressedItems {spread : Bool} {pick : Nat → Tree → Bool}
    {segments : List Segment} {items : List Tree} {i j : Nat} {u : Tree} {ps : List Position}
    (h : addressedItems spread pick segments i items = .ok ps) (hu : items[j]? = some u)
    (hpick : pick (i + j) u = true) : ∃ qs, u.addressed spread segments = .ok qs ∧
      ∀ q ∈ qs, .index (i + j) :: q ∈ ps := by
  induction items generalizing i j ps with
  | nil => cases hu
  | cons t ts ih =>
    rw [addressedItems] at h
    split at h
    · cases h
    rename_i here hhere
    split at h
    · cases h
    rename_i later hlater
    obtain rfl : _ = ps := by simpa using h
    cases j with
    | zero =>
      obtain rfl : t = u := Option.some.inj hu
      rw [Nat.add_zero] at hpick
      rw [if_pos hpick] at hhere
      exact ⟨here, hhere, fun q hq => List.mem_append_left _ (List.mem_map_of_mem hq)⟩
    | succ j =>
      rw [show i + (j + 1) = i + 1 + j by omega] at hpick ⊢
      obtain ⟨qs, hqs, hmem⟩ := ih hlater hu hpick
      exact ⟨qs, hqs, fun q hq => List.mem_append_right _ (hmem q hq)⟩

theorem exists_of_addressedEntry {spread : Bool} {key : String} {segments : List Segment}
    {es : Entries Tree} {u : Tree} {ps : List Position}
    (h : addressedEntry spread key segments es = .ok ps) (hu : Entries.find? key es = some u) :
    ∃ qs, u.addressed spread segments = .ok qs ∧ ∀ q ∈ qs, .key key :: q ∈ ps := by
  induction es with
  | nil => cases hu
  | cons e es ih =>
    obtain ⟨k, t⟩ := e
    rw [addressedEntry] at h
    rw [Entries.find?_cons] at hu
    split at h
    · rename_i hk
      rw [if_pos hk] at hu
      obtain rfl : t = u := Option.some.inj hu
      cases ha : t.addressed spread segments with
      | error m => rw [ha] at h; cases h
      | ok qs =>
        rw [ha] at h
        obtain rfl : qs.map (.key key :: ·) = ps := by simpa [Except.map] using h
        exact ⟨qs, rfl, fun q hq => List.mem_map_of_mem hq⟩
    · rename_i hk
      rw [if_neg hk] at hu
      exact ih h hu

theorem mem_addressed_of_addresses {spread : Bool} {t : Tree} {segments : List Segment}
    {p : Position} (h : Addresses spread t segments p) {ps : List Position}
    (hps : t.addressed spread segments = .ok ps) : p ∈ ps := by
  induction h generalizing ps with
  | @here t hlist =>
    have hone : t.addressed spread [] = .ok [[]] := by
      cases t with
      | list items =>
        cases spread with
        | false => rfl
        | true => exact absurd rfl (hlist rfl items)
      | _ => rfl
    obtain rfl := Except.ok.inj (hone.symm.trans hps)
    exact List.mem_singleton_self _
  | element hspread hi =>
    subst hspread
    obtain rfl := Except.ok.inj hps
    exact List.mem_map_of_mem (List.mem_range.2 hi)
  | item hu hpick _ ih =>
    obtain ⟨qs, hqs, hmem⟩ := exists_of_addressedItems (i := 0) hps hu (by rwa [Nat.zero_add])
    rw [Nat.zero_add] at hmem
    exact hmem _ (ih hqs)
  | entry hu _ ih =>
    obtain ⟨qs, hqs, hmem⟩ := exists_of_addressedEntry hps hu
    exact hmem _ (ih hqs)

theorem mem_addressed_iff {spread : Bool} {t : Tree} {segments : List Segment}
    {ps : List Position} (hps : t.addressed spread segments = .ok ps) {p : Position} :
    p ∈ ps ↔ Addresses spread t segments p :=
  ⟨addresses_of_mem_addressed spread t segments hps, fun h => mem_addressed_of_addresses h hps⟩

mutual

theorem addressed_pairwise_before (spread : Bool) : (t : Tree) → (segments : List Segment) →
    {ps : List Position} → t.addressed spread segments = .ok ps → ps.Pairwise Position.Before
  | .list items, [], ps, h => by
    cases spread with
    | false =>
      obtain rfl : [[]] = ps := by simpa [addressed] using h
      exact List.pairwise_singleton _ _
    | true =>
      obtain rfl : (List.range items.length).map (fun i => [Step.index i]) = ps := by
        simpa [addressed] using h
      rw [List.pairwise_map]
      exact List.pairwise_lt_range.imp fun hij => Position.before_of_lt hij _ _
  | .null, [], ps, h | .boolean _, [], ps, h | .integer _, [], ps, h | .decimal _, [], ps, h
  | .text _, [], ps, h | .map _, [], ps, h => by
    obtain rfl : [[]] = ps := by simpa [addressed] using h
    exact List.pairwise_singleton _ _
  | .list items, s :: rest, ps, h => by
    rw [addressed] at h
    exact addressedItems_pairwise_before spread (picks s) _ 0 items h
  | .map es, .field key :: rest, ps, h => by
    rw [addressed] at h
    exact addressedEntry_pairwise_before spread key rest es h
  | .null, _ :: _, ps, h => by
    obtain rfl : [] = ps := by simpa [addressed] using h
    exact .nil
  | .boolean _, s :: _, _, h | .integer _, s :: _, _, h | .decimal _, s :: _, _, h
  | .text _, s :: _, _, h => by cases s <;> simp [addressed] at h
  | .map _, .index _ :: _, _, h | .map _, .matching _ _ :: _, _, h => by simp [addressed] at h

theorem addressedItems_pairwise_before (spread : Bool) (pick : Nat → Tree → Bool)
    (segments : List Segment) (i : Nat) : (items : List Tree) → {ps : List Position} →
    addressedItems spread pick segments i items = .ok ps → ps.Pairwise Position.Before
  | [], ps, h => by
    obtain rfl : [] = ps := by simpa [addressedItems] using h
    exact .nil
  | t :: ts, ps, h => by
    rw [addressedItems] at h
    split at h
    · cases h
    rename_i here hhere
    split at h
    · cases h
    rename_i later hlater
    obtain rfl : _ = ps := by simpa using h
    rw [List.pairwise_append]
    refine ⟨?_, addressedItems_pairwise_before spread pick segments (i + 1) ts hlater, ?_⟩
    · rw [List.pairwise_map]
      by_cases hpick : pick i t
      · rw [if_pos hpick] at hhere
        simpa using addressed_pairwise_before spread t segments hhere
      · rw [if_neg hpick] at hhere
        obtain rfl : [] = here := by simpa using hhere
        exact .nil
    · intro p hp q hq
      obtain ⟨p, _, rfl⟩ := List.mem_map.1 hp
      obtain ⟨j, u, q, rfl, _⟩ := addresses_of_mem_items spread pick segments (i + 1) ts hlater hq
      exact Position.before_of_lt (by omega) _ _

theorem addressedEntry_pairwise_before (spread : Bool) (key : String) (segments : List Segment) :
    (es : List (String × Tree)) → {ps : List Position} →
    addressedEntry spread key segments es = .ok ps → ps.Pairwise Position.Before
  | [], ps, h => by
    obtain rfl : [] = ps := by simpa [addressedEntry] using h
    exact .nil
  | (k, t) :: es, ps, h => by
    rw [addressedEntry] at h
    split at h
    · cases ha : t.addressed spread segments with
      | error m => rw [ha] at h; cases h
      | ok qs =>
        rw [ha] at h
        obtain rfl : qs.map (.key key :: ·) = ps := by simpa [Except.map] using h
        rw [List.pairwise_map]
        simpa using addressed_pairwise_before spread t segments ha
    · exact addressedEntry_pairwise_before spread key segments es h

end

theorem addressed_pairwise_apart (spread : Bool) (t : Tree) (segments : List Segment)
    {ps : List Position} (h : t.addressed spread segments = .ok ps) :
    ps.Pairwise Position.Apart :=
  (addressed_pairwise_before spread t segments h).imp Position.Before.apart

end Tree

def Position.keys (p : Position) : List String :=
  p.filterMap fun
    | .key k => some k
    | .index _ => none

theorem Position.apart_of_keys {p q : Position} (h : ¬ p.keys <+: q.keys)
    (h' : ¬ q.keys <+: p.keys) :
    Apart p q :=
  ⟨fun hpq => h (hpq.filterMap _), fun hqp => h' (hqp.filterMap _)⟩

theorem Tree.Addresses.keys_eq {spread : Bool} {t : Tree} {segments : List Segment} {p : Position}
    (h : Addresses spread t segments p) :
    ∀ {keys : List String}, segments = keys.map .field → p.keys = keys := by
  induction h with
  | here => intro keys hk; simpa [Position.keys] using hk
  | element => intro keys hk; simpa [Position.keys] using hk
  | @item items i u s rest p _ _ _ ih =>
    intro keys hk
    cases keys with
    | nil => cases hk
    | cons k ks =>
      obtain ⟨rfl, rfl⟩ := List.cons.inj hk
      exact @ih (k :: ks) rfl
  | entry _ _ ih =>
    intro keys hk
    cases keys with
    | nil => cases hk
    | cons k ks =>
      rw [List.map_cons, List.cons.injEq, Segment.field.injEq] at hk
      obtain ⟨rfl, rfl⟩ := hk
      simpa [Position.keys] using ih rfl

namespace Tree

mutual

theorem addressed_outline (spread : Bool) : (t : Tree) → (keys : List String) →
    t.outline.addressed spread (keys.map .field) = t.addressed spread (keys.map .field)
  | .list items, [] => by simp [addressed]
  | .map es, [] => by simp [addressed]
  | .null, [] | .boolean _, [] | .integer _, [] | .decimal _, [] | .text _, [] => rfl
  | .list items, k :: ks => by
    rw [outline_list]
    exact addressedItems_outline spread (k :: ks) 0 items
  | .map es, k :: ks => by
    rw [outline_map]
    exact addressedEntry_outline spread k ks es
  | .null, _ :: _ | .boolean _, _ :: _ | .integer _, _ :: _ | .decimal _, _ :: _
  | .text _, _ :: _ => rfl

theorem addressedItems_outline (spread : Bool) (keys : List String) (i : Nat) :
    (items : List Tree) →
    addressedItems spread (fun _ _ => true) (keys.map .field) i (items.map outline) =
      addressedItems spread (fun _ _ => true) (keys.map .field) i items
  | [] => rfl
  | t :: ts => by
    rw [List.map_cons, addressedItems, addressedItems,
      addressedItems_outline spread keys (i + 1) ts, addressed_outline spread t keys]

theorem addressedEntry_outline (spread : Bool) (key : String) (keys : List String) :
    (es : List (String × Tree)) →
    addressedEntry spread key (keys.map .field) (Entries.mapValues outline es) =
      addressedEntry spread key (keys.map .field) es
  | [] => rfl
  | (k, t) :: es => by
    rw [Entries.mapValues, List.map_cons, addressedEntry, addressedEntry,
      addressed_outline spread t keys]
    rw [show es.map (fun e => (e.1, outline e.2)) = Entries.mapValues outline es from rfl,
      addressedEntry_outline spread key keys es]

end

theorem addressed_congr {t u : Tree} (h : t.outline = u.outline) (spread : Bool)
    (keys : List String) :
    t.addressed spread (keys.map .field) = u.addressed spread (keys.map .field) := by
  rw [← addressed_outline, h, addressed_outline]

end Tree

end Manifest
