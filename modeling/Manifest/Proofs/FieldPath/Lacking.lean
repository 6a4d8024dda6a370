import Manifest.Proofs.FieldPath.Creating
import Manifest.Proofs.FieldPath.Growth

namespace Manifest.Tree

variable {t u v w : Tree} {segments rest : List Segment} {key : String} {keys : List String}
  {es : Entries Tree} {q : Position}

theorem addresses_chain (keys : List String) :
    (chain (keys.map .field)).Addresses true (keys.map .field) (.ofKeys keys) := by
  induction keys with
  | nil => exact .here fun _ _ => nofun
  | cons key keys ih => exact .entry (if_pos rfl) ih

theorem get?_of_addresses_chain (h : (chain (keys.map .field)).Addresses true (keys.map .field) q) :
    (chain (keys.map .field)).get? q = some .null := by
  induction keys generalizing q with
  | nil => cases h with | here => rfl
  | cons key keys ih =>
    cases h with
    | @entry _ _ u _ q hu hq =>
      obtain rfl : chain (keys.map .field) = u :=
        Option.some.inj ((if_pos rfl : Entries.find? key [(key, _)] = _).symm.trans hu)
      exact (get?_map hu q).trans (ih hq)

theorem growItems_eq_self {pick : Nat → Tree → Bool} {items : List Tree} {i : Nat}
    (h : ∀ j u, items[j]? = some u → pick (i + j) u = true → (u.grow segments).1 = u) :
    (growItems pick segments i items).1 = items := by
  induction items generalizing i with
  | nil => rfl
  | cons u us ih =>
    obtain ⟨us', hus', hgrow⟩ := growItems_cons pick segments i u us
    have hu : (if pick i u = true then (u.grow segments).1 else u) = u := by
      split
      · exact h 0 u rfl ‹_›
      · rfl
    have hus : (growItems pick segments (i + 1) us).1 = us := ih fun j v hv hpick =>
      h (j + 1) v hv (by rwa [show i + (j + 1) = i + 1 + j by omega])
    rw [hgrow, hu]
    rcases hus' with rfl | rfl
    · rfl
    · rw [hus]

theorem growEntry_eq_self (hfind : Entries.find? key es = some u) (hu : (u.grow segments).1 = u) :
    (growEntry key segments es).1 = es := by
  induction es with
  | nil => rfl
  | cons e es ih =>
    obtain ⟨k, v⟩ := e
    rw [Entries.find?_cons] at hfind
    rw [growEntry]
    split at hfind
    · rename_i hk
      rw [if_pos hk, Option.some.inj hfind]
      exact congrArg (fun u => (k, u) :: es) hu
    · rename_i hk
      rw [if_neg hk]
      exact congrArg ((k, v) :: ·) (ih hfind)

theorem grow_eq_self_of_not_lacks (h : ∀ q, ¬ t.Lacks segments q) : (t.grow segments).1 = t := by
  induction t using Tree.induction generalizing segments with
  | scalar t hscalar =>
    cases t with
    | null =>
      obtain ⟨key, keys, hkeys, -⟩ | ⟨-, hgrow⟩ := grow_null_cases segments
      · exact absurd (.null hkeys (List.cons_ne_nil key keys) List.nil_prefix) (h [])
      · exact hgrow
    | list | map => cases hscalar
    | boolean | integer | decimal | text =>
      cases segments with
      | nil => rfl
      | cons s => cases s <;> rfl
  | list items ih =>
    cases segments with
    | nil => rfl
    | cons s rest =>
      refine congrArg list (growItems_eq_self fun j u hu hpick => ?_)
      rw [Nat.zero_add] at hpick
      exact ih u (List.mem_of_getElem? hu) fun q hq => h (.index j :: q) (.item hu hpick hq)
  | map es ih =>
    cases segments with
    | nil => rfl
    | cons s rest =>
      cases s with
      | field key =>
        obtain ⟨u, hu, hgrow⟩ | ⟨hnone, ⟨keys, hkeys, -⟩ | ⟨-, hgrow⟩⟩ := grow_map_cases key rest es
        · rw [hgrow, growEntry_eq_self hu]
          exact ih (key, u) (Entries.mem_of_find? hu) fun q hq => h (.key key :: q) (.entry hu hq)
        · exact absurd (.missing hnone hkeys List.nil_prefix) (h [.key key])
        · exact hgrow
      | index | matching => rfl

theorem getLast?_keys (hne : keys ≠ []) :
    ∃ key, (keys.map Segment.field).getLast? = some (.field key) := by
  refine ⟨keys.getLast hne, ?_⟩
  rw [List.getLast?_map, List.getLast?_eq_some_getLast hne, Option.map_some]

theorem Lacks.getLast?_eq (h : t.Lacks segments q) :
    ∃ key, segments.getLast? = some (.field key) := by
  have hcons : ∀ {s : Segment} {rest : List Segment} {key : String},
      rest.getLast? = some (.field key) → (s :: rest).getLast? = some (.field key) := by
    intro s rest key hlast
    rw [List.getLast?_cons, hlast, Option.getD_some]
  induction h with
  | null hkeys hne => exact hkeys ▸ getLast?_keys hne
  | @missing _ key _ keys _ _ hkeys => exact hkeys ▸ getLast?_keys (List.cons_ne_nil key keys)
  | @item _ _ _ s rest _ _ _ _ ih =>
    obtain ⟨key, hlast⟩ := ih
    cases s with
    | field => exact ⟨key, hlast⟩
    | index | matching => exact ⟨key, hcons hlast⟩
  | entry _ _ ih =>
    obtain ⟨key, hlast⟩ := ih
    exact ⟨key, hcons hlast⟩

theorem grow_eq_self (h : ∀ s ∈ segments.getLast?, s.isField = false) :
    (t.grow segments).1 = t :=
  grow_eq_self_of_not_lacks fun _ hq => by
    obtain ⟨key, hlast⟩ := hq.getLast?_eq
    cases h _ hlast

theorem getElem?_growItems_of_none {pick : Nat → Tree → Bool} {items : List Tree} {i j : Nat}
    (h : (growItems pick segments i items).2 = none) (hu : items[j]? = some u)
    (hpick : pick (i + j) u = true) :
    (growItems pick segments i items).1[j]? = some (u.grow segments).1 := by
  induction items generalizing i j with
  | nil => cases hu
  | cons v vs ih =>
    rw [growItems] at h ⊢
    cases hv : (if pick i v = true then v.grow segments else (v, none)) with
    | mk v' m =>
      rw [hv] at h
      cases m with
      | some m => cases h
      | none =>
        cases j with
        | zero =>
          obtain rfl := Option.some.inj hu
          rw [if_pos (by rwa [Nat.add_zero] at hpick)] at hv
          rw [hv]
          rfl
        | succ j => exact ih h hu (by rwa [show i + 1 + j = i + (j + 1) by omega])

theorem picks_grown {s : Segment} {items : List Tree} {i : Nat} (hu : items[i]? = some u)
    (hw : (growItems (picks s) (afterList s rest) 0 items).1[i]? = some w) :
    picks s i w = picks s i u :=
  ((list items).evolves_grow (s :: rest)).picks_eq (keepsCompared_id _ (s :: rest)) hu hw

theorem growItems_snd_eq_none {s : Segment} {items : List Tree}
    (haddressed : ∃ ps, (list items).addressed true (s :: rest) = .ok ps) :
    (growItems (picks s) (afterList s rest) 0 items).2 = none := by
  obtain ⟨ps, hps⟩ := haddressed
  rw [growItems_snd true]
  exact congrArg mismatch? hps

theorem exists_addressed_item {s : Segment} {items : List Tree} {i : Nat}
    (haddressed : ∃ ps, (list items).addressed true (s :: rest) = .ok ps)
    (hu : items[i]? = some u) (hpick : picks s i u = true) :
    ∃ ps, u.addressed true (afterList s rest) = .ok ps := by
  obtain ⟨ps, hps⟩ := haddressed
  obtain ⟨us, hus, -⟩ := exists_of_addressedItems (j := i) hps hu (by rwa [Nat.zero_add])
  exact ⟨us, hus⟩

theorem exists_addressed_entry (haddressed : ∃ ps, (map es).addressed true (.field key :: rest) =
    .ok ps) (hu : Entries.find? key es = some u) : ∃ ps, u.addressed true rest = .ok ps := by
  obtain ⟨ps, hps⟩ := haddressed
  obtain ⟨us, hus, -⟩ := exists_of_addressedEntry hps hu
  exact ⟨us, hus⟩

/-- What a tree lacks along a path is added unless the path is blocked, and then the path leads
there. -/
theorem Lacks.exists_addresses (h : t.Lacks segments q)
    (haddressed : ∃ ps, t.addressed true segments = .ok ps) :
    ∃ p, (t.grow segments).1.Addresses true segments p := by
  induction h with
  | @null _ keys _ hkeys hne =>
    cases keys with
    | nil => exact absurd rfl hne
    | cons key keys =>
      rw [hkeys, grow_null]
      exact ⟨_, addresses_chain (key :: keys)⟩
  | @missing es key segments keys q hnone hkeys =>
    rw [hkeys, grow_map_of_missing hnone]
    exact ⟨_, .entry (find?_added hnone _) (addresses_chain keys)⟩
  | item hu hpick _ ih =>
    have hgrown := getElem?_growItems_of_none (growItems_snd_eq_none haddressed) hu
      (by rwa [Nat.zero_add])
    obtain ⟨p, hp⟩ := ih (exists_addressed_item haddressed hu hpick)
    exact ⟨.index _ :: p, .item hgrown ((picks_grown hu hgrown).trans hpick) hp⟩
  | entry hu _ ih =>
    obtain ⟨p, hp⟩ := ih (exists_addressed_entry haddressed hu)
    rw [grow_map_of_find? hu]
    exact ⟨.key _ :: p, .entry (find?_grown hu _) hp⟩

theorem not_lacks_chain : ¬ (chain (keys.map .field)).Lacks (keys.map .field) q := by
  induction keys generalizing q with
  | nil =>
    rintro (⟨hkeys, hne, -⟩ | _ | _ | _)
    exact hne (List.map_eq_nil_iff.1 hkeys.symm)
  | cons key keys ih =>
    intro h
    cases h with
    | missing hnone => cases hnone.symm.trans (if_pos rfl)
    | entry hu h =>
      obtain rfl := Option.some.inj ((if_pos rfl).symm.trans hu)
      exact ih h

theorem Lacks.not_lacks_grow (h : t.Lacks segments q)
    (haddressed : ∃ ps, t.addressed true segments = .ok ps) :
    ¬ (t.grow segments).1.Lacks segments q := by
  induction h with
  | @null _ keys _ hkeys hne =>
    cases keys with
    | nil => exact absurd rfl hne
    | cons key keys =>
      rw [hkeys, grow_null]
      exact not_lacks_chain
  | missing hnone hkeys =>
    rw [hkeys, grow_map_of_missing hnone]
    intro h
    cases h with
    | missing hnone' => cases (find?_added hnone _).symm.trans hnone'
    | entry hv h =>
      obtain rfl := Option.some.inj ((find?_added hnone _).symm.trans hv)
      exact not_lacks_chain h
  | item hu hpick _ ih =>
    have hgrown := getElem?_growItems_of_none (growItems_snd_eq_none haddressed) hu
      (by rwa [Nat.zero_add])
    intro h
    cases h with
    | item hv _ h =>
      obtain rfl := Option.some.inj (hgrown.symm.trans hv)
      exact ih (exists_addressed_item haddressed hu hpick) h
  | entry hu _ ih =>
    rw [grow_map_of_find? hu]
    intro h
    cases h with
    | missing hnone => cases (find?_grown hu _).symm.trans hnone
    | entry hv h =>
      obtain rfl := Option.some.inj ((find?_grown hu _).symm.trans hv)
      exact ih (exists_addressed_entry haddressed hu) h

theorem not_lacks_grow (haddressed : ∃ ps, t.addressed true segments = .ok ps) :
    ¬ (t.grow segments).1.Lacks segments q := fun h =>
  (h.of_evolves (t.evolves_grow segments) (t.keepsCompared_id segments)).not_lacks_grow haddressed h

end Manifest.Tree
