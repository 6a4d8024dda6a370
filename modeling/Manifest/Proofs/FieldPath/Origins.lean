import Manifest.Proofs.FieldPath.Removal

namespace Manifest

namespace Tree

/-- Wherever the keys lead to a map with the field `key` in the second tree, they do in the first.
`origin` tells where an element or a value has been. -/
inductive Inherits (key : String) : List String → Tree → Tree → Prop
  | refl (keys : List String) (t : Tree) : Inherits key keys t t
  | list {keys items us} (origin : Tree → Tree) : (∀ u ∈ us, origin u ∈ items) →
      (∀ u ∈ us, Inherits key keys (origin u) u) → Inherits key keys (.list items) (.list us)
  | field {es fs} : (∀ u, Entries.find? key fs = some u → ∃ t, Entries.find? key es = some t) →
      Inherits key [] (.map es) (.map fs)
  | under {k keys es fs} (origin : Tree → Tree) :
      (∀ u, Entries.find? k fs = some u → Entries.find? k es = some (origin u)) →
      (∀ u, Entries.find? k fs = some u → Inherits key keys (origin u) u) →
      Inherits key (k :: keys) (.map es) (.map fs)

variable {spread : Bool} {key : String} {keys : List String} {t u : Tree} {segments : List Segment}
  {q r : Position} {items : List Tree}

theorem inherits_list {us : List Tree} (h : ∀ u ∈ us, ∃ t ∈ items, Inherits key keys t u) :
    Inherits key keys (.list items) (.list us) := by
  choose! origin hmem hinherits using h
  exact .list origin hmem hinherits

theorem inherits_under {k : String} {es fs : Entries Tree} (h : ∀ u, Entries.find? k fs = some u →
    ∃ t, Entries.find? k es = some t ∧ Inherits key keys t u) :
    Inherits key (k :: keys) (.map es) (.map fs) := by
  choose! origin hfind hinherits using h
  exact .under origin hfind hinherits

theorem inherits_map {es fs : Entries Tree} (h : ∀ k u, Entries.find? k fs = some u →
    ∃ t, Entries.find? k es = some t ∧ ∀ keys, Inherits key keys t u) :
    Inherits key keys (.map es) (.map fs) := by
  cases keys with
  | nil => exact .field fun u hu => (h key u hu).imp fun _ ht => ht.1
  | cons k ks => exact inherits_under fun u hu => (h k u hu).imp fun _ ht => ⟨ht.1, ht.2 ks⟩

theorem inherits_removeLast (wf : t.WellFormed) (last : Segment) (keys : List String) :
    Inherits key keys t (t.removeLast last).1 := by
  cases t with
  | list items =>
    cases last with
    | field k => exact .refl keys _
    | index i =>
      rw [removeLast_list_index]
      exact inherits_list fun u hu => ⟨u, List.mem_of_mem_eraseIdx hu, .refl keys u⟩
    | matching k value =>
      exact inherits_list fun u hu => ⟨u, List.mem_of_mem_filter hu, .refl keys u⟩
  | map es =>
    cases last with
    | field k =>
      rw [removeLast_map_field]
      refine inherits_map fun k' u hu => ⟨u, ?_, fun keys => .refl keys u⟩
      by_cases hk : k = k'
      · subst hk
        cases (Entries.find?_erase_self wf.1).symm.trans hu
      · rwa [Entries.find?_erase_of_ne hk] at hu
    | index i => exact .refl keys _
    | matching k value => exact .refl keys _
  | _ =>
    rw [removeLast_scalar rfl]
    exact .refl keys _

theorem inherits_mapAddressed (wf : t.WellFormed) (last : Segment) (keys : List String) :
    Inherits key keys t (t.mapAddressed spread (fun u => (u.removeLast last).1) segments) := by
  induction t using Tree.induction generalizing segments keys with
  | scalar t hscalar =>
    rw [mapAddressed_removeLast_scalar hscalar]
    exact .refl keys t
  | list items ih =>
    have hitems := wellFormedItems_iff.1 wf
    cases segments with
    | nil =>
      cases spread with
      | false => exact inherits_removeLast wf last keys
      | true =>
        refine inherits_list fun u hu => ?_
        obtain ⟨v, hv, rfl⟩ := List.mem_map.1 hu
        exact ⟨v, hv, inherits_removeLast (hitems v hv) last keys⟩
    | cons s rest =>
      rw [mapAddressed_list_cons]
      refine inherits_list fun u hu => ?_
      obtain ⟨i, hi⟩ := List.getElem?_of_mem hu
      rw [getElem?_editPicked] at hi
      obtain ⟨v, hv, rfl⟩ := Option.map_eq_some_iff.1 hi
      have hmem := List.mem_of_getElem? hv
      refine ⟨v, hmem, ?_⟩
      split
      · exact ih v hmem (hitems v hmem) keys
      · exact .refl keys v
  | map es ih =>
    cases segments with
    | nil => exact inherits_removeLast wf last keys
    | cons s rest =>
      cases s with
      | index i => exact .refl keys _
      | matching k value => exact .refl keys _
      | field k =>
        rw [mapAddressed_map_field]
        refine inherits_map fun k' u hu => ?_
        rw [Entries.find?_modify] at hu
        split at hu
        · obtain ⟨v, hv, rfl⟩ := Option.map_eq_some_iff.1 hu
          have hmem := Entries.mem_of_find? hv
          exact ⟨v, hv, ih (k', v) hmem (wellFormedEntries_iff.1 wf.2 _ hmem)⟩
        · exact ⟨u, hu, fun keys => .refl keys u⟩

theorem set_index_list (i : Nat) (q : Position) (u : Tree) (items : List Tree) :
    set (.index i :: q) u (list items) = list (items.modify i (set q u)) := rfl

theorem set_key_map (k : String) (q : Position) (u : Tree) (es : Entries Tree) :
    set (.key k :: q) u (map es) = map (Entries.modify k (set q u) es) := rfl

theorem inherits_set (hq : q.keys = keys ++ [key]) (u t : Tree) :
    Inherits key keys t (set q u t) := by
  induction q generalizing keys t with
  | nil => simp [Position.keys] at hq
  | cons s q ih =>
    cases s with
    | index i =>
      cases t with
      | list items =>
        rw [set_index_list]
        refine inherits_list fun v hv => ?_
        obtain ⟨j, hj⟩ := List.getElem?_of_mem hv
        rw [List.getElem?_modify] at hj
        obtain ⟨w, hw, rfl⟩ := Option.map_eq_some_iff.1 hj
        refine ⟨w, List.mem_of_getElem? hw, ?_⟩
        split
        · exact ih hq w
        · exact .refl keys w
      | _ => exact .refl keys _
    | key k =>
      cases t with
      | map es =>
        rw [set_key_map]
        cases keys with
        | nil =>
          refine .field fun v hv => ?_
          rw [Entries.find?_modify] at hv
          split at hv
          · exact (Option.map_eq_some_iff.1 hv).imp fun _ hw => hw.1
          · exact ⟨v, hv⟩
        | cons k' ks =>
          obtain ⟨rfl, hrest⟩ := List.cons.inj hq
          refine inherits_under fun v hv => ?_
          rw [Entries.find?_modify, if_pos rfl] at hv
          obtain ⟨w, hw, rfl⟩ := Option.map_eq_some_iff.1 hv
          exact ⟨w, hw, ih hrest w⟩
      | _ => exact .refl keys _

theorem Inherits.exists_list (h : Inherits key keys t (.list items)) :
    ∃ items', t = .list items' := by
  cases h with
  | refl => exact ⟨items, rfl⟩
  | list => exact ⟨_, rfl⟩

theorem Inherits.addresses_field (h : Inherits key [] t u)
    (hr : u.Addresses false [.field key] r) : ∃ r', t.Addresses false [.field key] r' := by
  generalize hkeys : ([] : List String) = keys at h
  induction h generalizing r with
  | refl keys t => exact ⟨r, hr⟩
  | list origin hmem _ ih =>
    cases hr with
    | item hu _ hr =>
      have hu := List.mem_of_getElem? hu
      obtain ⟨r', hr'⟩ := ih _ hu hr hkeys
      obtain ⟨i, hi⟩ := List.getElem?_of_mem (hmem _ hu)
      exact ⟨.index i :: r', .item hi rfl hr'⟩
  | field hfind =>
    cases hr with
    | entry hu _ =>
      obtain ⟨v, hv⟩ := hfind _ hu
      exact ⟨_, .entry hv (.here nofun)⟩
  | under => cases hkeys

theorem Inherits.addresses_list (h : Inherits key keys t u)
    (hq : u.Addresses true (keys.map .field) q) (hlist : u.get? q = some (.list items))
    (hr : (Tree.list items).Addresses false [.field key] r) :
    ∃ q' items' r', t.Addresses true (keys.map .field) q' ∧ t.get? q' = some (.list items') ∧
      (Tree.list items').Addresses false [.field key] r' := by
  induction h generalizing q with
  | refl keys t => exact ⟨q, items, r, hq, hlist, hr⟩
  | field =>
    cases hq with
    | here _ => cases hlist
  | under origin hfind _ ih =>
    cases hq with
    | entry hu hq =>
      rw [get?_map hu] at hlist
      obtain ⟨q', items', r', hq', hlist', hr'⟩ := ih _ hu hq hlist
      have hfound := hfind _ hu
      exact ⟨_, items', r', .entry hfound hq', (get?_map hfound q').trans hlist', hr'⟩
  | @list keys _ us origin hmem hinherits ih =>
    cases keys with
    | nil =>
      cases hq with
      | here hnot => exact absurd rfl (hnot rfl us)
      | @element _ i _ hi =>
        have hu : us[i]? = some (.list items) := by simpa [get?_cons, child?] using hlist
        have hu := List.mem_of_getElem? hu
        obtain ⟨j, hj⟩ := List.getElem?_of_mem (hmem _ hu)
        obtain ⟨r', hr'⟩ := (hinherits _ hu).addresses_field hr
        obtain ⟨items', hitems⟩ := (hinherits _ hu).exists_list
        obtain ⟨hlt, -⟩ := List.getElem?_eq_some_iff.1 hj
        rw [hitems] at hj hr'
        exact ⟨[.index j], items', r', .element rfl hlt, get?_list hj [], hr'⟩
    | cons k ks =>
      cases hq with
      | item hu _ hq =>
        rw [get?_list hu] at hlist
        have hu := List.mem_of_getElem? hu
        obtain ⟨q', items', r', hq', hlist', hr'⟩ := ih _ hu hq hlist
        obtain ⟨j, hj⟩ := List.getElem?_of_mem (hmem _ hu)
        exact ⟨.index j :: q', items', r', .item hj rfl hq', (get?_list hj q').trans hlist', hr'⟩

end Tree

end Manifest
