import Manifest.FieldPath.Walk
import Manifest.Proofs.Tree.Growth

namespace Manifest.Tree

/-- Only keys are left where the segments leave the tree, and the position is on the way. -/
inductive Lacks : Tree → List Segment → Position → Prop
  | null {segments keys q} : segments = keys.map .field → keys ≠ [] → q <+: Position.ofKeys keys →
      Lacks .null segments q
  | missing {es key segments keys q} : Entries.find? key es = none → segments = keys.map .field →
      q <+: Position.ofKeys keys → Lacks (.map es) (.field key :: segments) (.key key :: q)
  | item {items i u s rest q} : items[i]? = some u → picks s i u → Lacks u (afterList s rest) q →
      Lacks (.list items) (s :: rest) (.index i :: q)
  | entry {es key u rest q} : Entries.find? key es = some u → Lacks u rest q →
      Lacks (.map es) (.field key :: rest) (.key key :: q)

variable {t u w : Tree} {segments : List Segment} {key : String} {es : Entries Tree} {q : Position}

theorem exists_keys_of_all (h : segments.all Segment.isField = true) :
    ∃ keys : List String, segments = keys.map .field := by
  induction segments with
  | nil => exact ⟨[], rfl⟩
  | cons s rest ih =>
    rw [List.all_cons, Bool.and_eq_true] at h
    obtain ⟨keys, rfl⟩ := ih h.2
    cases s with
    | field key => exact ⟨key :: keys, rfl⟩
    | _ => cases h.1

theorem chain_get? {keys : List String} (h : (chain (keys.map .field)).get? q = some w) :
    q <+: Position.ofKeys keys ∧ w.Hollow := by
  induction keys generalizing q with
  | nil =>
    cases q with
    | nil => exact ⟨List.prefix_refl _, .inl (Option.some.inj h).symm⟩
    | cons s q => cases s <;> cases h
  | cons key keys ih =>
    cases q with
    | nil => exact ⟨List.nil_prefix, .inr ⟨_, (Option.some.inj h).symm⟩⟩
    | cons s q =>
      obtain ⟨x, hx, hq⟩ := Option.bind_eq_some_iff.1 h
      cases s with
      | index i => cases hx
      | key k =>
        rw [List.map_cons, chain, child?, Entries.find?_cons] at hx
        split at hx
        · rename_i hk
          obtain rfl := Option.some.inj hx
          subst hk
          obtain ⟨hle, hollow⟩ := ih hq
          exact ⟨List.cons_prefix_cons.2 ⟨rfl, hle⟩, hollow⟩
        · cases hx

theorem growItems_cons (pick : Nat → Tree → Bool) (segments : List Segment) (i : Nat) (t : Tree)
    (ts : List Tree) : ∃ ts', (ts' = ts ∨ ts' = (growItems pick segments (i + 1) ts).1) ∧
      (growItems pick segments i (t :: ts)).1 =
        (if pick i t then (grow t segments).1 else t) :: ts' := by
  rw [growItems]
  split
  · rename_i u m hu
    exact ⟨ts, .inl rfl, by split at hu <;> simp_all⟩
  · rename_i u hu
    exact ⟨_, .inr rfl, by split at hu <;> simp_all⟩

theorem length_growItems (pick : Nat → Tree → Bool) (segments : List Segment) (i : Nat)
    (items : List Tree) : (growItems pick segments i items).1.length = items.length := by
  induction items generalizing i with
  | nil => rfl
  | cons t ts ih =>
    obtain ⟨ts', rfl | rfl, h⟩ := growItems_cons pick segments i t ts
    · rw [h, List.length_cons, List.length_cons]
    · rw [h, List.length_cons, List.length_cons, ih]

theorem getElem?_growItems (pick : Nat → Tree → Bool) (segments : List Segment) (i : Nat)
    {items : List Tree} {j : Nat} (h : items[j]? = some u) :
    (growItems pick segments i items).1[j]? = some u ∨ pick (i + j) u = true ∧
      (growItems pick segments i items).1[j]? = some (grow u segments).1 := by
  induction items generalizing i j with
  | nil => cases h
  | cons t ts ih =>
    obtain ⟨ts', hts', hgrow⟩ := growItems_cons pick segments i t ts
    rw [hgrow]
    cases j with
    | zero =>
      obtain rfl : t = u := Option.some.inj h
      by_cases hpick : pick i t = true
      · exact .inr ⟨hpick, by rw [if_pos hpick]; rfl⟩
      · exact .inl (by rw [if_neg hpick]; rfl)
    | succ j =>
      rw [List.getElem?_cons_succ] at h ⊢
      rcases hts' with rfl | rfl
      · exact .inl h
      · rw [show i + (j + 1) = i + 1 + j by omega]
        exact ih (i + 1) h

theorem exists_of_growItems {pick : Nat → Tree → Bool} {items : List Tree} {i : Nat}
    (hw : (growItems pick segments 0 items).1[i]? = some w) :
    ∃ u, items[i]? = some u ∧ (w = u ∨ pick i u = true ∧ w = (u.grow segments).1) := by
  have hi : i < items.length := by
    rw [← length_growItems pick segments 0]
    exact (List.getElem?_eq_some_iff.1 hw).1
  obtain ⟨u, hu⟩ : ∃ u, items[i]? = some u := ⟨_, List.getElem?_eq_getElem hi⟩
  refine ⟨u, hu, ?_⟩
  rcases getElem?_growItems pick segments 0 hu with hw' | ⟨hpick, hw'⟩
  · exact .inl (Option.some.inj (hw.symm.trans hw'))
  · rw [Nat.zero_add] at hpick
    exact .inr ⟨hpick, Option.some.inj (hw.symm.trans hw')⟩

theorem keys_growEntry (key : String) (segments : List Segment) (es : Entries Tree) :
    Entries.keys (growEntry key segments es).1 = Entries.keys es := by
  induction es with
  | nil => rfl
  | cons e es ih =>
    rw [growEntry]
    split
    · rfl
    · exact congrArg (e.1 :: ·) ih

theorem find?_growEntry_self (key : String) (segments : List Segment) (es : Entries Tree) :
    Entries.find? key (growEntry key segments es).1 =
      (Entries.find? key es).map fun u => (grow u segments).1 := by
  induction es with
  | nil => rfl
  | cons e es ih =>
    obtain ⟨k, u⟩ := e
    rw [growEntry, Entries.find?_cons]
    split
    · rename_i hk
      exact if_pos hk
    · rename_i hk
      exact (if_neg hk).trans ih

theorem find?_growEntry_of_ne {key other : String} (h : key ≠ other) (segments : List Segment)
    (es : Entries Tree) :
    Entries.find? other (growEntry key segments es).1 = Entries.find? other es := by
  induction es with
  | nil => rfl
  | cons e es ih =>
    obtain ⟨k, t⟩ := e
    rw [growEntry, Entries.find?_cons]
    split
    · rename_i hk
      rw [Entries.find?_cons, if_neg (hk ▸ h), if_neg (hk ▸ h)]
    · rw [Entries.find?_cons, ih]

theorem grow_null (key : String) (keys : List String) :
    (null.grow ((key :: keys).map .field)).1 = chain ((key :: keys).map .field) := by
  rw [List.map_cons, grow, if_pos (by simp [Segment.isField])]

theorem grow_null_cases (segments : List Segment) :
    (∃ key keys, segments = (key :: keys).map .field ∧
        (null.grow segments).1 = chain segments) ∨
      (∀ keys : List String, segments = keys.map .field → keys = []) ∧
        (null.grow segments).1 = null := by
  cases segments with
  | nil => exact .inr ⟨fun _ h => List.map_eq_nil_iff.1 h.symm, rfl⟩
  | cons s rest =>
    rw [grow]
    split
    · rename_i hall
      obtain ⟨keys, hkeys⟩ := exists_keys_of_all hall
      cases keys with
      | nil => cases hkeys
      | cons key keys => exact .inl ⟨key, keys, hkeys, rfl⟩
    · rename_i hall
      refine .inr ⟨fun keys hkeys => absurd ?_ hall, rfl⟩
      rw [hkeys]
      simp [Segment.isField]

theorem grow_map_of_find? (h : Entries.find? key es = some u) (rest : List Segment) :
    ((map es).grow (.field key :: rest)).1 = map (growEntry key rest es).1 := by
  rw [grow, if_pos (by rw [Entries.has, h]; rfl)]

theorem grow_map_of_missing (h : Entries.find? key es = none) (keys : List String) :
    ((map es).grow (.field key :: keys.map .field)).1 =
      map (es ++ [(key, chain (keys.map .field))]) := by
  rw [grow, if_neg (by simp [Entries.has, h]), if_pos (by simp [Segment.isField])]

theorem find?_grown (h : Entries.find? key es = some u) (rest : List Segment) :
    Entries.find? key (growEntry key rest es).1 = some (u.grow rest).1 := by
  rw [find?_growEntry_self, h, Option.map_some]

theorem find?_added (h : Entries.find? key es = none) (u : Tree) :
    Entries.find? key (es ++ [(key, u)]) = some u := by
  rw [Entries.find?_append, h, Option.none_or, Entries.find?_cons, if_pos rfl]

theorem find?_added_of_ne {other : String} (h : key ≠ other) (u : Tree) :
    Entries.find? other (es ++ [(key, u)]) = Entries.find? other es := by
  rw [Entries.find?_append, Entries.find?_cons, if_neg h, Entries.find?_nil, Option.or_none]

theorem grow_map_cases (key : String) (rest : List Segment) (es : Entries Tree) :
    (∃ u, Entries.find? key es = some u ∧
        ((map es).grow (.field key :: rest)).1 = map (growEntry key rest es).1) ∨
      Entries.find? key es = none ∧
        ((∃ keys : List String, rest = keys.map .field ∧
            ((map es).grow (.field key :: rest)).1 = map (es ++ [(key, chain rest)])) ∨
          (∀ keys : List String, rest ≠ keys.map .field) ∧
            ((map es).grow (.field key :: rest)).1 = map es) := by
  cases hfind : Entries.find? key es with
  | some u => exact .inl ⟨u, rfl, grow_map_of_find? hfind rest⟩
  | none =>
    refine .inr ⟨rfl, ?_⟩
    rw [grow, if_neg (by simp [Entries.has, hfind])]
    split
    · rename_i hall
      obtain ⟨keys, hkeys⟩ := exists_keys_of_all hall
      exact .inl ⟨keys, hkeys, rfl⟩
    · rename_i hall
      refine .inr ⟨fun keys hkeys => hall ?_, rfl⟩
      rw [hkeys]
      simp [Segment.isField]

theorem evolves_chain {a : Position → Prop} {keys : List String}
    (h : ∀ q, q <+: Position.ofKeys keys → a q) :
    Evolves (fun _ s => s) a null (chain (keys.map .field)) :=
  .of_hollow fun _ _ hw => (chain_get? hw).imp_left (h _)

theorem evolves_grown {a : Position → Prop} {rest : List Segment}
    (hu : Entries.find? key es = some u)
    (e : Evolves (fun _ s => s) (fun q => a (.key key :: q)) u (u.grow rest).1) :
    Evolves (fun _ s => s) a (map es) (map (growEntry key rest es).1) := by
  refine .map ((keys_growEntry key rest es).symm ▸ List.prefix_refl _) (fun k v hv => ?_)
    fun k w hv hw => ?_
  · by_cases hk : key = k
    · subst hk
      obtain rfl := Option.some.inj (hu.symm.trans hv)
      exact ⟨_, find?_grown hu rest, e⟩
    · exact ⟨v, by rw [find?_growEntry_of_ne hk, hv], .refl v⟩
  · by_cases hk : key = k
    · subst hk
      cases hu.symm.trans hv
    · rw [find?_growEntry_of_ne hk, hv] at hw
      cases hw

theorem evolves_added {a : Position → Prop} {keys : List String}
    (hnone : Entries.find? key es = none)
    (h : ∀ q, q <+: Position.ofKeys keys → a (.key key :: q)) :
    Evolves (fun _ s => s) a (map es) (map (es ++ [(key, chain (keys.map .field))])) := by
  refine .map (by simp [Entries.keys]) (fun k v hv => ?_) fun k w hv hw => ?_
  · exact ⟨v, by rw [Entries.find?_append, hv]; rfl, .refl v⟩
  · by_cases hk : key = k
    · subst hk
      obtain rfl := Option.some.inj ((find?_added hnone _).symm.trans hw)
      exact fun q x hx => (chain_get? hx).imp_left (h q)
    · rw [find?_added_of_ne hk, hv] at hw
      cases hw

theorem evolves_grow (t : Tree) (segments : List Segment) :
    Evolves (fun _ s => s) (Lacks t segments) t (t.grow segments).1 := by
  induction t using Tree.induction generalizing segments with
  | scalar t hscalar =>
    cases t with
    | null =>
      obtain ⟨key, keys, rfl, hgrow⟩ | ⟨-, hgrow⟩ := grow_null_cases segments
      · rw [hgrow]
        exact evolves_chain fun q hq => .null rfl (List.cons_ne_nil key keys) hq
      · rw [hgrow]
        exact .refl _
    | list | map => cases hscalar
    | boolean | integer | decimal | text =>
      cases segments with
      | nil => exact .refl _
      | cons s => cases s <;> exact .refl _
  | list items ih =>
    cases segments with
    | nil => exact .refl _
    | cons s rest =>
      refine .list (length_growItems _ _ _ _) fun j v hv => ?_
      rcases getElem?_growItems (picks s) (afterList s rest) 0 hv with hw | ⟨hpick, hw⟩
      · exact ⟨v, hw, .refl v⟩
      · rw [Nat.zero_add] at hpick
        refine ⟨_, hw, (ih v (List.mem_of_getElem? hv) _).mono (fun _ _ _ => rfl) ?_⟩
        exact fun q hq => .item hv hpick hq
  | map es ih =>
    cases segments with
    | nil => exact .refl _
    | cons s rest =>
      cases s with
      | field key =>
        obtain ⟨u, hu, hgrow⟩ | ⟨hnone, ⟨keys, rfl, hgrow⟩ | ⟨-, hgrow⟩⟩ :=
          grow_map_cases key rest es
        · rw [hgrow]
          have hbelow := ih (key, u) (Entries.mem_of_find? hu) rest
          exact evolves_grown hu (hbelow.mono (fun _ _ _ => rfl) fun q hq => .entry hu hq)
        · rw [hgrow]
          exact evolves_added hnone fun q hq => .missing hnone rfl hq
        · rw [hgrow]
          exact .refl _
      | index | matching => exact .refl _

theorem get?_grow_text (t : Tree) (segments : List Segment) {s : String}
    (h : t.get? q = some (.text s)) : (t.grow segments).1.get? q = some (.text s) :=
  (t.evolves_grow segments).get?_text h

theorem field?_grow_of_ne {p : FieldPath} {key : String} (h : p.firstField? ≠ some key)
    {t : Tree} (map : ∃ es, t = .map es) : (t.grow p.segments).1.field? key = t.field? key := by
  obtain ⟨es, rfl⟩ := map
  rw [FieldPath.firstField?] at h
  cases hs : p.segments with
  | nil => rfl
  | cons s rest =>
    cases s with
    | field k =>
      have hne : k ≠ key := by simpa [hs] using h
      obtain ⟨u, -, hgrow⟩ | ⟨-, ⟨keys, -, hgrow⟩ | ⟨-, hgrow⟩⟩ := grow_map_cases k rest es
      · rw [hgrow]
        exact find?_growEntry_of_ne hne rest es
      · rw [hgrow]
        exact find?_added_of_ne hne _
      · rw [hgrow]
    | index | matching => rfl

end Manifest.Tree
