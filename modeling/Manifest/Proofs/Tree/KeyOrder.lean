import Manifest.Proofs.Tree.Position
import Manifest.Proofs.Tree.Sorted
import Manifest.Proofs.Tree.Texts

namespace Manifest.Tree

mutual

/-- Equal up to the order of keys, at every level. -/
inductive SameContent : Tree → Tree → Prop
  | scalar {t} : t.isScalar → SameContent t t
  | list {items items'} : SameItems items items' → SameContent (.list items) (.list items')
  | map {es fs fs'} : SameEntries es fs → fs.Perm fs' → SameContent (.map es) (.map fs')

inductive SameItems : List Tree → List Tree → Prop
  | nil : SameItems [] []
  | cons {t u ts us} : SameContent t u → SameItems ts us → SameItems (t :: ts) (u :: us)

inductive SameEntries : List (String × Tree) → List (String × Tree) → Prop
  | nil : SameEntries [] []
  | cons {key t u es fs} : SameContent t u → SameEntries es fs →
    SameEntries ((key, t) :: es) ((key, u) :: fs)

end

mutual

theorem SameContent.sorted_eq : {t u : Tree} → SameContent t u → t.WellFormed → t.sorted = u.sorted
  | _, _, .scalar _, _ => rfl
  | _, _, .list h, wf => congrArg list (h.sortedItems_eq wf)
  | _, _, @SameContent.map es fs fs' h perm, wf => by
    have hvalues : Entries.mapValues sorted es = Entries.mapValues sorted fs := by
      rw [← sortedEntries_eq, ← sortedEntries_eq, h.sortedEntries_eq wf.2]
    have hdistinct : Entries.Distinct fs := by
      rw [← Entries.distinct_mapValues, ← hvalues, Entries.distinct_mapValues]
      exact wf.1
    rw [sorted_map, hvalues, ← sorted_map]
    exact sorted_map_of_perm hdistinct perm

theorem SameItems.sortedItems_eq : {ts us : List Tree} → SameItems ts us → WellFormedItems ts →
    sortedItems ts = sortedItems us
  | _, _, .nil, _ => rfl
  | _, _, .cons h hs, wf => by
    rw [sortedItems, sortedItems, h.sorted_eq wf.1, hs.sortedItems_eq wf.2]

theorem SameEntries.sortedEntries_eq : {es fs : List (String × Tree)} → SameEntries es fs →
    WellFormedEntries es → sortedEntries es = sortedEntries fs
  | _, _, .nil, _ => rfl
  | _, _, .cons h hs, wf => by
    rw [sortedEntries, sortedEntries, h.sorted_eq wf.1, hs.sortedEntries_eq wf.2]

end

theorem exists_perm_of_map_perm {α β : Type} {f : α → β} {xs ys : List α}
    (h : (xs.map f).Perm (ys.map f)) : ∃ zs : List α, zs.Perm ys ∧ xs.map f = zs.map f := by
  have hys : List.Forall₂ (fun b a => b = f a) (ys.map f) ys := by
    rw [List.forall₂_map_left_iff]
    exact List.forall₂_same.2 fun _ _ => rfl
  obtain ⟨zs, hzs, perm⟩ := List.perm_comp_forall₂ h hys
  refine ⟨zs, perm, ?_⟩
  exact List.forall₂_eq_eq_eq ▸ List.forall₂_map_right_iff.2 hzs

mutual

theorem sameContent_of_sorted_eq : (t u : Tree) → t.sorted = u.sorted → SameContent t u
  | .list items, u, h => by
    cases u with
    | list items' => exact .list (sameItems_of_sorted_eq items items' (list.inj h))
    | _ => cases h
  | .map es, u, h => by
    cases u with
    | map fs =>
      rw [sorted_map, sorted_map] at h
      have perm : (Entries.mapValues sorted es).Perm (Entries.mapValues sorted fs) :=
        (Entries.byKey_perm _).symm.trans (map.inj h ▸ Entries.byKey_perm _)
      obtain ⟨gs, hgs, heq⟩ := exists_perm_of_map_perm perm
      refine .map (sameEntries_of_sorted_eq es gs ?_) hgs
      rw [sortedEntries_eq, sortedEntries_eq]
      exact heq
    | _ => cases h
  | .null, u, h | .boolean _, u, h | .integer _, u, h | .decimal _, u, h | .text _, u, h => by
    cases u <;> cases h
    exact .scalar rfl

theorem sameItems_of_sorted_eq : (ts us : List Tree) → sortedItems ts = sortedItems us →
    SameItems ts us
  | [], us, h => by
    cases us with
    | nil => exact .nil
    | cons u us => cases h
  | t :: ts, us, h => by
    cases us with
    | nil => cases h
    | cons u us =>
      rw [sortedItems, sortedItems, List.cons.injEq] at h
      exact .cons (sameContent_of_sorted_eq t u h.1) (sameItems_of_sorted_eq ts us h.2)

theorem sameEntries_of_sorted_eq : (es fs : List (String × Tree)) →
    sortedEntries es = sortedEntries fs → SameEntries es fs
  | [], fs, h => by
    cases fs with
    | nil => exact .nil
    | cons f fs => cases h
  | (k, t) :: es, fs, h => by
    cases fs with
    | nil => cases h
    | cons f fs =>
      obtain ⟨l, u⟩ := f
      rw [sortedEntries, sortedEntries, List.cons.injEq, Prod.mk.injEq] at h
      obtain ⟨⟨rfl, htu⟩, hrest⟩ := h
      exact .cons (sameContent_of_sorted_eq t u htu) (sameEntries_of_sorted_eq es fs hrest)

end

theorem sorted_eq_iff {t u : Tree} (wf : t.WellFormed) :
    t.sorted = u.sorted ↔ SameContent t u :=
  ⟨sameContent_of_sorted_eq t u, fun h => h.sorted_eq wf⟩

theorem SameContent.refl (t : Tree) : SameContent t t := sameContent_of_sorted_eq t t rfl

theorem SameEntries.refl (es : List (String × Tree)) : SameEntries es es :=
  sameEntries_of_sorted_eq es es rfl

theorem wellFormedItems_iff {items : List Tree} :
    WellFormedItems items ↔ ∀ t ∈ items, t.WellFormed := by
  induction items with
  | nil => exact ⟨fun _ => nofun, fun _ => trivial⟩
  | cons t ts ih => rw [WellFormedItems, ih, List.forall_mem_cons]

theorem wellFormedEntries_iff {es : Entries Tree} :
    WellFormedEntries es ↔ ∀ e ∈ es, e.2.WellFormed := by
  induction es with
  | nil => exact ⟨fun _ => nofun, fun _ => trivial⟩
  | cons e es ih => rw [WellFormedEntries, ih, List.forall_mem_cons]

mutual

theorem wellFormed_sorted : (t : Tree) → (t.sorted.WellFormed ↔ t.WellFormed)
  | .list items => wellFormedItems_sorted items
  | .map es => by
    rw [sorted_map, WellFormed, WellFormed, Entries.distinct_byKey, Entries.distinct_mapValues,
      ← wellFormedEntries_sorted es, sortedEntries_eq, wellFormedEntries_iff, wellFormedEntries_iff]
    exact and_congr_right fun _ => forall_congr' fun e => by rw [(Entries.byKey_perm _).mem_iff]
  | .text _ | .null | .boolean _ | .integer _ | .decimal _ => Iff.rfl

theorem wellFormedItems_sorted : (items : List Tree) →
    (WellFormedItems (sortedItems items) ↔ WellFormedItems items)
  | [] => Iff.rfl
  | t :: ts => and_congr (wellFormed_sorted t) (wellFormedItems_sorted ts)

theorem wellFormedEntries_sorted : (es : List (String × Tree)) →
    (WellFormedEntries (sortedEntries es) ↔ WellFormedEntries es)
  | [] => Iff.rfl
  | (_, t) :: es => and_congr (wellFormed_sorted t) (wellFormedEntries_sorted es)

end

mutual

theorem sorted_sorted : (t : Tree) → t.sorted.sorted = t.sorted
  | .list items => congrArg list (sortedItems_sortedItems items)
  | .map es => by
    have hvalues := sortedEntries_sortedEntries es
    rw [sortedEntries_eq, sortedEntries_eq] at hvalues
    rw [sorted_map, sorted_map, ← Entries.byKey_mapValues, hvalues, Entries.byKey_byKey]
  | .text _ | .null | .boolean _ | .integer _ | .decimal _ => rfl

theorem sortedItems_sortedItems : (items : List Tree) →
    sortedItems (sortedItems items) = sortedItems items
  | [] => rfl
  | t :: ts => by
    rw [sortedItems, sortedItems, sorted_sorted t, sortedItems_sortedItems ts]

theorem sortedEntries_sortedEntries : (es : List (String × Tree)) →
    sortedEntries (sortedEntries es) = sortedEntries es
  | [] => rfl
  | (k, t) :: es => by
    rw [sortedEntries, sortedEntries, sorted_sorted t, sortedEntries_sortedEntries es]

end

theorem sorted_map_mapValues (es : Entries Tree) :
    (map (Entries.mapValues sorted es)).sorted = (map es).sorted := by
  have hvalues := sortedEntries_sortedEntries es
  rw [sortedEntries_eq, sortedEntries_eq] at hvalues
  rw [sorted_map, sorted_map, hvalues]

theorem SameContent.wellFormed {t u : Tree} (h : SameContent t u) (wf : t.WellFormed) :
    u.WellFormed := by
  rw [← wellFormed_sorted, ← h.sorted_eq wf]
  exact (wellFormed_sorted t).2 wf

theorem text?_sorted (t : Tree) : t.sorted.text? = t.text? := by cases t <;> rfl

theorem string?_sorted (t : Tree) : t.sorted.string? = t.string? := by cases t <;> rfl

theorem child?_sorted {t : Tree} (wf : t.WellFormed) (s : Step) :
    t.sorted.child? s = (t.child? s).map sorted := by
  cases t with
  | list items => cases s <;> simp [sorted_list, child?]
  | map es =>
    cases s with
    | index i => rfl
    | key k =>
      rw [sorted_map, child?, Entries.find?_byKey (Entries.distinct_mapValues.2 wf.1),
        Entries.find?_mapValues]
      rfl
  | _ => cases s <;> rfl

theorem get?_sorted {t : Tree} (wf : t.WellFormed) (p : Position) :
    t.sorted.get? p = (t.get? p).map sorted := by
  induction p generalizing t with
  | nil => rfl
  | cons s p ih =>
    rw [get?_cons, get?_cons, child?_sorted wf]
    cases h : t.child? s with
    | none => rfl
    | some u => exact ih (wellFormed_child? wf h)

theorem field?_sorted {t : Tree} (wf : t.WellFormed) (key : String) :
    t.sorted.field? key = (t.field? key).map sorted := by
  rw [field?_eq_child?, field?_eq_child?, child?_sorted wf]

theorem fieldText_sorted {t : Tree} (wf : t.WellFormed) (key : String) :
    t.sorted.fieldText key = t.fieldText key := by
  rw [fieldText, fieldText, field?_sorted wf, Option.bind_map]
  simp only [Function.comp_def, string?_sorted]

theorem sorted_modifyChild {f g : Tree → Tree} (h : ∀ u, u.WellFormed → (f u).sorted = g u.sorted)
    {t : Tree} (wf : t.WellFormed) (s : Step) :
    (t.modifyChild f s).sorted = t.sorted.modifyChild g s := by
  cases t with
  | list items =>
    cases s with
    | key k => rfl
    | index i =>
      rw [modifyChild, sorted_list, sorted_list, modifyChild]
      refine congrArg list (List.ext_getElem? fun j => ?_)
      rw [List.getElem?_map, List.getElem?_modify, List.getElem?_modify, List.getElem?_map]
      cases hu : items[j]? with
      | none => rfl
      | some u =>
        have := h u (wellFormedItems_iff.1 wf u (List.mem_of_getElem? hu))
        split <;> simp [this]
  | map es =>
    cases s with
    | index i => rfl
    | key k =>
      have hvalues : Entries.mapValues sorted (Entries.modify k f es) =
          Entries.modify k g (Entries.mapValues sorted es) := by
        rw [Entries.modify_eq_map wf.1, Entries.modify_eq_map (Entries.distinct_mapValues.2 wf.1),
          Entries.mapValues, Entries.mapValues, List.map_map, List.map_map]
        refine List.map_congr_left fun e he => ?_
        have := h e.2 (wellFormedEntries_iff.1 wf.2 e he)
        simp only [Function.comp_apply]
        split <;> simp [this]
      rw [modifyChild, sorted_map, sorted_map, hvalues, modifyChild,
        Entries.byKey_modify (Entries.distinct_mapValues.2 wf.1)]
  | _ => cases s <;> rfl

theorem sorted_modify {f g : Tree → Tree} (h : ∀ u, u.WellFormed → (f u).sorted = g u.sorted)
    {t : Tree} (wf : t.WellFormed) (p : Position) :
    (t.modify f p).sorted = t.sorted.modify g p := by
  induction p generalizing t with
  | nil => exact h t wf
  | cons s p ih =>
    rw [modify_cons, modify_cons]
    exact sorted_modifyChild (fun u hu => ih hu) wf s

theorem wellFormed_modifyChild {f : Tree → Tree} (h : ∀ u, u.WellFormed → (f u).WellFormed)
    {t : Tree} (wf : t.WellFormed) (s : Step) : (t.modifyChild f s).WellFormed := by
  cases t with
  | list items =>
    cases s with
    | key k => exact wf
    | index i =>
      refine wellFormedItems_iff.2 fun u hu => ?_
      obtain ⟨j, hj⟩ := List.mem_iff_getElem?.1 hu
      rw [List.getElem?_modify] at hj
      obtain ⟨v, hv, rfl⟩ := Option.map_eq_some_iff.1 hj
      have hwf := wellFormedItems_iff.1 wf v (List.mem_of_getElem? hv)
      split
      · exact h v hwf
      · exact hwf
  | map es =>
    cases s with
    | index i => exact wf
    | key k =>
      refine ⟨?_, wellFormedEntries_iff.2 fun e he => ?_⟩
      · rw [Entries.Distinct, Entries.keys_modify]
        exact wf.1
      · rw [Entries.modify_eq_map wf.1] at he
        obtain ⟨e', he', rfl⟩ := List.mem_map.1 he
        have hwf := wellFormedEntries_iff.1 wf.2 e' he'
        split
        · exact h e'.2 hwf
        · exact hwf
  | _ => cases s <;> exact wf

theorem wellFormed_modify {f : Tree → Tree} (h : ∀ u, u.WellFormed → (f u).WellFormed)
    {t : Tree} (wf : t.WellFormed) (p : Position) : (t.modify f p).WellFormed := by
  induction p generalizing t with
  | nil => exact h t wf
  | cons s p ih =>
    rw [modify_cons]
    exact wellFormed_modifyChild (fun u hu => ih hu) wf s

theorem sorted_foldl_modify {f : Tree → Tree} (h : ∀ u, u.WellFormed → (f u).sorted = f u.sorted)
    (wellFormed : ∀ u, u.WellFormed → (f u).WellFormed) (ps : List Position) {t : Tree}
    (wf : t.WellFormed) :
    (ps.foldl (fun acc p => acc.modify f p) t).sorted =
      ps.foldl (fun acc p => acc.modify f p) t.sorted := by
  induction ps generalizing t with
  | nil => rfl
  | cons p ps ih =>
    rw [List.foldl_cons, List.foldl_cons, ih (wellFormed_modify wellFormed wf p),
      sorted_modify h wf]

theorem wellFormed_foldl_modify {f : Tree → Tree}
    (h : ∀ u, u.WellFormed → (f u).WellFormed) (ps : List Position) {t : Tree}
    (wf : t.WellFormed) : (ps.foldl (fun acc p => acc.modify f p) t).WellFormed := by
  induction ps generalizing t with
  | nil => exact wf
  | cons p ps ih => exact ih (wellFormed_modify h wf p)

end Manifest.Tree
