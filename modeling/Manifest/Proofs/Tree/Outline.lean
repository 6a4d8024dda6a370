import Manifest.Proofs.Tree.Position

namespace Manifest.Tree

theorem editTextItems_fst (f : String → Option String) (items : List Tree) :
    (editTextItems f items).1 = items.map fun t => (t.editTexts f).1 := by
  induction items with
  | nil => rfl
  | cons t ts ih => simp [editTextItems, ih]

theorem editTextEntries_fst (f : String → Option String) (es : Entries Tree) :
    (editTextEntries f es).1 = Entries.mapValues (fun t => (t.editTexts f).1) es := by
  induction es with
  | nil => rfl
  | cons e es ih =>
    obtain ⟨k, t⟩ := e
    simp [editTextEntries, Entries.mapValues, ih]

theorem editTexts_list_fst (f : String → Option String) (items : List Tree) :
    ((list items).editTexts f).1 = .list (items.map fun t => (t.editTexts f).1) := by
  rw [← editTextItems_fst]
  rfl

theorem editTexts_map_fst (f : String → Option String) (es : Entries Tree) :
    ((map es).editTexts f).1 = .map (Entries.mapValues (fun t => (t.editTexts f).1) es) := by
  rw [← editTextEntries_fst]
  rfl

def outline (t : Tree) : Tree := (t.editTexts fun _ => some "").1

@[simp] theorem outline_text (s : String) : outline (.text s) = .text "" := rfl

@[simp] theorem outline_list (items : List Tree) :
    outline (.list items) = .list (items.map outline) :=
  editTexts_list_fst _ items

@[simp] theorem outline_map (es : Entries Tree) :
    outline (.map es) = .map (Entries.mapValues outline es) :=
  editTexts_map_fst _ es

mutual

theorem outline_editTexts (f : String → Option String) : (t : Tree) →
    (t.editTexts f).1.outline = t.outline
  | .text s => by
    rw [editTexts]
    cases f s <;> rfl
  | .list items => by
    rw [editTexts_list_fst, outline_list, outline_list, List.map_map, outline_editTextItems f items]
  | .map es => by
    rw [editTexts_map_fst, outline_map, outline_map, Entries.mapValues, Entries.mapValues,
      List.map_map, outline_editTextEntries f es, Entries.mapValues]
  | .null | .boolean _ | .integer _ | .decimal _ => rfl

theorem outline_editTextItems (f : String → Option String) : (items : List Tree) →
    items.map (outline ∘ fun t => (t.editTexts f).1) = items.map outline
  | [] => rfl
  | t :: ts => by
    rw [List.map_cons, List.map_cons, outline_editTextItems f ts, Function.comp_apply,
      outline_editTexts f t]

theorem outline_editTextEntries (f : String → Option String) : (es : List (String × Tree)) →
    es.map ((fun e => (e.1, outline e.2)) ∘ fun e => (e.1, (e.2.editTexts f).1)) =
      es.map fun e => (e.1, outline e.2)
  | [] => rfl
  | (k, t) :: es => by
    rw [List.map_cons, List.map_cons, outline_editTextEntries f es, Function.comp_apply,
      outline_editTexts f t]

end

theorem child?_outline (t : Tree) (s : Step) : t.outline.child? s = (t.child? s).map outline := by
  cases t with
  | map es => cases s <;> simp [child?, Entries.find?_mapValues]
  | list items => cases s <;> simp [child?]
  | _ => cases s <;> rfl

theorem get?_outline (t : Tree) (p : Position) : t.outline.get? p = (t.get? p).map outline := by
  induction p generalizing t with
  | nil => rfl
  | cons s p ih =>
    rw [get?_cons, get?_cons, child?_outline]
    cases t.child? s with
    | none => rfl
    | some u => exact ih u

theorem mapValues_outline_modify {key : String} {f : Tree → Tree} {es : Entries Tree}
    (h : ∀ u, Entries.find? key es = some u → (f u).outline = u.outline) :
    Entries.mapValues outline (Entries.modify key f es) = Entries.mapValues outline es := by
  induction es with
  | nil => rfl
  | cons e es ih =>
    obtain ⟨k, t⟩ := e
    by_cases hk : k = key
    · simp [Entries.modify, Entries.mapValues, hk, h t (by simp [Entries.find?_cons, hk])]
    · simp only [Entries.modify, if_neg hk, Entries.mapValues, List.map_cons, List.cons.injEq,
        true_and]
      exact ih fun u hu => h u (by rwa [Entries.find?_cons, if_neg hk])

theorem outline_modifyChild {f : Tree → Tree} {t : Tree} {s : Step}
    (h : ∀ u, t.child? s = some u → (f u).outline = u.outline) :
    (t.modifyChild f s).outline = t.outline := by
  cases t with
  | map es =>
    cases s with
    | key k =>
      rw [modifyChild, outline_map, outline_map, mapValues_outline_modify fun u hu => h u hu]
    | index i => rfl
  | list items =>
    cases s with
    | key k => rfl
    | index i =>
      rw [modifyChild, outline_list, outline_list]
      congr 1
      refine List.ext_getElem? fun j => ?_
      rw [List.getElem?_map, List.getElem?_modify, List.getElem?_map]
      split
      · rename_i hij
        subst hij
        cases hu : items[i]? with
        | none => rfl
        | some u => simp [h u hu]
      · simp
  | _ => cases s <;> rfl

theorem outline_modify {f : Tree → Tree} {p : Position} {t : Tree}
    (h : ∀ u, t.get? p = some u → (f u).outline = u.outline) :
    (t.modify f p).outline = t.outline := by
  induction p generalizing t with
  | nil => exact h t rfl
  | cons s p ih =>
    rw [modify_cons]
    refine outline_modifyChild fun u hu => ih fun v hv => h v ?_
    rw [get?_cons, hu]
    exact hv

theorem outline_setAll {t u : Tree} (updates : List (Position × Tree))
    (same : u.outline = t.outline)
    (h : ∀ x ∈ updates, (t.get? x.1).map outline = some x.2.outline) :
    (u.setAll updates).outline = t.outline := by
  induction updates generalizing u with
  | nil => exact same
  | cons x xs ih =>
    rw [setAll_cons]
    refine ih ?_ fun y hy => h y (List.mem_cons_of_mem x hy)
    rw [← same]
    refine outline_modify fun v hv => ?_
    have hx := h x List.mem_cons_self
    rw [← get?_outline, ← same, get?_outline, hv] at hx
    exact (Option.some.inj hx).symm

end Manifest.Tree
