import Manifest.Proofs.Tree.Outline

namespace Manifest.Tree

def under (s : Step) (x : Position × String) : Position × String := (s :: x.1, x.2)

mutual

def texts : Tree → List (Position × String)
  | .text s => [([], s)]
  | .list items => textItems 0 items
  | .map es => textEntries es
  | _ => []

def textItems (i : Nat) : List Tree → List (Position × String)
  | [] => []
  | t :: ts => (texts t).map (under (.index i)) ++ textItems (i + 1) ts

def textEntries : List (String × Tree) → List (Position × String)
  | [] => []
  | (k, t) :: es => (texts t).map (under (.key k)) ++ textEntries es

end

mutual

def mapTexts (f : Position → String → String) : Tree → Tree
  | .text s => .text (f [] s)
  | .list items => .list (mapTextItems f 0 items)
  | .map es => .map (mapTextEntries f es)
  | t => t

def mapTextItems (f : Position → String → String) (i : Nat) : List Tree → List Tree
  | [] => []
  | t :: ts => mapTexts (fun p => f (.index i :: p)) t :: mapTextItems f (i + 1) ts

def mapTextEntries (f : Position → String → String) : List (String × Tree) → List (String × Tree)
  | [] => []
  | (k, t) :: es => (k, mapTexts (fun p => f (.key k :: p)) t) :: mapTextEntries f es

end

mutual

theorem texts_mapTexts (f : Position → String → String) : (t : Tree) →
    (t.mapTexts f).texts = t.texts.map fun x => (x.1, f x.1 x.2)
  | .text _ => rfl
  | .list items => textItems_mapTextItems f 0 items
  | .map es => textEntries_mapTextEntries f es
  | .null | .boolean _ | .integer _ | .decimal _ => rfl

theorem textItems_mapTextItems (f : Position → String → String) (i : Nat) : (items : List Tree) →
    textItems i (mapTextItems f i items) = (textItems i items).map fun x => (x.1, f x.1 x.2)
  | [] => rfl
  | t :: ts => by
    rw [mapTextItems, textItems, textItems, texts_mapTexts, textItems_mapTextItems f (i + 1) ts,
      List.map_append, List.map_map, List.map_map]
    rfl

theorem textEntries_mapTextEntries (f : Position → String → String) :
    (es : List (String × Tree)) →
    textEntries (mapTextEntries f es) = (textEntries es).map fun x => (x.1, f x.1 x.2)
  | [] => rfl
  | (k, t) :: es => by
    rw [mapTextEntries, textEntries, textEntries, texts_mapTexts, textEntries_mapTextEntries f es,
      List.map_append, List.map_map, List.map_map]
    rfl

end

mutual

theorem mapTexts_mapTexts (f g : Position → String → String) : (t : Tree) →
    (t.mapTexts f).mapTexts g = t.mapTexts fun p s => g p (f p s)
  | .text _ => rfl
  | .list items => congrArg list (mapTextItems_mapTextItems f g 0 items)
  | .map es => congrArg map (mapTextEntries_mapTextEntries f g es)
  | .null | .boolean _ | .integer _ | .decimal _ => rfl

theorem mapTextItems_mapTextItems (f g : Position → String → String) (i : Nat) :
    (items : List Tree) →
    mapTextItems g i (mapTextItems f i items) = mapTextItems (fun p s => g p (f p s)) i items
  | [] => rfl
  | t :: ts => by
    rw [mapTextItems, mapTextItems, mapTextItems, mapTexts_mapTexts,
      mapTextItems_mapTextItems f g (i + 1) ts]

theorem mapTextEntries_mapTextEntries (f g : Position → String → String) :
    (es : List (String × Tree)) →
    mapTextEntries g (mapTextEntries f es) = mapTextEntries (fun p s => g p (f p s)) es
  | [] => rfl
  | (k, t) :: es => by
    rw [mapTextEntries, mapTextEntries, mapTextEntries, mapTexts_mapTexts,
      mapTextEntries_mapTextEntries f g es]

end

mutual

theorem mapTexts_congr {f g : Position → String → String} : (t : Tree) →
    (∀ x ∈ t.texts, f x.1 x.2 = g x.1 x.2) → t.mapTexts f = t.mapTexts g
  | .text s, h => congrArg text (h ([], s) List.mem_cons_self)
  | .list items, h => congrArg list (mapTextItems_congr 0 items h)
  | .map es, h => congrArg map (mapTextEntries_congr es h)
  | .null, _ | .boolean _, _ | .integer _, _ | .decimal _, _ => rfl

theorem mapTextItems_congr {f g : Position → String → String} (i : Nat) : (items : List Tree) →
    (∀ x ∈ textItems i items, f x.1 x.2 = g x.1 x.2) →
    mapTextItems f i items = mapTextItems g i items
  | [], _ => rfl
  | t :: ts, h => by
    rw [textItems, List.forall_mem_append, List.forall_mem_map] at h
    rw [mapTextItems, mapTextItems, mapTextItems_congr (i + 1) ts h.2]
    exact congrArg (· :: _) (mapTexts_congr t h.1)

theorem mapTextEntries_congr {f g : Position → String → String} : (es : List (String × Tree)) →
    (∀ x ∈ textEntries es, f x.1 x.2 = g x.1 x.2) → mapTextEntries f es = mapTextEntries g es
  | [], _ => rfl
  | (k, t) :: es, h => by
    rw [textEntries, List.forall_mem_append, List.forall_mem_map] at h
    rw [mapTextEntries, mapTextEntries, mapTextEntries_congr es h.2]
    exact congrArg (fun u => (k, u) :: _) (mapTexts_congr t h.1)

end

mutual

theorem mapTexts_id : (t : Tree) → t.mapTexts (fun _ s => s) = t
  | .list items => congrArg list (mapTextItems_id 0 items)
  | .map es => congrArg map (mapTextEntries_id es)
  | .text _ | .null | .boolean _ | .integer _ | .decimal _ => rfl

theorem mapTextItems_id (i : Nat) : (items : List Tree) →
    mapTextItems (fun _ s => s) i items = items
  | [] => rfl
  | t :: ts => by rw [mapTextItems, mapTexts_id t, mapTextItems_id (i + 1) ts]

theorem mapTextEntries_id : (es : List (String × Tree)) → mapTextEntries (fun _ s => s) es = es
  | [] => rfl
  | (k, t) :: es => by rw [mapTextEntries, mapTexts_id t, mapTextEntries_id es]

end

theorem mapTexts_eq_self {f : Position → String → String} {t : Tree}
    (h : ∀ x ∈ t.texts, f x.1 x.2 = x.2) : t.mapTexts f = t :=
  (mapTexts_congr t h).trans (mapTexts_id t)

mutual

theorem editTexts_eq (f : String → Option String) : (t : Tree) →
    t.editTexts f = (t.mapTexts fun _ s => (f s).getD s, t.texts.countP fun x => (f x.2).isSome)
  | .text s => by
    rw [editTexts]
    cases h : f s <;> simp [mapTexts, texts, h]
  | .list items => by
    rw [editTexts, editTextItems_eq f 0 items]
    rfl
  | .map es => by
    rw [editTexts, editTextEntries_eq f es]
    rfl
  | .null | .boolean _ | .integer _ | .decimal _ => rfl

theorem editTextItems_eq (f : String → Option String) (i : Nat) : (items : List Tree) →
    editTextItems f items = (mapTextItems (fun _ s => (f s).getD s) i items,
      (textItems i items).countP fun x => (f x.2).isSome)
  | [] => rfl
  | t :: ts => by
    rw [editTextItems, editTexts_eq f t, editTextItems_eq f (i + 1) ts, textItems,
      List.countP_append, List.countP_map]
    rfl

theorem editTextEntries_eq (f : String → Option String) : (es : List (String × Tree)) →
    editTextEntries f es = (mapTextEntries (fun _ s => (f s).getD s) es,
      (textEntries es).countP fun x => (f x.2).isSome)
  | [] => rfl
  | (k, t) :: es => by
    rw [editTextEntries, editTexts_eq f t, editTextEntries_eq f es, textEntries,
      List.countP_append, List.countP_map]
    rfl

end

theorem outline_eq_mapTexts (t : Tree) : t.outline = t.mapTexts fun _ _ => "" := by
  rw [outline, editTexts_eq]
  rfl

@[simp] theorem outline_mapTexts (f : Position → String → String) (t : Tree) :
    (t.mapTexts f).outline = t.outline := by
  rw [outline_eq_mapTexts, mapTexts_mapTexts, outline_eq_mapTexts]

mutual

def decideWellFormed : (t : Tree) → Decidable t.WellFormed
  | .list items => decideWellFormedItems items
  | .map es =>
    have : Decidable (WellFormedEntries es) := decideWellFormedEntries es
    inferInstanceAs (Decidable ((Entries.keys es).Nodup ∧ WellFormedEntries es))
  | .text _ | .null | .boolean _ | .integer _ | .decimal _ => isTrue trivial

def decideWellFormedItems : (items : List Tree) → Decidable (WellFormedItems items)
  | [] => isTrue trivial
  | t :: ts =>
    have : Decidable t.WellFormed := decideWellFormed t
    have : Decidable (WellFormedItems ts) := decideWellFormedItems ts
    inferInstanceAs (Decidable (t.WellFormed ∧ WellFormedItems ts))

def decideWellFormedEntries : (es : List (String × Tree)) → Decidable (WellFormedEntries es)
  | [] => isTrue trivial
  | (_, t) :: es =>
    have : Decidable t.WellFormed := decideWellFormed t
    have : Decidable (WellFormedEntries es) := decideWellFormedEntries es
    inferInstanceAs (Decidable (t.WellFormed ∧ WellFormedEntries es))

end

instance (t : Tree) : Decidable t.WellFormed := decideWellFormed t

theorem keys_mapTextEntries (f : Position → String → String) (es : Entries Tree) :
    Entries.keys (mapTextEntries f es) = es.keys := by
  induction es with
  | nil => rfl
  | cons e es ih => exact congrArg (e.1 :: ·) ih

mutual

theorem wellFormed_mapTexts (f : Position → String → String) : (t : Tree) →
    ((t.mapTexts f).WellFormed ↔ t.WellFormed)
  | .list items => wellFormedItems_mapTexts f 0 items
  | .map es => by
    rw [mapTexts, WellFormed, WellFormed, Entries.Distinct, keys_mapTextEntries,
      wellFormedEntries_mapTexts f es, Entries.Distinct]
  | .text _ | .null | .boolean _ | .integer _ | .decimal _ => Iff.rfl

theorem wellFormedItems_mapTexts (f : Position → String → String) (i : Nat) :
    (items : List Tree) → (WellFormedItems (mapTextItems f i items) ↔ WellFormedItems items)
  | [] => Iff.rfl
  | t :: ts => and_congr (wellFormed_mapTexts _ t) (wellFormedItems_mapTexts f (i + 1) ts)

theorem wellFormedEntries_mapTexts (f : Position → String → String) :
    (es : List (String × Tree)) → (WellFormedEntries (mapTextEntries f es) ↔ WellFormedEntries es)
  | [] => Iff.rfl
  | (_, t) :: es => and_congr (wellFormed_mapTexts _ t) (wellFormedEntries_mapTexts f es)

end

theorem wellFormed_of_outline {t u : Tree} (h : t.outline = u.outline) (wf : t.WellFormed) :
    u.WellFormed := by
  rw [outline_eq_mapTexts, outline_eq_mapTexts] at h
  rwa [← wellFormed_mapTexts fun _ _ => "", ← h, wellFormed_mapTexts]

theorem wellFormed_child? {t u : Tree} {s : Step} (wf : t.WellFormed) (h : t.child? s = some u) :
    u.WellFormed := by
  cases t with
  | list items =>
    cases s with
    | key k => cases h
    | index i =>
      rw [child?] at h
      rw [WellFormed] at wf
      induction items generalizing i with
      | nil => cases h
      | cons v vs ih =>
        cases i with
        | zero => exact Option.some.inj h ▸ wf.1
        | succ i => exact ih wf.2 i h
  | map es =>
    cases s with
    | index i => cases h
    | key k =>
      rw [child?] at h
      replace wf := wf.2
      induction es with
      | nil => cases h
      | cons e es ih =>
        obtain ⟨k', v⟩ := e
        rw [Entries.find?_cons] at h
        split at h
        · exact Option.some.inj h ▸ wf.1
        · exact ih h wf.2
  | _ => cases s <;> cases h

theorem wellFormed_get? {t u : Tree} {p : Position} (wf : t.WellFormed) (h : t.get? p = some u) :
    u.WellFormed := by
  induction p generalizing t with
  | nil => exact Option.some.inj h ▸ wf
  | cons s p ih =>
    rw [get?_cons] at h
    obtain ⟨v, hv, h⟩ := Option.bind_eq_some_iff.1 h
    exact ih (wellFormed_child? wf hv) h

theorem length_mapTextItems (f : Position → String → String) (i : Nat) (items : List Tree) :
    (mapTextItems f i items).length = items.length := by
  induction items generalizing i with
  | nil => rfl
  | cons t ts ih => exact congrArg (· + 1) (ih (i + 1))

theorem getElem?_mapTextItems (f : Position → String → String) (i j : Nat) (items : List Tree) :
    (mapTextItems f i items)[j]? = items[j]?.map (mapTexts fun p => f (.index (i + j) :: p)) := by
  induction items generalizing i j with
  | nil => rfl
  | cons t ts ih =>
    cases j with
    | zero => rfl
    | succ j =>
      rw [mapTextItems, List.getElem?_cons_succ, ih, List.getElem?_cons_succ]
      simp only [Nat.add_assoc, Nat.add_comm 1 j]

theorem find?_mapTextEntries (f : Position → String → String) (k : String) (es : Entries Tree) :
    Entries.find? k (mapTextEntries f es) =
      (Entries.find? k es).map (mapTexts fun p => f (.key k :: p)) := by
  induction es with
  | nil => rfl
  | cons e es ih =>
    obtain ⟨k', t⟩ := e
    rw [mapTextEntries, Entries.find?_cons, Entries.find?_cons, ih]
    by_cases h : k' = k
    · rw [if_pos h, if_pos h, h]
      rfl
    · rw [if_neg h, if_neg h]

theorem child?_mapTexts (f : Position → String → String) (t : Tree) (s : Step) :
    (t.mapTexts f).child? s = (t.child? s).map (mapTexts fun p => f (s :: p)) := by
  cases t with
  | list items =>
    cases s with
    | key k => rfl
    | index i => simpa [mapTexts, child?] using getElem?_mapTextItems f 0 i items
  | map es =>
    cases s with
    | key k => exact find?_mapTextEntries f k es
    | index i => rfl
  | _ => cases s <;> rfl

theorem get?_mapTexts (f : Position → String → String) (t : Tree) (p : Position) :
    (t.mapTexts f).get? p = (t.get? p).map (mapTexts fun q => f (p ++ q)) := by
  induction p generalizing t f with
  | nil => rfl
  | cons s p ih =>
    rw [get?_cons, get?_cons, child?_mapTexts]
    cases t.child? s with
    | none => rfl
    | some u => exact ih _ u

theorem head_textItems {i : Nat} {items : List Tree} {x : Position × String}
    (h : x ∈ textItems i items) : ∃ n p, i ≤ n ∧ x.1 = .index n :: p := by
  induction items generalizing i with
  | nil => cases h
  | cons t ts ih =>
    rcases List.mem_append.1 h with h | h
    · obtain ⟨y, -, rfl⟩ := List.mem_map.1 h
      exact ⟨i, y.1, Nat.le_refl i, rfl⟩
    · obtain ⟨n, p, hn, hx⟩ := ih h
      exact ⟨n, p, by omega, hx⟩

theorem head_textEntries {es : Entries Tree} {x : Position × String}
    (h : x ∈ textEntries es) : ∃ k p, k ∈ es.keys ∧ x.1 = .key k :: p := by
  induction es with
  | nil => cases h
  | cons e es ih =>
    rcases List.mem_append.1 h with h | h
    · obtain ⟨y, -, rfl⟩ := List.mem_map.1 h
      exact ⟨e.1, y.1, List.mem_cons_self, rfl⟩
    · obtain ⟨k, p, hk, hx⟩ := ih h
      exact ⟨k, p, List.mem_cons_of_mem _ hk, hx⟩

def textsAt (p : Position) (xs : List (Position × String)) : List (Position × String) :=
  xs.filter fun x => p.isPrefixOf x.1

theorem textsAt_append (p : Position) (xs ys : List (Position × String)) :
    textsAt p (xs ++ ys) = textsAt p xs ++ textsAt p ys := List.filter_append ..

theorem textsAt_map_under_self (s : Step) (p : Position) (xs : List (Position × String)) :
    textsAt (s :: p) (xs.map (under s)) = (textsAt p xs).map (under s) := by
  rw [textsAt, List.filter_map, textsAt]
  congr 2
  funext x
  simp [under]

theorem textsAt_eq_nil {s : Step} {p : Position} {xs : List (Position × String)}
    (h : ∀ x ∈ xs, ∃ s' q, s' ≠ s ∧ x.1 = s' :: q) : textsAt (s :: p) xs = [] := by
  refine List.filter_eq_nil_iff.2 fun x hx => ?_
  obtain ⟨s', q, hne, hxq⟩ := h x hx
  simp [hxq, Ne.symm hne]

theorem textsAt_map_under_of_ne {s s' : Step} (h : s' ≠ s) (p : Position)
    (xs : List (Position × String)) : textsAt (s :: p) (xs.map (under s')) = [] := by
  refine textsAt_eq_nil fun x hx => ?_
  obtain ⟨y, -, rfl⟩ := List.mem_map.1 hx
  exact ⟨s', y.1, h, rfl⟩

theorem textsAt_textItems (n : Nat) (p : Position) (i : Nat) (items : List Tree) :
    textsAt (.index (i + n) :: p) (textItems i items) =
      items[n]?.elim [] fun u => (textsAt p u.texts).map (under (.index (i + n))) := by
  induction items generalizing i n with
  | nil => rfl
  | cons t ts ih =>
    rw [textItems, textsAt_append]
    cases n with
    | zero =>
      rw [Nat.add_zero, textsAt_map_under_self, textsAt_eq_nil, List.append_nil]
      · rfl
      · intro x hx
        obtain ⟨n, q, hn, hxq⟩ := head_textItems hx
        exact ⟨.index n, q, by simp; omega, hxq⟩
    | succ n =>
      rw [textsAt_map_under_of_ne (by simp), List.nil_append, List.getElem?_cons_succ,
        show i + (n + 1) = i + 1 + n by omega, ih]

theorem textsAt_textEntries (k : String) (p : Position) {es : Entries Tree}
    (distinct : Entries.Distinct es) :
    textsAt (.key k :: p) (textEntries es) =
      (Entries.find? k es).elim [] fun u => (textsAt p u.texts).map (under (.key k)) := by
  induction es with
  | nil => rfl
  | cons e es ih =>
    obtain ⟨k', t⟩ := e
    obtain ⟨hk', hes⟩ := List.nodup_cons.1 distinct
    rw [textEntries, textsAt_append, Entries.find?_cons]
    by_cases h : k' = k
    · subst h
      rw [if_pos rfl, textsAt_map_under_self, textsAt_eq_nil, List.append_nil]
      · rfl
      · intro x hx
        obtain ⟨k, q, hk, hxq⟩ := head_textEntries hx
        exact ⟨.key k, q, fun heq => hk' (Step.key.inj heq ▸ hk), hxq⟩
    · rw [if_neg h, textsAt_map_under_of_ne (by simpa using h), List.nil_append, ih hes]

theorem textsAt_cons {t : Tree} (wf : t.WellFormed) (s : Step) (p : Position) :
    textsAt (s :: p) t.texts =
      (t.child? s).elim [] fun u => (textsAt p u.texts).map (under s) := by
  cases t with
  | list items =>
    cases s with
    | index i => simpa [texts, child?] using textsAt_textItems i p 0 items
    | key k =>
      refine textsAt_eq_nil fun x hx => ?_
      obtain ⟨n, q, -, hxq⟩ := head_textItems hx
      exact ⟨.index n, q, by simp, hxq⟩
  | map es =>
    cases s with
    | key k => exact textsAt_textEntries k p wf.1
    | index i =>
      refine textsAt_eq_nil fun x hx => ?_
      obtain ⟨k, q, -, hxq⟩ := head_textEntries hx
      exact ⟨.key k, q, by simp, hxq⟩
  | _ => cases s <;> rfl

theorem textsAt_texts {t : Tree} (wf : t.WellFormed) (p : Position) :
    textsAt p t.texts = (t.get? p).elim [] fun u => u.texts.map fun x => (p ++ x.1, x.2) := by
  induction p generalizing t with
  | nil => simp [textsAt]
  | cons s p ih =>
    rw [textsAt_cons wf, get?_cons]
    cases h : t.child? s with
    | none => rfl
    | some u =>
      rw [Option.elim_some, ih (wellFormed_child? wf h), Option.bind_some]
      cases u.get? p with
      | none => rfl
      | some v =>
        rw [Option.elim_some, Option.elim_some, List.map_map]
        rfl

theorem eq_text_of_mem_texts {t : Tree} {s : String} (h : ([], s) ∈ t.texts) : t = .text s := by
  cases t with
  | text s' =>
    obtain rfl : s = s' := by simpa [texts] using h
    rfl
  | list items =>
    obtain ⟨_, _, -, heq⟩ := head_textItems h
    cases heq
  | map es =>
    obtain ⟨_, _, -, heq⟩ := head_textEntries h
    cases heq
  | _ => cases h

theorem mem_texts_iff {t : Tree} (wf : t.WellFormed) {p : Position} {s : String} :
    (p, s) ∈ t.texts ↔ t.get? p = some (.text s) := by
  have hat : (p, s) ∈ t.texts ↔ (p, s) ∈ textsAt p t.texts := by
    simp [textsAt]
  rw [hat, textsAt_texts wf]
  cases t.get? p with
  | none => simp
  | some u =>
    simp only [Option.elim_some, List.mem_map, Prod.mk.injEq, List.append_right_eq_self,
      Prod.exists, Option.some.injEq]
    constructor
    · rintro ⟨_, _, hmem, rfl, rfl⟩
      exact eq_text_of_mem_texts hmem
    · rintro rfl
      exact ⟨[], s, List.mem_cons_self, rfl, rfl⟩

theorem eq_mapTexts_of_outline {t u : Tree} {f : Position → String → String} (wf : t.WellFormed)
    (same : u.outline = t.outline)
    (h : ∀ x ∈ t.texts, u.get? x.1 = some (.text (f x.1 x.2))) : u = t.mapTexts f := by
  have wf' : u.WellFormed := wellFormed_of_outline same.symm wf
  let read : Position → String → String := fun p _ => ((u.get? p).bind string?).getD ""
  have hread : u.mapTexts read = u := mapTexts_eq_self fun x hx => by
    simp only [read]
    rw [(mem_texts_iff wf').1 hx]
    rfl
  calc u = (u.mapTexts fun _ _ => "").mapTexts read := by rw [mapTexts_mapTexts]; exact hread.symm
    _ = (t.mapTexts fun _ _ => "").mapTexts read := by
      rw [← outline_eq_mapTexts, same, outline_eq_mapTexts]
    _ = t.mapTexts read := mapTexts_mapTexts _ _ t
    _ = t.mapTexts f := mapTexts_congr t fun x hx => by
      simp only [read]
      rw [h x hx]
      rfl

end Manifest.Tree
