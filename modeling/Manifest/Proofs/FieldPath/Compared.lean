import Manifest.FieldPath.Walk
import Manifest.Proofs.Tree.Texts

namespace Manifest.Tree

def comparisons (i : Nat) : Segment → List (Position × String)
  | .matching key value => [([.index i, .key key], value)]
  | _ => []

mutual

/-- The positions that the segments compare, with the texts they compare them to. -/
def compared : Tree → List Segment → List (Position × String)
  | .list items, s :: rest => comparedItems s (afterList s rest) 0 items
  | .map es, .field key :: rest => comparedEntry key rest es
  | _, _ => []

def comparedItems (s : Segment) (segments : List Segment) (i : Nat) :
    List Tree → List (Position × String)
  | [] => []
  | t :: ts =>
    comparisons i s ++ (if picks s i t then (compared t segments).map (under (.index i)) else []) ++
      comparedItems s segments (i + 1) ts

def comparedEntry (key : String) (segments : List Segment) :
    List (String × Tree) → List (Position × String)
  | [] => []
  | (k, t) :: es =>
    if k = key then (compared t segments).map (under (.key key)) else comparedEntry key segments es

end

theorem mem_of_mem_afterList {s s' : Segment} {rest : List Segment} (h : s' ∈ afterList s rest) :
    s' ∈ s :: rest := by
  cases s with
  | field _ => exact h
  | _ => exact List.mem_cons_of_mem _ h

mutual

theorem compared_eq_nil : (t : Tree) → (segments : List Segment) →
    (∀ s ∈ segments, ∀ i, comparisons i s = []) → t.compared segments = []
  | .list items, s :: rest, h =>
    comparedItems_eq_nil s (afterList s rest) 0 items (h s List.mem_cons_self)
      fun s' hs' => h s' (mem_of_mem_afterList hs')
  | .map es, .field key :: rest, h =>
    comparedEntry_eq_nil key rest es fun s hs => h s (List.mem_cons_of_mem _ hs)
  | .map _, [], _ | .map _, .index _ :: _, _ | .map _, .matching _ _ :: _, _ => rfl
  | .list _, [], _ | .text _, _, _ | .null, _, _ | .boolean _, _, _ | .integer _, _, _
  | .decimal _, _, _ => rfl

theorem comparedItems_eq_nil (s : Segment) (segments : List Segment) (i : Nat) :
    (items : List Tree) → (∀ i, comparisons i s = []) →
    (∀ s ∈ segments, ∀ i, comparisons i s = []) → comparedItems s segments i items = []
  | [], _, _ => rfl
  | t :: ts, hs, h => by
    rw [comparedItems, hs i, compared_eq_nil t segments h,
      comparedItems_eq_nil s segments (i + 1) ts hs h, List.map_nil, ite_self]
    rfl

theorem comparedEntry_eq_nil (key : String) (segments : List Segment) :
    (es : List (String × Tree)) → (∀ s ∈ segments, ∀ i, comparisons i s = []) →
    comparedEntry key segments es = []
  | [], _ => rfl
  | (k, t) :: es, h => by
    rw [comparedEntry, compared_eq_nil t segments h, comparedEntry_eq_nil key segments es h,
      List.map_nil, ite_self]

end

def Keeps (f : Position → String → String) (cs xs : List (Position × String)) : Prop :=
  ∀ c ∈ cs, ∀ x ∈ xs, x.1 = c.1 → (f x.1 x.2 = c.2 ↔ x.2 = c.2)

instance (f : Position → String → String) (cs xs : List (Position × String)) :
    Decidable (Keeps f cs xs) :=
  inferInstanceAs (Decidable (∀ c ∈ cs, ∀ x ∈ xs, x.1 = c.1 → (f x.1 x.2 = c.2 ↔ x.2 = c.2)))

theorem Keeps.mono {f : Position → String → String} {cs cs' xs xs' : List (Position × String)}
    (h : Keeps f cs xs) (hcs : cs' ⊆ cs) (hxs : xs' ⊆ xs) : Keeps f cs' xs' :=
  fun c hc x hx => h c (hcs hc) x (hxs hx)

theorem Keeps.below {f : Position → String → String} {s : Step} {cs xs : List (Position × String)}
    (h : Keeps f (cs.map (under s)) (xs.map (under s))) : Keeps (fun p => f (s :: p)) cs xs :=
  fun _ hc _ hx heq => h _ (List.mem_map_of_mem hc) _ (List.mem_map_of_mem hx)
    (congrArg (s :: ·) heq)

theorem hasField_mapTexts {f : Position → String → String} {t : Tree} (wf : t.WellFormed)
    {key value : String} (h : Keeps f [([.key key], value)] t.texts) :
    (t.mapTexts f).hasField key value = t.hasField key value := by
  rw [hasField, hasField, field?_eq_child?, field?_eq_child?, child?_mapTexts]
  cases hu : t.child? (.key key) with
  | none => rfl
  | some u =>
    cases u with
    | text s =>
      have hmem : ([.key key], s) ∈ t.texts := (mem_texts_iff wf).2 (by rw [get?_cons, hu]; rfl)
      have hsame : f [.key key] s = value ↔ s = value := h _ List.mem_cons_self _ hmem rfl
      simpa [mapTexts, text?] using hsame
    | _ => rfl

theorem picks_mapTexts {f : Position → String → String} {t : Tree} (wf : t.WellFormed)
    {s : Segment} {i : Nat} (h : Keeps f (comparisons i s) (t.texts.map (under (.index i)))) :
    picks s i (t.mapTexts fun p => f (.index i :: p)) = picks s i t := by
  cases s with
  | matching key value => exact hasField_mapTexts wf (Keeps.below (s := .index i) h)
  | _ => rfl

mutual

theorem addressed_mapTexts (spread : Bool) {f : Position → String → String} : (t : Tree) →
    t.WellFormed → (segments : List Segment) → Keeps f (t.compared segments) t.texts →
    (t.mapTexts f).addressed spread segments = t.addressed spread segments
  | .list items, _, [], _ => by simp [mapTexts, addressed, length_mapTextItems]
  | .list items, wf, s :: rest, h =>
    addressedItems_mapTexts spread s (afterList s rest) 0 items wf h
  | .map es, wf, .field key :: rest, h => addressedEntry_mapTexts spread key rest es wf.2 h
  | .map _, _, [], _ | .map _, _, .index _ :: _, _ | .map _, _, .matching _ _ :: _, _ => rfl
  | .text _, _, [], _ | .text _, _, .field _ :: _, _ | .text _, _, .index _ :: _, _
  | .text _, _, .matching _ _ :: _, _ => rfl
  | .null, _, _, _ | .boolean _, _, _, _ | .integer _, _, _, _ | .decimal _, _, _, _ => rfl

theorem addressedItems_mapTexts (spread : Bool) {f : Position → String → String} (s : Segment)
    (segments : List Segment) (i : Nat) : (items : List Tree) → WellFormedItems items →
    Keeps f (comparedItems s segments i items) (textItems i items) →
    addressedItems spread (picks s) segments i (mapTextItems f i items) =
      addressedItems spread (picks s) segments i items
  | [], _, _ => rfl
  | t :: ts, wf, h => by
    rw [comparedItems, textItems] at h
    have hpick := picks_mapTexts wf.1 (h.mono
      (List.subset_append_of_subset_left _ (List.subset_append_left _ _))
      (List.subset_append_left _ _))
    have hrest := addressedItems_mapTexts spread s segments (i + 1) ts wf.2
      (h.mono (List.subset_append_right _ _) (List.subset_append_right _ _))
    rw [mapTextItems, addressedItems, addressedItems, hpick, hrest]
    by_cases hp : picks s i t
    · rw [if_pos hp] at h
      rw [if_pos hp, if_pos hp, addressed_mapTexts spread t wf.1 segments (Keeps.below (h.mono
        (List.subset_append_of_subset_left _ (List.subset_append_right _ _))
        (List.subset_append_left _ _)))]
    · rw [if_neg hp, if_neg hp]

theorem addressedEntry_mapTexts (spread : Bool) {f : Position → String → String} (key : String)
    (segments : List Segment) : (es : List (String × Tree)) → WellFormedEntries es →
    Keeps f (comparedEntry key segments es) (textEntries es) →
    addressedEntry spread key segments (mapTextEntries f es) =
      addressedEntry spread key segments es
  | [], _, _ => rfl
  | (k, t) :: es, wf, h => by
    rw [comparedEntry, textEntries] at h
    rw [mapTextEntries, addressedEntry, addressedEntry]
    by_cases hk : k = key
    · subst hk
      rw [if_pos rfl] at h
      rw [if_pos rfl, if_pos rfl, addressed_mapTexts spread t wf.1 segments
        (Keeps.below (h.mono (List.Subset.refl _) (List.subset_append_left _ _)))]
    · rw [if_neg hk] at h
      rw [if_neg hk, if_neg hk, addressedEntry_mapTexts spread key segments es wf.2
        (h.mono (List.Subset.refl _) (List.subset_append_right _ _))]

end

end Manifest.Tree
