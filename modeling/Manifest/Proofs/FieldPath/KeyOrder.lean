import Manifest.FieldPath.Walk
import Manifest.Proofs.FieldPath.Addressed
import Manifest.Proofs.Tree.KeyOrder

namespace Manifest

namespace Tree

theorem hasField_sorted {t : Tree} (wf : t.WellFormed) (key value : String) :
    t.sorted.hasField key value = t.hasField key value := by
  rw [hasField, hasField, field?_sorted wf, Option.bind_map]
  simp only [Function.comp_def, text?_sorted]

theorem picks_sorted {t : Tree} (wf : t.WellFormed) (s : Segment) (i : Nat) :
    picks s i t.sorted = picks s i t := by
  cases s with
  | matching key value => exact hasField_sorted wf key value
  | _ => rfl

theorem addressedEntry_eq (spread : Bool) (key : String) (segments : List Segment)
    (es : Entries Tree) : addressedEntry spread key segments es =
      match Entries.find? key es with
      | none => .ok []
      | some u => (addressed spread u segments).map fun ps => ps.map (.key key :: ·) := by
  induction es with
  | nil => rfl
  | cons e es ih =>
    obtain ⟨k, t⟩ := e
    rw [addressedEntry, Entries.find?_cons, ih]
    by_cases hk : k = key
    · rw [if_pos hk, if_pos hk]
    · rw [if_neg hk, if_neg hk]

mutual

theorem addressed_sorted (spread : Bool) : (t : Tree) → (segments : List Segment) →
    t.WellFormed → t.sorted.addressed spread segments = t.addressed spread segments
  | .list items, [], _ => by
    rw [sorted_list, addressed, addressed, List.length_map]
  | .list items, s :: rest, wf => addressedItems_sorted spread s (afterList s rest) 0 items wf
  | .map es, [], _ => rfl
  | .map es, .field key :: rest, wf => by
    rw [sorted_map, addressed, addressed, ← addressedEntry_sorted spread key rest es wf.2,
      addressedEntry_eq, addressedEntry_eq, sortedEntries_eq,
      Entries.find?_byKey (Entries.distinct_mapValues.2 wf.1)]
  | .map _, .index _ :: _, _ | .map _, .matching _ _ :: _, _ => rfl
  | .null, _, _ | .boolean _, _, _ | .integer _, _, _ | .decimal _, _, _ | .text _, _, _ => rfl

theorem addressedItems_sorted (spread : Bool) (s : Segment) (segments : List Segment) (i : Nat) :
    (items : List Tree) → WellFormedItems items →
    addressedItems spread (picks s) segments i (sortedItems items) =
      addressedItems spread (picks s) segments i items
  | [], _ => rfl
  | t :: ts, wf => by
    rw [sortedItems, addressedItems, addressedItems, picks_sorted wf.1,
      addressed_sorted spread t segments wf.1,
      addressedItems_sorted spread s segments (i + 1) ts wf.2]

theorem addressedEntry_sorted (spread : Bool) (key : String) (segments : List Segment) :
    (es : List (String × Tree)) → WellFormedEntries es →
    addressedEntry spread key segments (sortedEntries es) = addressedEntry spread key segments es
  | [], _ => rfl
  | (k, t) :: es, wf => by
    rw [sortedEntries, addressedEntry, addressedEntry, addressed_sorted spread t segments wf.1,
      addressedEntry_sorted spread key segments es wf.2]

end

theorem filter_not_hasField_sorted {items : List Tree} (wf : WellFormedItems items)
    (key value : String) : (items.map sorted).filter (fun t => !t.hasField key value) =
      (items.filter fun t => !t.hasField key value).map sorted := by
  rw [List.filter_map]
  refine congrArg _ (List.filter_congr fun t ht => ?_)
  rw [Function.comp_apply, hasField_sorted (wellFormedItems_iff.1 wf t ht)]

theorem removeLast_sorted (last : Segment) {t : Tree} (wf : t.WellFormed) :
    t.sorted.removeLast last = ((t.removeLast last).1.sorted, (t.removeLast last).2) := by
  cases t with
  | map es =>
    cases last with
    | field key =>
      have hdistinct : Entries.Distinct (Entries.mapValues sorted es) :=
        Entries.distinct_mapValues.2 wf.1
      have hhas : Entries.has key (Entries.mapValues sorted es).byKey = Entries.has key es := by
        rw [Entries.has, Entries.has, Entries.find?_byKey hdistinct, Entries.find?_mapValues,
          Option.isSome_map]
      rw [sorted_map, removeLast, removeLast, hhas]
      split
      · rw [sorted_map, ← Entries.byKey_erase hdistinct, Entries.mapValues_erase]
      · rw [sorted_map]
    | _ => rfl
  | list items =>
    cases last with
    | field key => rfl
    | index i =>
      rw [sorted_list, removeLast, removeLast, List.length_map]
      split
      · rw [sorted_list, List.eraseIdx_map]
      · rw [sorted_list]
    | matching key value =>
      rw [sorted_list, removeLast, removeLast, filter_not_hasField_sorted wf]
      simp only [sorted_list, List.length_map]
  | _ => cases last <;> rfl

theorem wellFormed_removeLast (last : Segment) {t : Tree} (wf : t.WellFormed) :
    (t.removeLast last).1.WellFormed := by
  cases t with
  | map es =>
    cases last with
    | field key =>
      rw [removeLast]
      split
      · refine ⟨Entries.distinct_erase wf.1, wellFormedEntries_iff.2 fun e he => ?_⟩
        rw [Entries.erase_eq_filter wf.1] at he
        exact wellFormedEntries_iff.1 wf.2 e (List.mem_of_mem_filter he)
      · exact wf
    | _ => exact wf
  | list items =>
    have hitems := wellFormedItems_iff.1 wf
    cases last with
    | field key => exact wf
    | index i =>
      rw [removeLast]
      split
      · exact wellFormedItems_iff.2 fun u hu => hitems u (List.mem_of_mem_eraseIdx hu)
      · exact wf
    | matching key value =>
      exact wellFormedItems_iff.2 fun u hu => hitems u (List.mem_of_mem_filter hu)
  | _ => cases last <;> exact wf

end Tree

namespace FieldPath

open Tree

theorem remove_sorted (p : FieldPath) {t : Tree} (wf : t.WellFormed) :
    p.remove t.sorted = (p.remove t).map fun r => (r.1.sorted, r.2) := by
  rw [remove, remove]
  split
  · rfl
  · rename_i last _
    rw [addressed_sorted last.isField t _ wf]
    split
    · rfl
    · rename_i parents hparents
      have hcounts : (fun q => ((t.sorted.get? q).map fun u => (u.removeLast last).2).getD 0) =
          fun q => ((t.get? q).map fun u => (u.removeLast last).2).getD 0 := by
        funext q
        rw [get?_sorted wf]
        cases hu : t.get? q with
        | none => rfl
        | some u => simp [removeLast_sorted last (wellFormed_get? wf hu)]
      have hedits := sorted_foldl_modify (fun u hu => by rw [removeLast_sorted last hu])
        (fun u hu => wellFormed_removeLast last hu) parents wf
      simp only [Except.map, hcounts, hedits]

theorem wellFormed_remove {p : FieldPath} {t u : Tree} {n : Nat} (wf : t.WellFormed)
    (h : p.remove t = .ok (u, n)) : u.WellFormed := by
  rw [remove] at h
  split at h
  · cases h
  · rename_i last _
    split at h
    · cases h
    · rename_i parents _
      obtain ⟨rfl, -⟩ := Prod.mk.inj (Except.ok.inj h)
      exact wellFormed_foldl_modify (fun u hu => wellFormed_removeLast last hu) _ wf

end FieldPath

end Manifest
