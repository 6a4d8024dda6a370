import Mathlib.Data.List.Perm.Basic
import Manifest.Proofs.Tree.Entries
import Manifest.Tree.Basic

namespace Manifest

namespace Entries

variable {α β : Type} {es es' : Entries α} {key : String}

def byKey (es : Entries α) : Entries α := es.mergeSort fun a b => decide (a.1 ≤ b.1)

theorem byKey_perm (es : Entries α) : (byKey es).Perm es := List.mergeSort_perm es _

theorem distinct_byKey : Distinct (byKey es) ↔ Distinct es := distinct_perm (byKey_perm es)

theorem pairwise_byKey (es : Entries α) : (byKey es).Pairwise fun a b => a.1 ≤ b.1 := by
  have trans : ∀ a b c : String × α, decide (a.1 ≤ b.1) = true → decide (b.1 ≤ c.1) = true →
      decide (a.1 ≤ c.1) = true := by
    simp only [decide_eq_true_eq]
    exact fun a b c => String.le_trans
  have total : ∀ a b : String × α, (decide (a.1 ≤ b.1) || decide (b.1 ≤ a.1)) = true := by
    simp only [Bool.or_eq_true, decide_eq_true_eq]
    exact fun a b => String.le_total a.1 b.1
  exact (List.pairwise_mergeSort trans total es).imp of_decide_eq_true

theorem byKey_of_pairwise (h : es.Pairwise fun a b => a.1 ≤ b.1) : byKey es = es :=
  List.mergeSort_of_pairwise (by simpa only [decide_eq_true_eq] using h)

theorem byKey_byKey (es : Entries α) : byKey (byKey es) = byKey es :=
  byKey_of_pairwise (pairwise_byKey es)

theorem eq_byKey (distinct : Distinct es) (perm : es'.Perm es)
    (h : es'.Pairwise fun a b => a.1 ≤ b.1) : es' = byKey es := by
  refine List.Perm.eq_of_pairwise (fun a b ha hb hab hba => ?_) h (pairwise_byKey es)
    (perm.trans (byKey_perm es).symm)
  exact List.inj_on_of_nodup_map distinct (perm.mem_iff.1 ha) ((byKey_perm es).mem_iff.1 hb)
    (String.le_antisymm hab hba)

theorem byKey_congr (distinct : Distinct es) (perm : es.Perm es') : byKey es = byKey es' :=
  eq_byKey ((distinct_perm perm).1 distinct) ((byKey_perm es).trans perm) (pairwise_byKey es)

theorem byKey_mapValues (f : α → β) (es : Entries α) :
    byKey (mapValues f es) = mapValues f (byKey es) := by
  rw [byKey, mapValues, mapValues, byKey]
  refine (List.map_mergeSort ?_).symm
  exact fun _ _ _ _ => rfl

theorem find?_byKey (distinct : Distinct es) : find? key (byKey es) = find? key es :=
  (find?_perm distinct (byKey_perm es).symm).symm

theorem byKey_modify (distinct : Distinct es) (f : α → α) :
    byKey (modify key f es) = modify key f (byKey es) := by
  refine (eq_byKey ?_ ?_ ?_).symm
  · rwa [Distinct, keys_modify]
  · rw [modify_eq_map distinct, modify_eq_map (distinct_byKey.2 distinct)]
    exact (byKey_perm es).map _
  · have hkeys := List.pairwise_map.2 (pairwise_byKey es)
    rw [← keys, ← keys_modify key f] at hkeys
    exact List.pairwise_map.1 hkeys

theorem byKey_erase (distinct : Distinct es) : byKey (erase key es) = erase key (byKey es) := by
  refine (eq_byKey (distinct_erase distinct) ?_ ?_).symm
  · rw [erase_eq_filter distinct, erase_eq_filter (distinct_byKey.2 distinct)]
    exact (byKey_perm es).filter _
  · rw [erase_eq_filter (distinct_byKey.2 distinct)]
    exact (pairwise_byKey es).filter _

end Entries

namespace Tree

theorem sortedItems_eq (items : List Tree) : sortedItems items = items.map sorted := by
  induction items with
  | nil => rfl
  | cons t ts ih => rw [sortedItems, ih, List.map_cons]

theorem sortedEntries_eq (es : Entries Tree) : sortedEntries es = Entries.mapValues sorted es := by
  induction es with
  | nil => rfl
  | cons e es ih =>
    obtain ⟨k, t⟩ := e
    rw [sortedEntries, ih]
    rfl

theorem sorted_list (items : List Tree) : (list items).sorted = .list (items.map sorted) := by
  rw [sorted, sortedItems_eq]

theorem sorted_map (es : Entries Tree) :
    (map es).sorted = .map (Entries.mapValues sorted es).byKey := by
  rw [sorted, sortedEntries_eq]
  rfl

theorem sorted_map_of_perm {es es' : Entries Tree} (distinct : Entries.Distinct es)
    (perm : es.Perm es') : (map es).sorted = (map es').sorted := by
  rw [sorted_map, sorted_map]
  exact congrArg map (Entries.byKey_congr (Entries.distinct_mapValues.2 distinct) (perm.map _))

end Tree

end Manifest
