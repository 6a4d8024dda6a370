import Manifest.Proofs.Text.Split
import Manifest.Reference.Variable

namespace Manifest.Reference

variable {vars : Variables} {cs rest : List Char} {name value : String}

def expandText (vars : Variables) (s : String) : String :=
  ((expand? vars s.toList).map String.ofList).getD s

theorem expandFrom_dropped (vars : Variables) (pre cs : List Char) :
    expandFrom vars 0 pre.length (pre ++ cs) = expandFrom vars 0 0 cs := by
  induction pre with
  | nil => rfl
  | cons c pre ih =>
    rw [List.length_cons, List.cons_append, expandFrom]
    exact ih

theorem expandFrom_eq_self {copied : Nat} (h : (expandFrom vars copied 0 cs).2 = false) :
    (expandFrom vars copied 0 cs).1 = cs := by
  induction cs generalizing copied with
  | nil => cases copied <;> rfl
  | cons c cs ih =>
    cases copied with
    | succ n =>
      rw [expandFrom] at h ⊢
      exact congrArg (c :: ·) (ih h)
    | zero =>
      rw [expandFrom] at h ⊢
      split at h
      · rename_i hplain
        rw [if_pos hplain]
        exact congrArg (c :: ·) (ih h)
      · rename_i hdollar
        obtain rfl : c = '$' := Decidable.not_not.1 hdollar
        rw [if_neg hdollar]
        split at h
        · cases h
        · rename_i hsingle
          rw [if_neg hsingle]
          split at h
          · exact congrArg ('$' :: ·) (ih h)
          · split at h
            · cases h
            · exact congrArg ('$' :: ·) (ih h)

theorem expandText_eq (vars : Variables) (s : String) :
    expandText vars s = String.ofList (expandFrom vars 0 0 s.toList).1 := by
  rw [expandText, expand?]
  cases h : (expandFrom vars 0 0 s.toList).2 with
  | true => simp [h]
  | false => simp [h, expandFrom_eq_self h]

theorem expandFrom_copied (vars : Variables) (pre cs : List Char) :
    expandFrom vars pre.length 0 (pre ++ cs) =
      (pre ++ (expandFrom vars 0 0 cs).1, (expandFrom vars 0 0 cs).2) := by
  induction pre with
  | nil => rfl
  | cons c pre ih => rw [List.length_cons, List.cons_append, expandFrom, ih, List.cons_append]

theorem expandFrom_plain {pre : List Char} (h : '$' ∉ pre) (cs : List Char) :
    expandFrom vars 0 0 (pre ++ cs) =
      (pre ++ (expandFrom vars 0 0 cs).1, (expandFrom vars 0 0 cs).2) := by
  induction pre with
  | nil => rfl
  | cons c pre ih =>
    rw [List.mem_cons, not_or] at h
    rw [List.cons_append, expandFrom, if_pos (Ne.symm h.1), ih h.2, List.cons_append]

theorem expandFrom_escaped (vars : Variables) (cs : List Char) :
    expandFrom vars 0 0 ('$' :: '$' :: cs) = ('$' :: (expandFrom vars 0 0 cs).1, true) := by
  rw [expandFrom]
  simp only [ne_eq, not_true_eq_false, if_false, List.head?_cons, if_true]
  rw [expandFrom]

theorem expandFrom_known (hname : ')' ∉ name.toList)
    (hvalue : Entries.find? name vars = some value) (cs : List Char) :
    expandFrom vars 0 0 ('$' :: '(' :: (name.toList ++ ')' :: cs)) =
      (value.toList ++ (expandFrom vars 0 0 cs).1, true) := by
  have hdropped := expandFrom_dropped vars ('(' :: (name.toList ++ [')'])) cs
  rw [expandFrom]
  simpa [Text.splitFirst?_append hname, hvalue] using congrArg Prod.fst hdropped

theorem expandFrom_unknown (hname : ')' ∉ name.toList)
    (hvalue : Entries.find? name vars = none) (cs : List Char) :
    expandFrom vars 0 0 ('$' :: '(' :: (name.toList ++ ')' :: cs)) =
      ('$' :: '(' :: (name.toList ++ ')' :: (expandFrom vars 0 0 cs).1),
        (expandFrom vars 0 0 cs).2) := by
  have hcopied := expandFrom_copied vars ('(' :: (name.toList ++ [')'])) cs
  rw [expandFrom]
  simpa [Text.splitFirst?_append hname, hvalue] using Prod.ext_iff.1 hcopied

theorem expandText_escaped {pre : String} (hpre : '$' ∉ pre.toList) (hname : '$' ∉ name.toList)
    (rest : String) : expandText vars (pre ++ "$$(" ++ name ++ ")" ++ rest) =
      pre ++ "$(" ++ name ++ ")" ++ expandText vars rest := by
  rw [expandText_eq, expandText_eq]
  have htext : (pre ++ "$$(" ++ name ++ ")" ++ rest).toList =
      pre.toList ++ '$' :: '$' :: ('(' :: (name.toList ++ [')']) ++ rest.toList) := by
    simp
  have hplain : '$' ∉ '(' :: (name.toList ++ [')']) := by simp [hname]
  rw [htext, expandFrom_plain hpre, expandFrom_escaped, expandFrom_plain hplain]
  apply String.toList_inj.1
  simp

theorem expandText_variable {pre : String} (hpre : '$' ∉ pre.toList)
    (hname : ')' ∉ name.toList) (hvalue : Entries.find? name vars = some value)
    (rest : String) : expandText vars (pre ++ "$(" ++ name ++ ")" ++ rest) =
      pre ++ value ++ expandText vars rest := by
  rw [expandText_eq, expandText_eq]
  have htext : (pre ++ "$(" ++ name ++ ")" ++ rest).toList =
      pre.toList ++ '$' :: '(' :: (name.toList ++ ')' :: rest.toList) := by
    simp
  rw [htext, expandFrom_plain hpre, expandFrom_known hname hvalue, String.ofList_append,
    String.ofList_append, String.ofList_toList, String.ofList_toList, String.append_assoc]

end Manifest.Reference
