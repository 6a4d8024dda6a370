import Manifest.Proofs.Pattern.Matches

namespace Manifest

namespace Pattern

/-- No dollar sign refers to a group or stands before another one. -/
def Literal : List Char → Prop
  | [] => True
  | c :: cs => (c = '$' → cs.head? ≠ some '$' ∧ reference? cs = none) ∧ Literal cs

instance : DecidablePred Literal := fun cs => by
  induction cs with
  | nil => exact isTrue trivial
  | cons c cs ih => exact inferInstanceAs (Decidable (_ ∧ _))

theorem expandFrom_of_literal (value : List Char → List Char) {cs : List Char} (h : Literal cs) :
    expandFrom value 0 cs = cs := by
  induction cs with
  | nil => rfl
  | cons c cs ih =>
    obtain ⟨hdollar, hrest⟩ := h
    rw [expandFrom, ih hrest]
    split
    · rfl
    · rename_i hc
      obtain ⟨hsecond, hreference⟩ := hdollar (not_not.1 hc)
      rw [if_neg hsecond, hreference, not_not.1 hc]

theorem length_expandFrom_le (skip : Nat) (cs : List Char) :
    (expandFrom (fun _ => []) skip cs).length ≤ cs.length := by
  induction cs generalizing skip with
  | nil => cases skip <;> exact Nat.le_refl _
  | cons c cs ih =>
    cases skip with
    | succ skip => exact Nat.le_succ_of_le (ih skip)
    | zero =>
      rw [expandFrom]
      split
      · exact Nat.succ_le_succ (ih 0)
      · split
        · exact Nat.succ_le_succ (ih 1)
        · split
          · exact Nat.le_succ_of_le (ih _)
          · exact Nat.succ_le_succ (ih 0)

theorem expandFrom_eq_self_iff {cs : List Char} :
    expandFrom (fun _ => []) 0 cs = cs ↔ Literal cs := by
  refine ⟨fun h => ?_, expandFrom_of_literal _⟩
  induction cs with
  | nil => trivial
  | cons c cs ih =>
    rw [expandFrom] at h
    split at h
    · rename_i hc
      exact ⟨fun heq => absurd heq hc, ih (List.cons.inj h).2⟩
    · rename_i hc
      split at h
      · rename_i hsecond
        cases cs with
        | nil => cases hsecond
        | cons x cs =>
          have hrest : expandFrom (fun _ => []) 0 cs = x :: cs := (List.cons.inj h).2
          have hlength := length_expandFrom_le 0 cs
          rw [hrest, List.length_cons] at hlength
          omega
      · rename_i hsecond
        split at h
        · rename_i name n hreference
          have hlength := length_expandFrom_le n cs
          rw [List.nil_append] at h
          rw [h, List.length_cons] at hlength
          omega
        · rename_i hreference
          exact ⟨fun _ => ⟨hsecond, hreference⟩, ih (List.cons.inj h).2⟩

/-- What stands from the place `n` on, and the same with something put in for each of the matches
there; everything around the matches is kept. -/
inductive Inserted (f : Slots → List Char) : Nat → List Slots → List Char → List Char → Prop
  | rest {n cs} : Inserted f n [] cs cs
  | found {n m ms around found cs cs'} : matchStart m = n + around.length →
      matchEnd m = matchStart m + found.length → Inserted f (matchEnd m) ms cs cs' →
      Inserted f n (m :: ms) (around ++ (found ++ cs)) (around ++ (f m ++ cs'))

theorem InOrder.le {length first : Nat} {ms : List Slots} (h : InOrder length first ms) :
    first ≤ length := by
  induction ms generalizing first with
  | nil => exact h
  | cons m ms ih => exact Nat.le_trans h.1 (Nat.le_trans h.2.1 (ih h.2.2))

theorem slice_append_drop {text : List Char} {first last : Nat} (h : first ≤ last) :
    slice text first last ++ text.drop last = text.drop first := by
  conv_rhs => rw [← List.take_append_drop (last - first) (text.drop first)]
  rw [slice, List.drop_drop, Nat.add_sub_cancel' h]

theorem length_slice {text : List Char} {first last : Nat} (h : last ≤ text.length) :
    (slice text first last).length = last - first := by
  rw [slice, List.length_take, List.length_drop]
  omega

end Pattern

namespace NamedPattern

open Pattern

variable {r : String} {p : NamedPattern}

theorem inserted_assemble (expand : Slots → List Char) {text : List Char} {first : Nat}
    {ms : List Slots} (h : InOrder text.length first ms) :
    Inserted expand first ms (text.drop first) (assemble expand text first ms) := by
  induction ms generalizing first with
  | nil => exact .rest
  | cons m ms ih =>
    obtain ⟨hstart, hend, horder⟩ := h
    have hstop := horder.le
    rw [assemble, List.append_assoc, ← slice_append_drop hstart, ← slice_append_drop hend]
    refine .found ?_ ?_ (ih horder)
    · rw [length_slice (by omega)]
      omega
    · rw [length_slice hstop]
      omega

theorem inserted_replaceAll (p : NamedPattern) (r s : String) :
    Inserted (fun m => expandFrom (p.valueOf s.toList m) 0 r.toList) 0
      (p.pattern.allMatches s.toList) s.toList (p.replaceAll r s).toList := by
  rw [replaceAll, String.toList_ofList]
  exact inserted_assemble _ (inOrder_allMatches p.pattern s.toList)

theorem inserted_replaceAll_of_literal (h : Literal r.toList) (p : NamedPattern) (s : String) :
    Inserted (fun _ => r.toList) 0 (p.pattern.allMatches s.toList) s.toList
      (p.replaceAll r s).toList := by
  have hinserted := inserted_replaceAll p r s
  simpa only [expandFrom_of_literal _ h] using hinserted

theorem eq_of_inserted_whole {f : Slots → List Char} {m : Slots} {cs cs' : List Char}
    (h : Inserted f 0 [m] cs cs') (hstart : matchStart m = 0) (hend : matchEnd m = cs.length) :
    cs' = f m := by
  cases h with
  | @found _ _ _ around found rest _ hfirst hlast hrest =>
    cases hrest
    rw [List.length_append, List.length_append] at hend
    obtain rfl : around = [] := List.length_eq_zero_iff.1 (by omega)
    obtain rfl : rest = [] := List.length_eq_zero_iff.1 (by omega)
    rw [List.nil_append, List.append_nil]

theorem valueOf_nil (p : NamedPattern) (m : Slots) (name : List Char) :
    p.valueOf [] m name = [] := by
  have hgroup : ∀ number, groupText [] m number = [] := by
    intro number
    rw [groupText]
    split
    · rw [slice, List.drop_nil, List.take_nil]
    · rfl
  rw [valueOf]
  split
  · exact hgroup _
  · split
    · exact hgroup _
    · rfl

theorem allMatches_empty : Pattern.empty.allMatches [] = [[some 0, some 0]] := by decide

theorem inserted_iff_literal : (∀ (p : NamedPattern) (s : String),
    Inserted (fun _ => r.toList) 0 (p.pattern.allMatches s.toList) s.toList
      (p.replaceAll r s).toList) ↔ Literal r.toList := by
  refine ⟨fun h => ?_, inserted_replaceAll_of_literal⟩
  -- The empty pattern has one match in the empty text, in which every group is empty.
  have hempty : ∀ {f : Slots → List Char} {cs : List Char},
      Inserted f 0 (Pattern.empty.allMatches []) [] cs → cs = f [some 0, some 0] := fun h =>
    eq_of_inserted_whole (allMatches_empty ▸ h) rfl rfl
  have hliteral := hempty (h ⟨.empty, []⟩ "")
  have hexpanded := hempty (inserted_replaceAll ⟨.empty, []⟩ r "")
  rw [hliteral] at hexpanded
  rw [← expandFrom_eq_self_iff, ← funext (valueOf_nil ⟨.empty, []⟩ [some 0, some 0])]
  exact hexpanded.symm

end NamedPattern

end Manifest
