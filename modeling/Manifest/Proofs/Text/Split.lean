import Mathlib.Data.List.DropRight
import Manifest.Text.Split

namespace Manifest.Text

variable {sep : Char} {cs : List Char}

theorem splitFirst?_append {pre : List Char} (h : sep ∉ pre) (cs : List Char) :
    splitFirst? sep (pre ++ sep :: cs) = some (pre, cs) := by
  induction pre with
  | nil => simp [splitFirst?]
  | cons c pre ih =>
    rw [List.mem_cons, not_or] at h
    simp [splitFirst?, Ne.symm h.1, ih h.2]

theorem splitFirst?_of_not_mem (h : sep ∉ cs) : splitFirst? sep cs = none := by
  induction cs with
  | nil => rfl
  | cons c cs ih =>
    rw [List.mem_cons, not_or] at h
    simp [splitFirst?, Ne.symm h.1, ih h.2]

theorem splitFirst?_eq_some_iff {pre post : List Char} :
    splitFirst? sep cs = some (pre, post) ↔ sep ∉ pre ∧ cs = pre ++ sep :: post := by
  constructor
  · intro h
    induction cs generalizing pre with
    | nil => cases h
    | cons c cs ih =>
      rw [splitFirst?] at h
      split at h
      · obtain ⟨rfl, rfl⟩ := Prod.mk.inj (Option.some.inj h)
        exact ⟨List.not_mem_nil, congrArg (· :: cs) ‹c = sep›⟩
      · obtain ⟨⟨init, rest⟩, hrest, hpair⟩ := Option.map_eq_some_iff.1 h
        obtain ⟨rfl, rfl⟩ := Prod.mk.inj hpair
        obtain ⟨hinit, rfl⟩ := ih hrest
        exact ⟨List.not_mem_cons_of_ne_of_not_mem (Ne.symm ‹_›) hinit, rfl⟩
  · rintro ⟨hpre, rfl⟩
    exact splitFirst?_append hpre post

theorem splitFirst?_eq_none_iff : splitFirst? sep cs = none ↔ sep ∉ cs := by
  refine ⟨fun h hmem => ?_, splitFirst?_of_not_mem⟩
  obtain ⟨pre, post, rfl, hpre⟩ := List.eq_append_cons_of_mem hmem
  rw [splitFirst?_append hpre] at h
  cases h

theorem splitLast?_append (h : sep ∉ cs) (pre : List Char) :
    splitLast? sep (pre ++ sep :: cs) = some (pre, cs) := by
  have hreverse : (pre ++ sep :: cs).reverse = cs.reverse ++ sep :: pre.reverse := by simp
  rw [splitLast?, hreverse, splitFirst?_append (by simpa using h)]
  simp

theorem splitLast?_of_not_mem (h : sep ∉ cs) : splitLast? sep cs = none := by
  rw [splitLast?, splitFirst?_of_not_mem (by simpa using h)]
  rfl

def lastPart (sep : Char) (cs : List Char) : List Char := cs.rtakeWhile (· ≠ sep)

theorem not_mem_lastPart : sep ∉ lastPart sep cs := fun h => by
  simpa using List.mem_rtakeWhile_imp h

theorem eq_append_lastPart (sep : Char) (cs : List Char) :
    cs = lastPart sep cs ∨ ∃ pre, cs = pre ++ sep :: lastPart sep cs := by
  induction cs using List.reverseRec with
  | nil => exact .inl rfl
  | append_singleton cs c ih =>
    by_cases hc : c = sep
    · subst hc
      rw [lastPart, List.rtakeWhile_concat_neg _ _ _ (by simp)]
      exact .inr ⟨cs, rfl⟩
    · rw [lastPart, List.rtakeWhile_concat_pos _ _ _ (by simpa using hc)]
      rcases ih with h | ⟨pre, h⟩
      · exact .inl (congrArg (· ++ [c]) h)
      · exact .inr ⟨pre, (congrArg (· ++ [c]) h).trans (List.append_assoc pre _ [c])⟩

theorem splitAll_ne_nil (sep : Char) (cs : List Char) : splitAll sep cs ≠ [] := by
  cases cs with
  | nil => nofun
  | cons c cs =>
    rw [splitAll]
    split
    · nofun
    · split <;> nofun

theorem splitAll_eq_splitOn (sep : Char) (cs : List Char) : splitAll sep cs = cs.splitOn sep := by
  induction cs with
  | nil => exact (List.splitOn_nil sep).symm
  | cons c cs ih =>
    rw [List.splitOn, List.splitOnP_cons_eq_if_modifyHead, ← List.splitOn, ← ih, splitAll]
    by_cases hc : c = sep
    · rw [if_pos hc, if_pos (beq_iff_eq.2 hc)]
    · rw [if_neg hc, if_neg (by simpa using hc)]
      cases hs : splitAll sep cs with
      | nil => exact absurd hs (splitAll_ne_nil sep cs)
      | cons piece pieces => rfl

theorem splitAll_append (sep : Char) (cs ds : List Char) :
    splitAll sep (cs ++ sep :: ds) = splitAll sep cs ++ splitAll sep ds := by
  simp only [splitAll_eq_splitOn]
  exact List.splitOn_append_cons_self cs ds

theorem not_mem_of_mem_splitAll {piece : List Char} (h : piece ∈ splitAll sep cs) :
    sep ∉ piece := by
  induction cs generalizing piece with
  | nil =>
    obtain rfl := List.mem_singleton.1 h
    exact List.not_mem_nil
  | cons c cs ih =>
    rw [splitAll] at h
    split at h
    · rcases List.mem_cons.1 h with rfl | h
      · exact List.not_mem_nil
      · exact ih h
    · rename_i hc
      cases hs : splitAll sep cs with
      | nil => exact absurd hs (splitAll_ne_nil sep cs)
      | cons first pieces =>
        rw [hs] at h ih
        rcases List.mem_cons.1 h with rfl | h
        · rw [List.mem_cons, not_or]
          exact ⟨Ne.symm hc, ih List.mem_cons_self⟩
        · exact ih (List.mem_cons_of_mem _ h)

end Manifest.Text
