import Manifest.Proofs.Reference.Token

namespace Manifest.Reference

def onRuns (f : List Char → List Char) : List Char → List Char
  | [] => []
  | c :: cs =>
    if isNameChar c then
      f (c :: cs.takeWhile isNameChar) ++ onRuns f (cs.dropWhile isNameChar)
    else c :: onRuns f cs
termination_by text => text.length
decreasing_by
  · exact Nat.lt_succ_of_le (List.dropWhile_suffix isNameChar).length_le
  · exact Nat.lt_succ_self _

def renameRun (renames : TokenRenames) (run : List Char) : List Char :=
  ((longestToken? renames run).map Prod.snd).getD run

/-- A run ends where the text does, or before a character that no name has. -/
def EndsRun (rest : List Char) : Prop := ∀ c ∈ rest.head?, isNameChar c = false

section Runs

variable {f g : List Char → List Char} {run rest : List Char} {c : Char}

theorem endsRun_dropWhile (text : List Char) : EndsRun (text.dropWhile isNameChar) := by
  intro c hc
  have h := List.head?_dropWhile_not isNameChar text
  rwa [Option.mem_def.1 hc] at h

theorem all_cons_takeWhile (h : isNameChar c = true) (text : List Char) :
    (c :: text.takeWhile isNameChar).all isNameChar = true := by
  rw [List.all_cons, h, List.all_takeWhile]
  rfl

theorem EndsRun.takeWhile_eq (ends : EndsRun rest) : rest.takeWhile isNameChar = [] := by
  cases rest with
  | nil => rfl
  | cons c cs => simp [ends c rfl]

theorem EndsRun.dropWhile_eq (ends : EndsRun rest) : rest.dropWhile isNameChar = rest := by
  cases rest with
  | nil => rfl
  | cons c cs => simp [ends c rfl]

theorem takeWhile_run_append (all : run.all isNameChar = true) (ends : EndsRun rest) :
    (run ++ rest).takeWhile isNameChar = run := by
  rw [List.takeWhile_append_of_pos (List.all_eq_true.1 all), ends.takeWhile_eq, List.append_nil]

theorem dropWhile_run_append (all : run.all isNameChar = true) (ends : EndsRun rest) :
    (run ++ rest).dropWhile isNameChar = rest := by
  rw [List.dropWhile_append_of_pos (List.all_eq_true.1 all), ends.dropWhile_eq]

@[simp] theorem onRuns_nil : onRuns f [] = [] := by rw [onRuns]

theorem onRuns_cons_of_not (h : isNameChar c = false) (cs : List Char) :
    onRuns f (c :: cs) = c :: onRuns f cs := by
  rw [onRuns, h, if_neg Bool.false_ne_true]

theorem onRuns_run_append (hne : run ≠ []) (all : run.all isNameChar = true)
    (ends : EndsRun rest) : onRuns f (run ++ rest) = f run ++ onRuns f rest := by
  obtain ⟨c, cs, rfl⟩ := List.exists_cons_of_ne_nil hne
  rw [List.all_cons, Bool.and_eq_true] at all
  rw [List.cons_append, onRuns, if_pos all.1, takeWhile_run_append all.2 ends,
    dropWhile_run_append all.2 ends]

theorem EndsRun.onRuns (ends : EndsRun rest) : EndsRun (onRuns f rest) := by
  cases rest with
  | nil => rwa [onRuns_nil]
  | cons c cs =>
    rw [onRuns_cons_of_not (ends c rfl)]
    exact ends

theorem onRuns_congr (h : ∀ run, run ≠ [] → run.all isNameChar = true → f run = g run)
    (text : List Char) : onRuns f text = onRuns g text := by
  fun_induction onRuns f text with
  | case1 => exact onRuns_nil.symm
  | case2 c cs hc ih =>
    rw [onRuns, if_pos hc, ih, h _ (List.cons_ne_nil _ _) (all_cons_takeWhile hc cs)]
  | case3 c cs hc ih => rw [onRuns, if_neg hc, ih]

theorem onRuns_onRuns (runs : ∀ run, run ≠ [] → run.all isNameChar = true →
    f run ≠ [] ∧ (f run).all isNameChar = true) (text : List Char) :
    onRuns g (onRuns f text) = onRuns (fun run => g (f run)) text := by
  fun_induction onRuns f text with
  | case1 => rw [onRuns_nil, onRuns_nil]
  | case2 c cs hc ih =>
    obtain ⟨hne, hall⟩ := runs _ (List.cons_ne_nil _ _) (all_cons_takeWhile hc cs)
    rw [onRuns_run_append hne hall (endsRun_dropWhile cs).onRuns, ih, onRuns, if_pos hc]
  | case3 c cs hc ih =>
    rw [onRuns_cons_of_not (eq_false_of_ne_true hc),
      onRuns_cons_of_not (eq_false_of_ne_true hc), ih]

end Runs

section Renames

variable {renames : TokenRenames} {run rest : List Char}

theorem startsWithToken_run_append {name : List Char} (plain : name.all isNameChar = true)
    (hne : run ≠ []) (all : run.all isNameChar = true) (ends : EndsRun rest) :
    startsWithToken name (run ++ rest) = true ↔ name = run := by
  rw [startsWithToken_iff]
  constructor
  · rintro ⟨-, after, htext, hafter⟩
    rw [← takeWhile_run_append all ends, htext, takeWhile_run_append plain hafter]
  · rintro rfl
    exact ⟨hne, rest, rfl, ends⟩

theorem startsWithToken_run {name : List Char} (plain : name.all isNameChar = true)
    (hne : run ≠ []) (all : run.all isNameChar = true) :
    startsWithToken name run = true ↔ name = run := by
  have h := @startsWithToken_run_append run [] name plain hne all nofun
  rwa [List.append_nil] at h

theorem not_startsWithToken_of_endsRun {name : List Char} (plain : name.all isNameChar = true)
    (ends : EndsRun rest) : startsWithToken name rest = false := by
  rw [← Bool.not_eq_true, startsWithToken_iff]
  rintro ⟨hne, after, rfl, -⟩
  obtain ⟨c, cs, rfl⟩ := List.exists_cons_of_ne_nil hne
  have hc : isNameChar c = true := List.all_eq_true.1 plain c List.mem_cons_self
  rw [ends c rfl] at hc
  cases hc

theorem longestToken?_run_append (plain : ∀ r ∈ renames, r.1.all isNameChar = true) (hne : run ≠ [])
    (all : run.all isNameChar = true) (ends : EndsRun rest) :
    longestToken? renames (run ++ rest) = longestToken? renames run := by
  have hstart : ∀ r ∈ renames, startsWithToken r.1 (run ++ rest) = startsWithToken r.1 run := by
    intro r hr
    rw [Bool.eq_iff_iff, startsWithToken_run_append (plain r hr) hne all ends,
      startsWithToken_run (plain r hr) hne all]
  rw [longestToken?, List.filter_congr hstart]
  rfl

theorem renameFrom_skip (all : run.all isNameChar = true) :
    renameFrom renames run.length false (run ++ rest) = renameFrom renames 0 false rest := by
  induction run with
  | nil => rfl
  | cons c cs ih =>
    rw [List.all_cons, Bool.and_eq_true] at all
    rw [List.length_cons, List.cons_append, renameFrom, all.1]
    exact ih all.2

theorem renameFrom_inside (all : run.all isNameChar = true) :
    renameFrom renames 0 false (run ++ rest) =
      (run ++ (renameFrom renames 0 false rest).1, (renameFrom renames 0 false rest).2) := by
  induction run with
  | nil => rfl
  | cons c cs ih =>
    rw [List.all_cons, Bool.and_eq_true] at all
    rw [List.cons_append, renameFrom, all.1, if_neg Bool.false_ne_true]
    simp only [Bool.not_true, ih all.2]
    rfl

theorem renameFrom_of_endsRun (plain : ∀ r ∈ renames, r.1.all isNameChar = true)
    (ends : EndsRun rest) (fresh : Bool) :
    renameFrom renames 0 fresh rest = renameFrom renames 0 true rest := by
  cases rest with
  | nil => rfl
  | cons c cs =>
    have hnone : longestToken? renames (c :: cs) = none :=
      longestToken?_eq_none.2 fun r hr => not_startsWithToken_of_endsRun (plain r hr) ends
    cases fresh <;> simp [renameFrom, hnone]

theorem renameFrom_eq_onRuns (plain : ∀ r ∈ renames, r.1.all isNameChar = true)
    (text : List Char) : (renameFrom renames 0 true text).1 = onRuns (renameRun renames) text := by
  fun_induction onRuns (renameRun renames) text with
  | case1 => rfl
  | case2 c cs hc ih =>
    have ends := endsRun_dropWhile cs
    have hall := all_cons_takeWhile hc cs
    have hlongest := longestToken?_run_append plain (List.cons_ne_nil _ _) hall ends
    have hrest : (cs.takeWhile isNameChar).all isNameChar = true := List.all_takeWhile
    have htext : cs.takeWhile isNameChar ++ cs.dropWhile isNameChar = cs :=
      List.takeWhile_append_dropWhile
    rw [List.cons_append, htext] at hlongest
    rw [renameFrom, if_pos rfl, hlongest, renameRun, hc, Bool.not_true]
    cases hrun : longestToken? renames (c :: cs.takeWhile isNameChar) with
    | none =>
      -- no token starts later in the run either
      have hinside := @renameFrom_inside renames _ (cs.dropWhile isNameChar) hrest
      rw [htext, renameFrom_of_endsRun plain ends] at hinside
      simp only [hinside, ih]
      rfl
    | some r =>
      obtain ⟨hr, hstart, -⟩ := longestToken?_eq_some hrun
      have hold : r.1 = c :: cs.takeWhile isNameChar :=
        (startsWithToken_run (plain r hr) (List.cons_ne_nil _ _) hall).1 hstart
      have hskip := @renameFrom_skip renames _ (cs.dropWhile isNameChar) hrest
      rw [htext, renameFrom_of_endsRun plain ends] at hskip
      simp only [hold, List.length_cons, Nat.add_sub_cancel, hskip, ih]
      rfl
  | case3 c cs hc ih =>
    have ends : EndsRun (c :: cs) := by
      rintro _ ⟨⟩
      exact eq_false_of_ne_true hc
    rw [← renameFrom_of_endsRun plain ends false, renameFrom, if_neg Bool.false_ne_true,
      eq_false_of_ne_true hc]
    exact congrArg (c :: ·) ih

theorem renameFrom_eq_self {fresh : Bool} {text : List Char}
    (h : (renameFrom renames 0 fresh text).2 = false) :
    (renameFrom renames 0 fresh text).1 = text := by
  induction text generalizing fresh with
  | nil => rfl
  | cons c cs ih =>
    rw [renameFrom] at h ⊢
    cases hm : (if fresh then longestToken? renames (c :: cs) else none) with
    | some r =>
      rw [hm] at h
      cases h
    | none =>
      rw [hm] at h
      exact congrArg (c :: ·) (ih h)

theorem getD_renameTokens? (plain : ∀ r ∈ renames, r.1.all isNameChar = true) (text : List Char) :
    (renameTokens? renames text).getD text = onRuns (renameRun renames) text := by
  rw [← renameFrom_eq_onRuns plain, renameTokens?_eq]
  split
  · rfl
  · rename_i h
    exact (renameFrom_eq_self (eq_false_of_ne_true h)).symm

theorem renameRun_cases (plain : ∀ r ∈ renames, r.1.all isNameChar = true) (hne : run ≠ [])
    (all : run.all isNameChar = true) :
    (∃ r ∈ renames, r.1 = run ∧ renameRun renames run = r.2) ∨
      (∀ r ∈ renames, r.1 ≠ run) ∧ renameRun renames run = run := by
  rw [renameRun]
  cases h : longestToken? renames run with
  | some r =>
    obtain ⟨hr, hstart, -⟩ := longestToken?_eq_some h
    exact .inl ⟨r, hr, (startsWithToken_run (plain r hr) hne all).1 hstart, rfl⟩
  | none =>
    refine .inr ⟨fun r hr heq => ?_, rfl⟩
    have hstart := (startsWithToken_run (plain r hr) hne all).2 heq
    rw [longestToken?_eq_none.1 h r hr] at hstart
    cases hstart

end Renames

section Again

variable {renames renames' : TokenRenames} {name : List Char}

theorem getD_renameTokens?_again (plain : ∀ r ∈ renames, r.1.all isNameChar = true)
    (hne : name ≠ []) (all : name.all isNameChar = true) (new : ∀ r ∈ renames, r.2 = name)
    (new' : ∀ r ∈ renames', r.2 = name) (known : ∀ r ∈ renames', r.1 = name ∨ r ∈ renames)
    (text : List Char) :
    (renameTokens? renames' ((renameTokens? renames text).getD text)).getD
      ((renameTokens? renames text).getD text) = (renameTokens? renames text).getD text := by
  have plain' : ∀ r ∈ renames', r.1.all isNameChar = true := fun r hr =>
    (known r hr).elim (fun h => h ▸ all) (plain r)
  rw [getD_renameTokens? plain', getD_renameTokens? plain, onRuns_onRuns]
  · refine onRuns_congr (fun run hrun hall => ?_) text
    -- a rename of the new name gives this name once more
    have hname : renameRun renames' name = name := by
      rcases renameRun_cases plain' hne all with ⟨r, hr, -, heq⟩ | ⟨-, heq⟩
      · rw [heq, new' r hr]
      · exact heq
    rcases renameRun_cases plain hrun hall with ⟨r, hr, -, heq⟩ | ⟨hother, heq⟩
    · rw [heq, new r hr, hname]
    · rw [heq]
      rcases renameRun_cases plain' hrun hall with ⟨r, hr, rfl, -⟩ | ⟨-, heq'⟩
      · rcases known r hr with hold | hr'
        · rw [hold, hname]
        -- the first renames would have found this run
        · exact absurd rfl (hother r hr')
      · exact heq'
  · intro run hrun hall
    rcases renameRun_cases plain hrun hall with ⟨r, hr, -, heq⟩ | ⟨-, heq⟩
    · rw [heq, new r hr]
      exact ⟨hne, all⟩
    · rw [heq]
      exact ⟨hrun, hall⟩

end Again

end Manifest.Reference
