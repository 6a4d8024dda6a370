import Mathlib.Data.List.SplitBy
import Manifest.Proofs.Reference.Rewriting
import Manifest.Proofs.Reference.Runs

namespace Manifest.Reference

def sameRun (a b : Char) : Bool := isNameChar a && isNameChar b

/-- The maximal runs of name characters of a text, and its other characters as pieces of their own,
in the order in which they stand. -/
def pieces (s : String) : List String := (s.toList.splitBy sameRun).map String.ofList

def replacement (pairs : NamePairs) (piece : String) : String :=
  (Entries.find? piece pairs).getD piece

section Pieces

variable {run rest name text : List Char} {c : Char} {fresh : Bool}

theorem splitBy_cons_of_not (h : isNameChar c = false) (cs : List Char) :
    (c :: cs).splitBy sameRun = [c] :: cs.splitBy sameRun := by
  have happend : ([c] ++ cs).splitBy sameRun = [c].splitBy sameRun ++ cs.splitBy sameRun :=
    List.splitBy_append (by simp [sameRun, h])
  rw [List.splitBy_of_isChain (List.cons_ne_nil c []) (List.isChain_singleton c)] at happend
  exact happend

theorem isChain_of_all (all : run.all isNameChar = true) :
    run.IsChain fun a b => sameRun a b = true := by
  induction run with
  | nil => exact .nil
  | cons c cs ih =>
    rw [List.all_cons, Bool.and_eq_true] at all
    refine (ih all.2).cons fun d hd => ?_
    rw [sameRun, all.1, List.all_eq_true.1 all.2 d (List.mem_of_head? hd)]
    rfl

theorem splitBy_run_append (hne : run ≠ []) (all : run.all isNameChar = true)
    (ends : EndsRun rest) :
    (run ++ rest).splitBy sameRun = run :: rest.splitBy sameRun := by
  rw [List.splitBy_append, List.splitBy_of_isChain hne (isChain_of_all all), List.singleton_append]
  intro a _ b hb
  rw [sameRun, ends b hb, Bool.and_false]

theorem onRuns_eq_flatMap {f : List Char → List Char}
    (other : ∀ c, isNameChar c = false → f [c] = [c]) (text : List Char) :
    onRuns f text = (text.splitBy sameRun).flatMap f := by
  fun_induction onRuns f text with
  | case1 => rfl
  | case2 c cs hc ih =>
    have hsplit := splitBy_run_append (List.cons_ne_nil _ _) (all_cons_takeWhile hc cs)
      (endsRun_dropWhile cs)
    rw [List.cons_append, List.takeWhile_append_dropWhile] at hsplit
    rw [hsplit, List.flatMap_cons, ih]
  | case3 c cs hc ih =>
    have hc := eq_false_of_ne_true hc
    rw [splitBy_cons_of_not hc, List.flatMap_cons, other c hc, ih]
    rfl

theorem standsFrom_of_endsRun (plain : name.all isNameChar = true) (ends : EndsRun rest) :
    StandsFrom fresh name rest ↔ Stands name rest := by
  cases rest with
  | nil => exact iff_of_false (not_standsFrom_nil _ _) (not_standsFrom_nil _ _)
  | cons c cs =>
    rw [Stands, standsFrom_cons, standsFrom_cons, not_startsWithToken_of_endsRun plain ends]
    simp

theorem standsFrom_inside (plain : name.all isNameChar = true) (all : run.all isNameChar = true)
    (ends : EndsRun rest) : StandsFrom false name (run ++ rest) ↔ Stands name rest := by
  induction run with
  | nil => exact standsFrom_of_endsRun plain ends
  | cons c cs ih =>
    rw [List.all_cons, Bool.and_eq_true] at all
    rw [List.cons_append, standsFrom_cons, all.1, Bool.not_true, ih all.2]
    exact or_iff_right fun h => Bool.false_ne_true h.1

theorem stands_run_append (plain : name.all isNameChar = true) (hne : run ≠ [])
    (all : run.all isNameChar = true) (ends : EndsRun rest) :
    Stands name (run ++ rest) ↔ name = run ∨ Stands name rest := by
  obtain ⟨c, cs, rfl⟩ := List.exists_cons_of_ne_nil hne
  have hrun := all
  rw [List.all_cons, Bool.and_eq_true] at hrun
  rw [Stands, List.cons_append, standsFrom_cons, ← List.cons_append,
    startsWithToken_run_append plain hne all ends, hrun.1, Bool.not_true,
    standsFrom_inside plain hrun.2 ends]
  exact or_congr_left (and_iff_right rfl)

theorem stands_iff_mem_splitBy (plain : name.all isNameChar = true) :
    Stands name text ↔ name ∈ text.splitBy sameRun := by
  fun_induction onRuns id text with
  | case1 => exact iff_of_false (not_standsFrom_nil _ _) List.not_mem_nil
  | case2 c cs hc ih =>
    have ends := endsRun_dropWhile cs
    have all := all_cons_takeWhile hc cs
    have hne := List.cons_ne_nil c (cs.takeWhile isNameChar)
    have hsplit := splitBy_run_append hne all ends
    have hstands := stands_run_append plain hne all ends
    rw [List.cons_append, List.takeWhile_append_dropWhile] at hsplit hstands
    rw [hstands, hsplit, List.mem_cons, ih]
  | case3 c cs hc ih =>
    have hc := eq_false_of_ne_true hc
    have ends : EndsRun (c :: cs) := by
      rintro _ ⟨⟩
      exact hc
    have hne : name ≠ [c] := by
      rintro rfl
      rw [List.all_cons, hc] at plain
      cases plain
    rw [splitBy_cons_of_not hc, List.mem_cons, or_iff_right hne, ← ih, Stands, standsFrom_cons,
      not_startsWithToken_of_endsRun plain ends, hc]
    exact or_iff_right fun h => Bool.false_ne_true h.2

end Pieces

section Rename

variable {pairs pairs' : NamePairs}

theorem mem_pieces {name s : String} :
    name ∈ pieces s ↔ name.toList ∈ s.toList.splitBy sameRun := by
  rw [pieces, List.mem_map]
  constructor
  · rintro ⟨piece, h, rfl⟩
    rwa [String.toList_ofList]
  · exact fun h => ⟨_, h, String.ofList_toList⟩

theorem stands_iff_mem_pieces {name s : String} (plain : name.toList.all isNameChar = true) :
    Stands name.toList s.toList ↔ name ∈ pieces s :=
  (stands_iff_mem_splitBy plain).trans mem_pieces.symm

theorem join_pieces (s : String) : String.join (pieces s) = s := by
  refine String.toList_inj.1 ?_
  rw [String.toList_join, pieces, List.flatMap_map]
  simp only [String.toList_ofList, List.flatMap_id', List.flatten_splitBy]

theorem replacement_of_not_mem {piece : String} (h : piece ∉ Entries.keys pairs) :
    replacement pairs piece = piece := by
  rw [replacement, Entries.find?_eq_none_iff.2 h, Option.getD_none]

theorem renameRun_eq_replacement (distinct : Entries.Distinct pairs)
    (plain : ∀ p ∈ pairs, p.1.toList.all isNameChar = true) {run : List Char} (hne : run ≠ [])
    (all : run.all isNameChar = true) :
    renameRun (pairs.map fun p => (p.1.toList, p.2.toList)) run =
      (replacement pairs (String.ofList run)).toList := by
  have hplain : ∀ r ∈ pairs.map fun p => (p.1.toList, p.2.toList), r.1.all isNameChar = true :=
    List.forall_mem_map.2 plain
  rcases renameRun_cases hplain hne all with ⟨r, hr, hrun, heq⟩ | ⟨hother, heq⟩
  · obtain ⟨p, hp, rfl⟩ := List.mem_map.1 hr
    obtain rfl : p.1.toList = run := hrun
    rw [heq, String.ofList_toList, replacement, Entries.find?_of_mem distinct hp,
      Option.getD_some]
  · have hkey : String.ofList run ∉ Entries.keys pairs := by
      intro hmem
      obtain ⟨p, hp, hname⟩ := List.mem_map.1 hmem
      exact hother _ (List.mem_map_of_mem hp) (by rw [hname, String.toList_ofList])
    rw [heq, replacement_of_not_mem hkey, String.toList_ofList]

theorem toList_join_replacements (distinct : Entries.Distinct pairs)
    (plain : ∀ p ∈ pairs, p.1.toList.all isNameChar = true) (s : String) :
    (String.join ((pieces s).map (replacement pairs))).toList =
      onRuns (renameRun (pairs.map fun p => (p.1.toList, p.2.toList))) s.toList := by
  have other : ∀ c, isNameChar c = false →
      (replacement pairs (String.ofList [c])).toList = [c] := by
    intro c hc
    have hkey : String.ofList [c] ∉ Entries.keys pairs := by
      intro hmem
      obtain ⟨p, hp, hname⟩ := List.mem_map.1 hmem
      have hall := plain p hp
      rw [hname, String.toList_ofList, List.all_cons, hc] at hall
      cases hall
    rw [replacement_of_not_mem hkey, String.toList_ofList]
  rw [onRuns_congr (fun run hne all => renameRun_eq_replacement distinct plain hne all),
    onRuns_eq_flatMap other, String.toList_join, pieces, List.map_map, List.flatMap_map]
  rfl

theorem renameText_eq_none_iff_pieces (plain : ∀ p ∈ pairs, p.1.toList.all isNameChar = true)
    {s : String} :
    renameText pairs s = none ↔ ¬ ∃ piece ∈ pieces s, piece ∈ Entries.keys pairs := by
  rw [renameText_eq_none_iff]
  constructor
  · rintro h ⟨piece, hpiece, hmem⟩
    obtain ⟨p, hp, rfl⟩ := List.mem_map.1 hmem
    exact h p hp ((stands_iff_mem_pieces (plain p hp)).2 hpiece)
  · intro h p hp hstands
    exact h ⟨p.1, (stands_iff_mem_pieces (plain p hp)).1 hstands, List.mem_map_of_mem hp⟩

/-- Renaming puts new names in the place of the pieces of a text that are old names of name
characters, all at once, and does nothing to a text without such a piece.  In which order the
renames are given never matters. -/
theorem renameText_eq_replacements (distinct : Entries.Distinct pairs) (s : String) :
    ((∀ p ∈ pairs, p.1.toList.all isNameChar = true) →
      renameText pairs s =
        if ∃ piece ∈ pieces s, piece ∈ Entries.keys pairs then
          some (String.join ((pieces s).map (replacement pairs)))
        else none) ∧
      ∀ pairs', pairs.Perm pairs' → renameText pairs' s = renameText pairs s := by
  refine ⟨fun plain => ?_, fun pairs' hperm => ?_⟩
  · cases h : renameText pairs s with
    | none => rw [if_neg ((renameText_eq_none_iff_pieces plain).1 h)]
    | some out =>
      have hsome : ∃ piece ∈ pieces s, piece ∈ Entries.keys pairs := by
        by_contra hno
        cases h.symm.trans ((renameText_eq_none_iff_pieces plain).2 hno)
      have hout : out.toList = (String.join ((pieces s).map (replacement pairs))).toList := by
        rw [toList_join_replacements distinct plain,
          ← getD_renameTokens? (List.forall_mem_map.2 plain), ← toList_getD_renameText, h,
          Option.getD_some]
      rw [if_pos hsome, String.toList_inj.1 hout]
  · refine (renameText_congr (fun p => hperm.mem_iff) (fun p hp p' hp' heq => ?_) s).symm
    exact List.inj_on_of_nodup_map distinct hp hp' heq

theorem renameText_eq_replacements_chained :
    Entries.Distinct [("app", "web"), ("app-config", "app"), ("web", "app")] ∧
      renameText [("app", "web"), ("app-config", "app"), ("web", "app")]
        "app app-config my-app/web.yaml" = some "web app my-app/app.yaml" ∧
      renameText [("app-config", "app"), ("app", "web"), ("web", "app")]
        "app app-config my-app/web.yaml" = some "web app my-app/app.yaml" := by
  have distinct : Entries.Distinct [("app", "web"), ("app-config", "app"), ("web", "app")] := by
    simp [Entries.Distinct, Entries.keys]
  obtain ⟨hpieces, horder⟩ := renameText_eq_replacements distinct "app app-config my-app/web.yaml"
  have hout : renameText [("app", "web"), ("app-config", "app"), ("web", "app")]
      "app app-config my-app/web.yaml" = some "web app my-app/app.yaml" := by
    rw [hpieces (by decide)]
    decide +kernel
  exact ⟨distinct, hout, (horder _ (.swap _ _ _)).trans hout⟩

end Rename

end Manifest.Reference
