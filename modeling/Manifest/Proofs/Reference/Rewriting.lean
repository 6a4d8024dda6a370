import Mathlib.Data.List.Nodup
import Manifest.Proofs.Reference.Tally

namespace Manifest.Reference

section Document

variable (rules : Rules) (renames : List Rename) (d : Document)

def pairsIn (q : Position) : NamePairs :=
  ((referrals rules renames d).filter fun x => Position.within (nodesAt x.1 d.tree) q).map Prod.snd

def referenceEdit : TextEdit := fun q s => renameText (pairsIn rules renames d q) s

def renamedAtOnce : Document := { d with tree := d.tree.rewrite (referenceEdit rules renames d) }

/-- Differently spelled paths that refer to renamed resources address nodes that lie apart. -/
def PathsApart : Prop :=
  ∀ x ∈ referrals rules renames d, ∀ y ∈ referrals rules renames d,
    x.1 ≠ y.1 → NodesApart d.tree x.1 y.1

def MatchesKept : Prop :=
  ∀ x ∈ referrals rules renames d,
    Tree.Keeps (fun q s => (referenceEdit rules renames d q s).getD s)
      (comparedAt x.1 d.tree) d.tree.texts

def NamesAgree : Prop :=
  ∀ x ∈ d.tree.texts, ∀ p ∈ pairsIn rules renames d x.1, ∀ p' ∈ pairsIn rules renames d x.1,
    p.1 = p'.1 → p = p'

instance : Decidable (PathsApart rules renames d) :=
  inferInstanceAs (Decidable (∀ x ∈ referrals rules renames d, ∀ y ∈ referrals rules renames d,
    x.1 ≠ y.1 → NodesApart d.tree x.1 y.1))

instance : Decidable (MatchesKept rules renames d) :=
  inferInstanceAs (Decidable (∀ x ∈ referrals rules renames d,
    Tree.Keeps _ (comparedAt x.1 d.tree) d.tree.texts))

instance : Decidable (NamesAgree rules renames d) :=
  inferInstanceAs (Decidable (∀ x ∈ d.tree.texts, ∀ p ∈ pairsIn rules renames d x.1,
    ∀ p' ∈ pairsIn rules renames d x.1, p.1 = p'.1 → p = p'))

end Document

variable {rules : Rules} {renames : List Rename} {d : Document}

theorem mem_pairsIn {q : Position} {pair : String × String} :
    pair ∈ pairsIn rules renames d q ↔
      ∃ path, (path, pair) ∈ referrals rules renames d ∧
        Position.within (nodesAt path d.tree) q := by
  simp only [pairsIn, List.mem_map, List.mem_filter, Prod.exists, exists_eq_right]

theorem exists_rename_of_mem_pairsIn {q : Position} {pair : String × String}
    (h : pair ∈ pairsIn rules renames d q) : ∃ r ∈ renames, pair = (r.old.name, r.new) := by
  obtain ⟨_, hpair, -⟩ := mem_pairsIn.1 h
  obtain ⟨r, hr, -, -, rfl⟩ := mem_referrals.1 hpair
  exact ⟨r, hr, rfl⟩

theorem namesAgree_of_nodup (distinct : (renames.map fun r => r.old.name).Nodup) :
    NamesAgree rules renames d := by
  intro x _ p hp p' hp' heq
  obtain ⟨r, hr, rfl⟩ := exists_rename_of_mem_pairsIn hp
  obtain ⟨r', hr', rfl⟩ := exists_rename_of_mem_pairsIn hp'
  have hsame : r = r' := List.inj_on_of_nodup_map distinct hr hr' heq
  rw [hsame]

theorem renameText_nil (s : String) : renameText [] s = none := renameText_eq_none_iff.2 nofun

theorem renameText_congr {pairs pairs' : NamePairs} (mem : ∀ p, p ∈ pairs ↔ p ∈ pairs')
    (agree : ∀ p ∈ pairs, ∀ p' ∈ pairs, p.1 = p'.1 → p = p') (s : String) :
    renameText pairs s = renameText pairs' s := by
  rw [renameText, renameText, renameTokens?_congr]
  · intro r
    rw [List.mem_map, List.mem_map]
    exact exists_congr fun p => and_congr_left fun _ => mem p
  · simp only [List.forall_mem_map]
    intro p hp p' hp' heq
    rw [agree p hp p' hp' (String.toList_inj.1 heq)]

theorem pairwise_apart_pairsByPath (apart : PathsApart rules renames d) :
    (pairsByPath rules renames d).Pairwise fun e e' => NodesApart d.tree e.1 e'.1 := by
  have hne : (pairsByPath rules renames d).Pairwise fun e e' => e.1 ≠ e'.1 :=
    List.pairwise_map.1 (distinct_pairsByPath rules renames d)
  refine List.Pairwise.imp_of_mem (fun {e e'} he he' hne => ?_) hne
  obtain ⟨pair, hpair⟩ := exists_referral_of_mem he
  obtain ⟨pair', hpair'⟩ := exists_referral_of_mem he'
  exact apart (e.1, pair) hpair (e'.1, pair') hpair' hne

theorem edits_of_within {t : Tree} {byPath : Entries NamePairs}
    (apart : byPath.Pairwise fun e e' => NodesApart t e.1 e'.1) {e : String × NamePairs}
    (he : e ∈ byPath) {q : Position} (hin : Position.within (nodesAt e.1 t) q) (s : String) :
    edits t byPath q s = renameText e.2 s := by
  obtain ⟨before, after, rfl⟩ := List.append_of_mem he
  obtain ⟨-, hafter, hbefore⟩ := List.pairwise_append.1 apart
  have hone : TextEdit.below (nodesAt e.1 t) (renameText e.2) q s = renameText e.2 s :=
    TextEdit.below_of_within hin _ s
  have hnone : edits t before q s = none := List.findSome?_eq_none_iff.2 fun e' he' =>
    TextEdit.within_below _ _ q s fun hin' =>
      Position.not_within_of_apart (hbefore e' he' e List.mem_cons_self) hin' hin
  have hnone' : edits t after q s = none := List.findSome?_eq_none_iff.2 fun e' he' =>
    TextEdit.within_below _ _ q s
      (Position.not_within_of_apart ((List.pairwise_cons.1 hafter).1 e' he') hin)
  rw [show before ++ e :: after = before ++ ([e] ++ after) from rfl, edits_append, edits_append,
    edits_singleton]
  simp only [TextEdit.or, hone, hnone, hnone', Option.none_or, Option.or_none]

theorem edits_pairsByPath (apart : PathsApart rules renames d) (agree : NamesAgree rules renames d)
    {x : Position × String} (hx : x ∈ d.tree.texts) :
    edits d.tree (pairsByPath rules renames d) x.1 x.2 = referenceEdit rules renames d x.1 x.2 := by
  rw [referenceEdit]
  by_cases h : ∃ e ∈ pairsByPath rules renames d, Position.within (nodesAt e.1 d.tree) x.1
  · obtain ⟨e, he, hin⟩ := h
    rw [edits_of_within (pairwise_apart_pairsByPath apart) he hin]
    refine (renameText_congr (fun p => ?_) (agree x hx) x.2).symm
    rw [mem_pairsIn, mem_pairsByPath he]
    -- only the path of `e` reaches the text
    refine ⟨fun ⟨path, hpath, hin'⟩ => ?_, fun hp => ⟨e.1, hp, hin⟩⟩
    obtain ⟨pair, hpair⟩ := exists_referral_of_mem he
    rcases eq_or_ne path e.1 with rfl | hne
    · exact hpath
    · have hapart := apart (path, p) hpath (e.1, pair) hpair hne
      exact absurd hin (Position.not_within_of_apart hapart hin')
  · have hnil : pairsIn rules renames d x.1 = [] := by
      refine List.eq_nil_iff_forall_not_mem.2 fun pair hpair => ?_
      obtain ⟨path, hpath, hin⟩ := mem_pairsIn.1 hpair
      obtain ⟨e, he, rfl⟩ := exists_mem_of_referral hpath
      exact h ⟨e, he, hin⟩
    rw [hnil, renameText_nil]
    exact List.findSome?_eq_none_iff.2 fun e he =>
      TextEdit.within_below _ _ x.1 x.2 fun hin => h ⟨e, he, hin⟩

variable (rules renames d) in
/-- All references renamed at once, with the number of texts that changed, once all paths have been
walked. -/
def repairedAtOnce : Except Error (Document × Nat) :=
  ((pairsByPath rules renames d).mapM fun e => located e.1 d.tree).map fun _ =>
    (renamedAtOnce rules renames d, d.tree.touched (referenceEdit rules renames d))

theorem tallies_repairDocument (wf : d.tree.WellFormed) (apart : PathsApart rules renames d)
    (agree : NamesAgree rules renames d) (kept : MatchesKept rules renames d) :
    Tallies (repairDocument rules renames d) (repairedAtOnce rules renames d) := by
  have hedits : ∀ x ∈ d.tree.texts, edits d.tree (pairsByPath rules renames d) x.1 x.2 =
      referenceEdit rules renames d x.1 x.2 := fun x hx => edits_pairsByPath apart agree hx
  have hkept : ∀ e ∈ pairsByPath rules renames d, Tree.Keeps
      (fun q s => (edits d.tree (pairsByPath rules renames d) q s).getD s)
      (comparedAt e.1 d.tree) d.tree.texts := by
    intro e he c hc x hx
    obtain ⟨pair, hpair⟩ := exists_referral_of_mem he
    simp only [hedits x hx]
    exact kept _ hpair c hc x hx
  refine ((tallies_repairTree wf (pairwise_apart_pairsByPath apart) hkept).bind
    fun t _ _ => .pure { d with tree := t }).congr ?_
  rw [Tree.rewrite_congr hedits, Tree.touched_congr hedits, repairedAtOnce]
  cases (pairsByPath rules renames d).mapM fun e => located e.1 d.tree <;> rfl

theorem repaired_eq_repairedAtOnce (wf : d.tree.WellFormed) (apart : PathsApart rules renames d)
    (agree : NamesAgree rules renames d) (kept : MatchesKept rules renames d) :
    repaired rules renames d = (repairedAtOnce rules renames d).map Prod.fst := by
  have h := tallies_repairDocument wf apart agree kept
  obtain ⟨r, hr, heq⟩ := exists_tallies_repairDocument rules renames d
  obtain ⟨m, hm⟩ := hr.exists_run 0
  obtain ⟨m', hm'⟩ := h.exists_run 0
  rw [← heq]
  exact (Prod.mk.inj (hm.symm.trans hm')).1

theorem repair_eq_repairedAtOnce {s : Store} (wf : ∀ d ∈ s.documents, d.tree.WellFormed)
    (apart : ∀ d ∈ s.documents, PathsApart rules renames d)
    (agree : ∀ d ∈ s.documents, NamesAgree rules renames d)
    (kept : ∀ d ∈ s.documents, MatchesKept rules renames d) :
    repair rules renames s = (s.documents.mapM (repairedAtOnce rules renames)).map fun ys =>
      ({ documents := ys.map Prod.fst }, (ys.map Prod.snd).sum) := by
  have h := Tallies.mapM fun d hd =>
    tallies_repairDocument (wf d hd) (apart d hd) (agree d hd) (kept d hd)
  rw [repair]
  cases hys : s.documents.mapM (repairedAtOnce rules renames) with
  | error e =>
    rw [hys] at h
    obtain ⟨m, hm⟩ := h 0
    rw [hm]
    rfl
  | ok ys =>
    rw [hys] at h
    rw [h 0, Nat.zero_add]
    rfl

variable (rules renames d) in
def NameStands (x : Position × String) : Prop :=
  ∃ pair ∈ pairsIn rules renames d x.1, Stands pair.1.toList x.2.toList

instance (x : Position × String) : Decidable (NameStands rules renames d x) :=
  inferInstanceAs (Decidable (∃ pair ∈ _, _))

theorem referenceEdit_eq_none_iff {x : Position × String} :
    referenceEdit rules renames d x.1 x.2 = none ↔ ¬ NameStands rules renames d x := by
  rw [referenceEdit, renameText_eq_none_iff, NameStands]
  simp only [not_exists, not_and]

theorem touched_referenceEdit : d.tree.touched (referenceEdit rules renames d) =
    d.tree.texts.countP fun x => decide (NameStands rules renames d x) := by
  refine List.countP_congr fun x _ => ?_
  rw [decide_eq_true_iff, ← not_iff_not, ← referenceEdit_eq_none_iff, Option.not_isSome_iff_eq_none]

structure RenamesReferences (rules : Rules) (renames : List Rename) (d d' : Document) : Prop where
  previous : d'.previous = d.previous
  outline : d'.tree.outline = d.tree.outline
  texts : ∀ x ∈ d.tree.texts, d'.tree.get? x.1 =
    some (.text ((renameText (pairsIn rules renames d x.1) x.2).getD x.2))
  outside : ∀ x ∈ d.tree.texts,
    (∀ y ∈ referrals rules renames d, ¬ Position.within (nodesAt y.1 d.tree) x.1) →
      d'.tree.get? x.1 = some (.text x.2)
  whole : ∀ x ∈ d.tree.texts, x.2 ≠ "" → ∀ new, (x.2, new) ∈ pairsIn rules renames d x.1 →
    d'.tree.get? x.1 = some (.text new)
  unchanged : (∀ x ∈ d.tree.texts, ¬ NameStands rules renames d x) → d' = d

theorem renamesReferences_renamedAtOnce (wf : d.tree.WellFormed)
    (agree : NamesAgree rules renames d) :
    RenamesReferences rules renames d (renamedAtOnce rules renames d) := by
  have htexts : ∀ x ∈ d.tree.texts, (renamedAtOnce rules renames d).tree.get? x.1 =
      some (.text ((renameText (pairsIn rules renames d x.1) x.2).getD x.2)) := by
    intro x hx
    rw [renamedAtOnce, Tree.rewrite, Tree.get?_mapTexts, (Tree.mem_texts_iff wf).1 hx]
    simp only [Option.map_some, Tree.mapTexts, List.append_nil, referenceEdit]
  refine ⟨rfl, Tree.outline_rewrite _ d.tree, htexts, fun x hx hout => ?_,
    fun x hx hne new hnew => ?_, fun h => ?_⟩
  · have hnil : pairsIn rules renames d x.1 = [] :=
      List.map_eq_nil_iff.2 (List.filter_eq_nil_iff.2 hout)
    rw [htexts x hx, hnil, renameText_nil, Option.getD_none]
  · have hname : renameText (pairsIn rules renames d x.1) x.2 = some new :=
      renameText_of_mem hne ⟨_, hnew, rfl⟩ fun p hp heq =>
        congrArg Prod.snd (agree x hx p hp (x.2, new) hnew heq)
    rw [htexts x hx, hname, Option.getD_some]
  · have hself : d.tree.rewrite (referenceEdit rules renames d) = d.tree :=
      Tree.rewrite_eq_self fun x hx => referenceEdit_eq_none_iff.2 (h x hx)
    rw [renamedAtOnce, hself]

def listRules (paths : List String) : Rules where
  names := [{ type := { version := "v1", kind := "ConfigMap" }
              fields := paths.map (Rules.spec "Foo") }]

def fooWithList (items : List Tree) : Document where
  tree := .map [("apiVersion", .text "v1"), ("kind", .text "Foo"),
    ("metadata", .map [("name", .text "f")]), ("spec", .map [("list", .list items)])]

def listItem (name ref : String) : Tree := .map [("name", .text name), ("ref", .text ref)]

def configMapRename (old new : String) : Rename where
  old := { type := { version := "v1", kind := "ConfigMap" }, name := old }
  new

/-- A repair renames exactly the texts of the referring fields, each once and all at once, and
counts the texts in which an old name stands. -/
theorem repair_renames_references {s s' : Store} {k : Nat}
    (wf : ∀ d ∈ s.documents, d.tree.WellFormed)
    (distinct : (renames.map fun r => r.old.name).Nodup)
    (apart : ∀ d ∈ s.documents, PathsApart rules renames d)
    (kept : ∀ d ∈ s.documents, MatchesKept rules renames d)
    (h : repair rules renames s = .ok (s', k)) :
    s'.documents = s.documents.map (renamedAtOnce rules renames) ∧
      (∀ d ∈ s.documents, RenamesReferences rules renames d (renamedAtOnce rules renames d)) ∧
      k = (s.documents.map fun d =>
        d.tree.texts.countP fun x => decide (NameStands rules renames d x)).sum := by
  rw [repair_eq_repairedAtOnce wf apart (fun _ _ => namesAgree_of_nodup distinct) kept] at h
  obtain ⟨ys, hys, heq⟩ := map_eq_ok.1 h
  have hdocs : ys = s.documents.map fun d =>
      (renamedAtOnce rules renames d, d.tree.touched (referenceEdit rules renames d)) := by
    refine eq_map_of_map_eq_ok (mapM_eq_ok.1 hys) fun d _ y hy => ?_
    obtain ⟨_, -, rfl⟩ := map_eq_ok.1 hy
    rfl
  obtain ⟨rfl, rfl⟩ := Prod.mk.inj heq
  rw [hdocs, List.map_map, List.map_map]
  refine ⟨rfl, fun d hd => ?_, ?_⟩
  · exact renamesReferences_renamedAtOnce (wf d hd) (namesAgree_of_nodup distinct)
  · exact congrArg List.sum (List.map_congr_left fun d _ => touched_referenceEdit)

theorem repair_renames_references_chained :
    ∃ d', RenamesReferences (listRules ["spec/list[name=kept]/ref"])
      [configMapRename "a" "b", configMapRename "b" "c"]
      (fooWithList [listItem "kept" "a", listItem "other" "a", listItem "kept" "b"]) d' ∧
      d' = fooWithList [listItem "kept" "b", listItem "other" "a", listItem "kept" "c"] := by
  obtain ⟨hdocs, hspec, -⟩ := @repair_renames_references
    (listRules ["spec/list[name=kept]/ref"]) [configMapRename "a" "b", configMapRename "b" "c"]
    ⟨[fooWithList [listItem "kept" "a", listItem "other" "a", listItem "kept" "b"]]⟩
    ⟨[fooWithList [listItem "kept" "b", listItem "other" "a", listItem "kept" "c"]]⟩ 2
    (by decide +kernel) (by decide) (by decide +kernel) (by decide +kernel)
    (eq_ok_of_toOption (by decide +kernel))
  exact ⟨_, hspec _ List.mem_cons_self, (List.cons.inj hdocs).1.symm⟩

/-- When a rename changes what a later path compares, the field behind the match is left out. -/
theorem not_repair_renames_references_in_general :
    ¬ ∀ (rules : Rules) (renames : List Rename) (s s' : Store) (k : Nat),
      (∀ d ∈ s.documents, d.tree.WellFormed) → (renames.map fun r => r.old.name).Nodup →
      (∀ d ∈ s.documents, PathsApart rules renames d) → repair rules renames s = .ok (s', k) →
      s'.documents = s.documents.map (renamedAtOnce rules renames) := by
  intro h
  have hdocs := h (listRules ["spec/list/name", "spec/list[name=a]/ref"]) [configMapRename "a" "b"]
    ⟨[fooWithList [listItem "a" "a"]]⟩ ⟨[fooWithList [listItem "b" "a"]]⟩ 1
    (by decide +kernel) (by decide) (by decide +kernel) (eq_ok_of_toOption (by decide +kernel))
  exact absurd hdocs (by decide +kernel)

end Manifest.Reference
