import Manifest.Proofs.Reference.Builtin
import Manifest.Proofs.Reference.Rewriting

namespace Manifest.Reference

variable {rules : Rules} {renames renames' : List Rename} {d : Document}

theorem referrals_perm (h : renames.Perm renames') (rules : Rules) (d : Document) :
    (referrals rules renames d).Perm (referrals rules renames' d) :=
  (h.filter _).flatMap_right _

theorem pairsIn_perm (h : renames.Perm renames') (rules : Rules) (d : Document) (q : Position) :
    (pairsIn rules renames d q).Perm (pairsIn rules renames' d q) :=
  ((referrals_perm h rules d).filter _).map _

theorem PathsApart.perm (apart : PathsApart rules renames d) (h : renames.Perm renames') :
    PathsApart rules renames' d := fun x hx y hy =>
  apart x ((referrals_perm h rules d).mem_iff.2 hx) y ((referrals_perm h rules d).mem_iff.2 hy)

theorem NamesAgree.perm (agree : NamesAgree rules renames d) (h : renames.Perm renames') :
    NamesAgree rules renames' d := fun x hx p hp p' hp' =>
  agree x hx p ((pairsIn_perm h rules d x.1).mem_iff.2 hp) p'
    ((pairsIn_perm h rules d x.1).mem_iff.2 hp')

theorem referenceEdit_perm (agree : NamesAgree rules renames d) (h : renames.Perm renames')
    {x : Position × String} (hx : x ∈ d.tree.texts) :
    referenceEdit rules renames d x.1 x.2 = referenceEdit rules renames' d x.1 x.2 :=
  renameText_congr (fun _ => (pairsIn_perm h rules d x.1).mem_iff) (agree x hx) x.2

theorem MatchesKept.perm (kept : MatchesKept rules renames d) (agree : NamesAgree rules renames d)
    (h : renames.Perm renames') : MatchesKept rules renames' d := by
  intro y hy c hc x hx
  simp only [← referenceEdit_perm agree h hx]
  exact kept y ((referrals_perm h rules d).mem_iff.2 hy) c hc x hx

/-- Paths of the document that cannot be walked report one error. -/
def FailsAlike (rules : Rules) (renames : List Rename) (d : Document) : Prop :=
  ∀ x ∈ referrals rules renames d, ∀ y ∈ referrals rules renames d, ∀ e e' : Error,
    located x.1 d.tree = .error e → located y.1 d.tree = .error e' → e = e'

theorem repairedAtOnce_eq_ok {y : Document × Nat} : repairedAtOnce rules renames d = .ok y ↔
    (∀ x ∈ referrals rules renames d, ∃ ps, located x.1 d.tree = .ok ps) ∧
      y = (renamedAtOnce rules renames d, d.tree.touched (referenceEdit rules renames d)) := by
  have hpaths : (∀ e ∈ pairsByPath rules renames d, ∃ ps, located e.1 d.tree = .ok ps) ↔
      ∀ x ∈ referrals rules renames d, ∃ ps, located x.1 d.tree = .ok ps := by
    constructor
    · intro h x hx
      obtain ⟨e, he, heq⟩ := exists_mem_of_referral hx
      rw [← heq]
      exact h e he
    · intro h e he
      obtain ⟨pair, hpair⟩ := exists_referral_of_mem he
      exact h (e.1, pair) hpair
  rw [repairedAtOnce, map_eq_ok, exists_and_right, ← hpaths, ← exists_map_eq_ok_iff]
  exact and_congr (exists_congr fun _ => mapM_eq_ok) eq_comm

theorem exists_error_of_repairedAtOnce {e : Error} (h : repairedAtOnce rules renames d = .error e) :
    ∃ x ∈ referrals rules renames d, located x.1 d.tree = .error e := by
  rw [repairedAtOnce] at h
  cases hwalk : (pairsByPath rules renames d).mapM fun e => located e.1 d.tree with
  | ok ps =>
    rw [hwalk] at h
    cases h
  | error e' =>
    rw [hwalk] at h
    obtain rfl : e' = e := Except.error.inj h
    obtain ⟨entry, hentry, hlocated⟩ := exists_error_of_mapM hwalk
    obtain ⟨pair, hpair⟩ := exists_referral_of_mem hentry
    exact ⟨_, hpair, hlocated⟩

theorem repairedAtOnce_perm_eq_ok (agree : NamesAgree rules renames d) (h : renames.Perm renames')
    {y : Document × Nat} :
    repairedAtOnce rules renames d = .ok y ↔ repairedAtOnce rules renames' d = .ok y := by
  have hedit : ∀ x ∈ d.tree.texts, referenceEdit rules renames d x.1 x.2 =
      referenceEdit rules renames' d x.1 x.2 := fun _ hx => referenceEdit_perm agree h hx
  rw [repairedAtOnce_eq_ok, repairedAtOnce_eq_ok, renamedAtOnce, renamedAtOnce,
    Tree.rewrite_congr hedit, Tree.touched_congr hedit]
  exact and_congr_left fun _ => forall_congr' fun x =>
    imp_congr_left (referrals_perm h rules d).mem_iff

theorem repairedAtOnce_perm (agree : NamesAgree rules renames d) (h : renames.Perm renames')
    (alike : FailsAlike rules renames d) :
    repairedAtOnce rules renames d = repairedAtOnce rules renames' d := by
  cases hy : repairedAtOnce rules renames d with
  | ok y => exact ((repairedAtOnce_perm_eq_ok agree h).1 hy).symm
  | error e =>
    cases hy' : repairedAtOnce rules renames' d with
    | ok y =>
      rw [(repairedAtOnce_perm_eq_ok agree h).2 hy'] at hy
      cases hy
    | error e' =>
      obtain ⟨x, hx, hlocated⟩ := exists_error_of_repairedAtOnce hy
      obtain ⟨x', hx', hlocated'⟩ := exists_error_of_repairedAtOnce hy'
      rw [alike x hx x' ((referrals_perm h rules d).mem_iff.2 hx') e e' hlocated hlocated']

theorem repair_perm_eq_ok {s s' : Store} {k : Nat} (h : renames.Perm renames')
    (wf : ∀ d ∈ s.documents, d.tree.WellFormed)
    (apart : ∀ d ∈ s.documents, PathsApart rules renames d)
    (agree : ∀ d ∈ s.documents, NamesAgree rules renames d)
    (kept : ∀ d ∈ s.documents, MatchesKept rules renames d) :
    repair rules renames s = .ok (s', k) ↔ repair rules renames' s = .ok (s', k) := by
  rw [repair_eq_repairedAtOnce wf apart agree kept, repair_eq_repairedAtOnce wf
    (fun d hd => (apart d hd).perm h) (fun d hd => (agree d hd).perm h)
    fun d hd => (kept d hd).perm (agree d hd) h, map_eq_ok, map_eq_ok]
  refine exists_congr fun ys => and_congr_left fun _ => ?_
  rw [mapM_eq_ok, mapM_eq_ok]
  exact map_eq_ok_congr fun d hd y => repairedAtOnce_perm_eq_ok (agree d hd) h

/-- The order of the renames does not matter: not to the store, not to the count, and not to the
error, if there is only one to report. -/
theorem repair_perm {s : Store} (h : renames.Perm renames')
    (wf : ∀ d ∈ s.documents, d.tree.WellFormed)
    (apart : ∀ d ∈ s.documents, PathsApart rules renames d)
    (agree : ∀ d ∈ s.documents, NamesAgree rules renames d)
    (kept : ∀ d ∈ s.documents, MatchesKept rules renames d) :
    (∀ s' k, repair rules renames s = .ok (s', k) ↔ repair rules renames' s = .ok (s', k)) ∧
      ((∀ d ∈ s.documents, FailsAlike rules renames d) →
        repair rules renames s = repair rules renames' s) := by
  refine ⟨fun s' k => repair_perm_eq_ok h wf apart agree kept, fun alike => ?_⟩
  rw [repair_eq_repairedAtOnce wf apart agree kept, repair_eq_repairedAtOnce wf
    (fun d hd => (apart d hd).perm h) (fun d hd => (agree d hd).perm h)
    fun d hd => (kept d hd).perm (agree d hd) h,
    mapM_congr fun d hd => repairedAtOnce_perm (agree d hd) h (alike d hd)]

theorem repair_perm_chained :
    repair (listRules ["spec/list[name=kept]/ref"])
        [configMapRename "b" "c", configMapRename "a" "b"]
        ⟨[fooWithList [listItem "kept" "a", listItem "kept" "b"]]⟩ =
      .ok (⟨[fooWithList [listItem "kept" "b", listItem "kept" "c"]]⟩, 2) :=
  ((@repair_perm (listRules ["spec/list[name=kept]/ref"])
    [configMapRename "a" "b", configMapRename "b" "c"]
    [configMapRename "b" "c", configMapRename "a" "b"]
    ⟨[fooWithList [listItem "kept" "a", listItem "kept" "b"]]⟩ (.swap _ _ [])
    (by decide +kernel) (by decide +kernel) (by decide +kernel) (by decide +kernel)).1 _ _).1
    (eq_ok_of_toOption (by decide +kernel))

/-- The empty namespace and `default` are the same, so two renames of one name can meet in a text;
the last of them wins. -/
theorem not_repair_perm_in_general :
    ¬ ∀ (rules : Rules) (renames renames' : List Rename) (s : Store), renames.Perm renames' →
      (∀ d ∈ s.documents, d.tree.WellFormed) →
      repair rules renames s = repair rules renames' s := by
  intro h
  have heq := h .builtin
    [configMapRename "a" "x", { configMapRename "a" "y" with old.ns := "default" }]
    [{ configMapRename "a" "y" with old.ns := "default" }, configMapRename "a" "x"]
    ⟨[podWithVolume "a"]⟩ (.swap _ _ [])
    (by decide +kernel)
  exact absurd (congrArg Except.toOption heq) (by decide +kernel)

theorem nodesAt_keys {path : String} {keys : List String} (h : FieldPath.Keyed path keys) {t : Tree}
    {q : Position} (hq : q ∈ nodesAt path t) : q.keys = keys := by
  obtain ⟨ps, hlocated, hmem⟩ := exists_located_of_mem hq
  obtain ⟨p, hp, hps⟩ := located_eq_ok.1 hlocated
  obtain rfl := Except.ok.inj (h.symm.trans hp)
  exact (Tree.addresses_of_mem_addressed true t _ hps hmem).keys_eq rfl

theorem pathsApart_builtin (renames : List Rename) (d : Document) :
    PathsApart .builtin renames d := by
  have fields : ∀ x ∈ referrals .builtin renames d,
      ∃ k spec keys, BuiltinField k spec keys ∧ spec.path = x.1 ∧ spec.type.kind = d.kind := by
    intro x hx
    obtain ⟨e, he, heq⟩ := exists_mem_of_referral hx
    rw [← heq]
    exact exists_keys_of_mem_pairsByPath (List.mem_map_of_mem he)
  intro x hx y hy hne p hp q hq
  obtain ⟨k, spec, keys, hf, hpath, hkind⟩ := fields x hx
  obtain ⟨k', spec', keys', hf', hpath', hkind'⟩ := fields y hy
  have hkeys := hf.keysApart hf' (hkind.trans hkind'.symm) (by rwa [hpath, hpath'])
  have hpkeys : p.keys = keys := nodesAt_keys (hpath ▸ hf.keyed) hp
  have hqkeys : q.keys = keys' := nodesAt_keys (hpath' ▸ hf'.keyed) hq
  exact Position.apart_of_keys (by rw [hpkeys, hqkeys]; exact hkeys.1)
    (by rw [hpkeys, hqkeys]; exact hkeys.2)

theorem matchesKept_builtin (renames : List Rename) (d : Document) :
    MatchesKept .builtin renames d := by
  intro x hx
  obtain ⟨e, he, heq⟩ := exists_mem_of_referral hx
  obtain ⟨k, spec, keys, hf, hpath, -⟩ := exists_keys_of_mem_pairsByPath (List.mem_map_of_mem he)
  have hnil : comparedAt x.1 d.tree = [] := by
    rw [comparedAt, ← heq, ← hpath, hf.keyed]
    refine Tree.compared_eq_nil d.tree _ fun s hs i => ?_
    obtain ⟨key, -, rfl⟩ := List.mem_map.1 hs
    rfl
  rw [hnil]
  exact fun c hc => absurd hc List.not_mem_nil

theorem repair_builtin_perm {s s' : Store} {k : Nat} (h : renames.Perm renames')
    (wf : ∀ d ∈ s.documents, d.tree.WellFormed)
    (distinct : (renames.map fun r => r.old.name).Nodup) :
    repair .builtin renames s = .ok (s', k) ↔ repair .builtin renames' s = .ok (s', k) :=
  repair_perm_eq_ok h wf (fun d _ => pathsApart_builtin renames d)
    (fun _ _ => namesAgree_of_nodup distinct) fun d _ => matchesKept_builtin renames d

end Manifest.Reference
