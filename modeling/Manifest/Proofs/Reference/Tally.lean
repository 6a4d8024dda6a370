import Manifest.Proofs.FieldPath.Compared
import Manifest.Proofs.Reference.Repair
import Manifest.Proofs.Tree.TextEdit

/-! A repair goes path by path and counts the texts it renames.  Where the nodes of two paths lie
apart and no comparison changes its outcome, the paths do not see each other: a run over several
paths is one rewriting of the tree it started from. -/

namespace Manifest.Reference

def located (path : String) (t : Tree) : Except Error (List Position) := do
  (← (FieldPath.parse path).mapError (.path path ·)).locate t

def nodesAt (path : String) (t : Tree) : List Position := (located path t).toOption.getD []

def comparedAt (path : String) (t : Tree) : List (Position × String) :=
  (FieldPath.parse path).toOption.elim [] fun p => t.compared p.segments

theorem nodesAt_of_located {path : String} {t : Tree} {ps : List Position}
    (h : located path t = .ok ps) : nodesAt path t = ps := by
  rw [nodesAt, h]
  rfl

theorem exists_located_of_mem {path : String} {t : Tree} {q : Position}
    (h : q ∈ nodesAt path t) : ∃ ps, located path t = .ok ps ∧ q ∈ ps := by
  rw [nodesAt] at h
  cases hps : located path t with
  | error e =>
    rw [hps] at h
    cases h
  | ok ps =>
    rw [hps] at h
    exact ⟨ps, rfl, h⟩

theorem located_eq_ok {path : String} {t : Tree} {ps : List Position} :
    located path t = .ok ps ↔
      ∃ p, FieldPath.parse path = .ok p ∧ t.addressed true p.segments = .ok ps := by
  rw [located, bind_eq_ok]
  exact exists_congr fun p => and_congr mapError_eq_ok mapError_eq_ok

theorem located_congr {path : String} {keys : List String} (keyed : FieldPath.Keyed path keys)
    {t t' : Tree} (h : t.outline = t'.outline) : located path t = located path t' := by
  have hlocated : ∀ u : Tree, located path u =
      (u.addressed true (keys.map .field)).mapError (Mismatch.toError path) := fun u => by
    rw [located, keyed]
    rfl
  rw [hlocated, hlocated, Tree.addressed_congr h]

theorem nodesAt_congr {path : String} {keys : List String} (keyed : FieldPath.Keyed path keys)
    {t t' : Tree} (h : t.outline = t'.outline) : nodesAt path t = nodesAt path t' := by
  rw [nodesAt, nodesAt, located_congr keyed h]

theorem located_mapTexts {f : Position → String → String} {t : Tree} (wf : t.WellFormed)
    {path : String} (h : Tree.Keeps f (comparedAt path t) t.texts) :
    located path (t.mapTexts f) = located path t := by
  rw [comparedAt] at h
  rw [located, located]
  cases hp : FieldPath.parse path with
  | error e => rfl
  | ok p =>
    rw [hp] at h
    have heq := Tree.addressed_mapTexts true t wf p.segments h
    exact congrArg (Except.mapError (·.toError p.source)) heq

theorem setAll_renamed {path : String} (pairs : NamePairs) {t : Tree} (wf : t.WellFormed)
    {ps : List Position} (h : located path t = .ok ps) :
    t.setAll (t.mapped (renamed pairs) ps) = t.rewrite (.below ps (renameText pairs)) := by
  obtain ⟨p, hp, hps⟩ := located_eq_ok.1 h
  have there : ∀ q ∈ ps, (t.get? q).isSome := fun q hq =>
    (Tree.addresses_of_mem_addressed true t _ hps hq).get?_isSome
  have hrename : renameAt path pairs t = .ok (t.setAll (t.mapped (renamed pairs) ps)) :=
    bind_eq_ok.2 ⟨p, mapError_eq_ok.2 hp, bind_eq_ok.2 ⟨ps, mapError_eq_ok.2 hps, rfl⟩⟩
  obtain ⟨p', ps', hp', hps', same, inside, outside⟩ := renameAt_eq_ok hrename
  obtain rfl := Except.ok.inj (hp.symm.trans hp')
  obtain rfl := Except.ok.inj (hps.symm.trans hps')
  refine Tree.eq_mapTexts_of_outline wf same fun x hx => ?_
  -- a text lies at or below an addressed node, or apart from all of them
  have hget := (Tree.mem_texts_iff wf).1 hx
  by_cases hin : Position.within ps x.1
  · obtain ⟨q, hq, r, hr⟩ := Position.within_eq_true_iff.1 hin
    obtain ⟨u, hu⟩ := Option.isSome_iff_exists.1 (there q hq)
    rw [← hr, Tree.get?_append, hu, Option.bind_some] at hget
    rw [TextEdit.below_of_within hin, ← hr, Tree.get?_append, inside q hq, hu, Option.map_some,
      Option.bind_some, renamed, Tree.editTexts_eq, Tree.get?_mapTexts, hget]
    rfl
  · rw [TextEdit.within_below _ _ _ _ hin, outside x.1, hget]
    · rfl
    · exact fun q hq => Tree.IsLeaf.apart (.inr ⟨x.2, hget⟩) (there q hq) fun hqx =>
        hin (Position.within_eq_true_iff.2 ⟨q, hq, hqx⟩)

theorem sum_editTexts {t : Tree} (wf : t.WellFormed) (f : String → Option String)
    {ps : List Position} (there : ∀ p ∈ ps, (t.get? p).isSome)
    (apart : ps.Pairwise Position.Apart) :
    ((ps.filterMap t.get?).map fun u => (u.editTexts f).2).sum = t.touched (.below ps f) := by
  induction ps with
  | nil => exact (List.countP_eq_zero.2 fun _ _ => by simp [TextEdit.below, Position.within]).symm
  | cons p ps ih =>
    obtain ⟨hp, there⟩ := List.forall_mem_cons.1 there
    obtain ⟨hapart, apart⟩ := List.pairwise_cons.1 apart
    obtain ⟨u, hu⟩ := Option.isSome_iff_exists.1 hp
    rw [List.filterMap_cons_some hu, List.map_cons, List.sum_cons, ih there apart,
      TextEdit.below_cons, Tree.touched_or, Tree.touched_below_singleton wf hu]
    exact (TextEdit.within_below _ f).disjoint (TextEdit.within_below _ f) (by simpa using hapart) _

theorem tallies_repairAt (path : String) (pairs : NamePairs) {t : Tree} (wf : t.WellFormed) :
    Tallies (repairAt path pairs t) ((located path t).map fun ps =>
      (t.rewrite (.below ps (renameText pairs)), t.touched (.below ps (renameText pairs)))) := by
  rw [repairAt]
  cases hp : FieldPath.parse path with
  | error fault =>
    rw [located, hp]
    exact .throw _
  | ok p =>
    have hlocate : located path t = p.locate t := by
      rw [located, hp]
      rfl
    have h := (tallies_applied p pairs t).bind fun r _ _ => .pure r.1
    rw [← hlocate] at h
    refine h.congr ?_
    cases hloc : located path t with
    | error e => rfl
    | ok ps =>
      obtain ⟨p', -, hps⟩ := located_eq_ok.1 hloc
      have hsum := sum_editTexts wf (renameText pairs)
        (fun q hq => (Tree.addresses_of_mem_addressed true t _ hps hq).get?_isSome)
        (Tree.addressed_pairwise_apart true t _ hps)
      exact congrArg Except.ok (Prod.ext (setAll_renamed pairs wf hloc) hsum)

/-- What the pairs at several paths make of a text: the first path at which a pair applies. -/
def edits (t : Tree) (byPath : Entries NamePairs) : TextEdit := fun q s =>
  byPath.findSome? fun e => TextEdit.below (nodesAt e.1 t) (renameText e.2) q s

theorem edits_append (t : Tree) (before after : Entries NamePairs) :
    edits t (before ++ after) = (edits t before).or (edits t after) := by
  funext q s
  exact List.findSome?_append

theorem edits_singleton (t : Tree) (e : String × NamePairs) :
    edits t [e] = .below (nodesAt e.1 t) (renameText e.2) := by
  funext q s
  exact List.findSome?_singleton

def NodesApart (t : Tree) (path path' : String) : Prop :=
  ∀ p ∈ nodesAt path t, ∀ q ∈ nodesAt path' t, Position.Apart p q

instance (t : Tree) (path path' : String) : Decidable (NodesApart t path path') :=
  inferInstanceAs (Decidable (∀ p ∈ _, ∀ q ∈ _, Position.Apart p q))

theorem within_edits (t : Tree) (byPath : Entries NamePairs) :
    (edits t byPath).Within (byPath.flatMap fun e => nodesAt e.1 t) := by
  intro q s h
  refine List.findSome?_eq_none_iff.2 fun e he => TextEdit.within_below _ _ q s fun hin => h ?_
  obtain ⟨p, hp, hpq⟩ := Position.within_eq_true_iff.1 hin
  exact Position.within_eq_true_iff.2 ⟨p, List.mem_flatMap.2 ⟨e, he, hp⟩, hpq⟩

theorem disjoint_edits {t : Tree} {before after : Entries NamePairs}
    (apart : ∀ e ∈ before, ∀ e' ∈ after, NodesApart t e.1 e'.1) (xs : List (Position × String)) :
    (edits t before).Disjoint (edits t after) xs := by
  refine (within_edits t before).disjoint (within_edits t after) (fun p hp q hq => ?_) xs
  obtain ⟨e, he, hpe⟩ := List.mem_flatMap.1 hp
  obtain ⟨e', he', hqe⟩ := List.mem_flatMap.1 hq
  exact apart e he e' he' p hpe q hqe

theorem keeps_edits_of_append {t : Tree} {before after : Entries NamePairs}
    {cs xs : List (Position × String)}
    (h : Tree.Keeps (fun q s => (edits t (before ++ after) q s).getD s) cs xs) :
    Tree.Keeps (fun q s => (edits t before q s).getD s) cs xs := by
  intro c hc x hx heq
  have hkeep := h c hc x hx heq
  rw [edits_append] at hkeep
  cases hbefore : edits t before x.1 x.2 with
  | none => simp only [hbefore, Option.getD_none]
  | some s => simpa [TextEdit.or, hbefore] using hkeep

theorem tallies_repairTree_of_append {t : Tree} (wf : t.WellFormed)
    {before after : Entries NamePairs}
    (apart : (before ++ after).Pairwise fun e e' => NodesApart t e.1 e'.1)
    (kept : ∀ e ∈ after, Tree.Keeps (fun q s => (edits t (before ++ after) q s).getD s)
      (comparedAt e.1 t) t.texts) :
    Tallies (repairTree after (t.rewrite (edits t before)))
      ((after.mapM fun e => located e.1 t).map fun _ =>
        (t.rewrite (edits t (before ++ after)), t.touched (edits t after))) := by
  induction after generalizing before with
  | nil =>
    have hzero : t.touched (edits t []) = 0 := List.countP_eq_zero.2 fun _ _ => by simp [edits]
    refine (Tallies.pure (t.rewrite (edits t before))).congr ?_
    rw [List.append_nil, hzero]
    rfl
  | cons e after ih =>
    have hbefore : ∀ e' ∈ before, NodesApart t e'.1 e.1 := fun e' he' =>
      (List.pairwise_append.1 apart).2.2 e' he' e List.mem_cons_self
    have hafter : ∀ e' ∈ after, NodesApart t e.1 e'.1 :=
      (List.pairwise_cons.1 (List.pairwise_append.1 apart).2.1).1
    have hdone : (edits t before).Disjoint (edits t [e]) t.texts :=
      disjoint_edits (by simpa using hbefore) t.texts
    have hrest : (edits t [e]).Disjoint (edits t after) t.texts :=
      disjoint_edits (by simpa using hafter) t.texts
    have hloc : located e.1 (t.rewrite (edits t before)) = located e.1 t :=
      located_mapTexts wf (keeps_edits_of_append (kept e List.mem_cons_self))
    -- the path that is done now goes over to the others
    have hsplit : before ++ e :: after = (before ++ [e]) ++ after := by simp
    rw [hsplit] at apart kept ⊢
    have hstep := tallies_repairAt e.1 e.2 (Tree.wellFormed_rewrite (e := edits t before) wf)
    rw [hloc] at hstep
    rw [repairTree_eq_foldlM, List.foldlM_cons, List.mapM_cons]
    cases hps : located e.1 t with
    | error err =>
      rw [hps] at hstep
      exact hstep.bind_error _
    | ok ps =>
      have hnodes : edits t [e] = .below ps (renameText e.2) := by
        rw [edits_singleton, nodesAt_of_located hps]
      rw [hps, Except.map, ← hnodes, Tree.rewrite_rewrite hdone, Tree.touched_rewrite hdone,
        ← edits_append] at hstep
      have hrun := hstep.bind_ok
        (ih apart fun e' he' => kept e' (List.mem_cons_of_mem e he'))
      refine hrun.congr ?_
      rw [show e :: after = [e] ++ after from rfl, edits_append t [e], Tree.touched_or hrest]
      cases after.mapM fun e => located e.1 t <;> rfl

theorem tallies_repairTree {t : Tree} (wf : t.WellFormed) {byPath : Entries NamePairs}
    (apart : byPath.Pairwise fun e e' => NodesApart t e.1 e'.1)
    (kept : ∀ e ∈ byPath, Tree.Keeps (fun q s => (edits t byPath q s).getD s)
      (comparedAt e.1 t) t.texts) :
    Tallies (repairTree byPath t) ((byPath.mapM fun e => located e.1 t).map fun _ =>
      (t.rewrite (edits t byPath), t.touched (edits t byPath))) := by
  have h := @tallies_repairTree_of_append t wf [] byPath apart kept
  rwa [Tree.rewrite_eq_self fun _ _ => rfl] at h

end Manifest.Reference
