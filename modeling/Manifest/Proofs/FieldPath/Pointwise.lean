import Manifest.Proofs.FieldPath.Spared

namespace Manifest

namespace Tree

def blockage? : Segment → Tree → Option Mismatch
  | _, .list _ | _, .null | .field _, .map _ => none
  | .field _, t => some (.ofNode "object" t)
  | _, t => some (.ofNode "array" t)

inductive Blocks : Tree → List Segment → Position → Mismatch → Prop
  | here {t s rest m} : blockage? s t = some m → Blocks t (s :: rest) [] m
  | item {items i u s rest p m} : items[i]? = some u → picks s i u →
      Blocks u (afterList s rest) p m → Blocks (.list items) (s :: rest) (.index i :: p) m
  | entry {es key u rest p m} : Entries.find? key es = some u → Blocks u rest p m →
      Blocks (.map es) (.field key :: rest) (.key key :: p) m

variable {spread : Bool} {t : Tree} {s : Segment} {segments rest : List Segment} {p : Position}
  {ps : List Position} {m : Mismatch}

theorem addressed_of_blockage (h : blockage? s t = some m) :
    t.addressed spread (s :: rest) = .error m := by
  cases t <;> cases s <;> simp_all [blockage?, addressed]

theorem Blocks.not_addressed (h : Blocks t segments p m) :
    t.addressed spread segments ≠ .ok ps := by
  induction h generalizing ps with
  | here h => simp [addressed_of_blockage h]
  | item hu hpick _ ih =>
    intro hps
    obtain ⟨qs, hqs, -⟩ := exists_of_addressedItems (j := _) hps hu (by rwa [Nat.zero_add])
    exact ih hqs
  | entry hu _ ih =>
    intro hps
    obtain ⟨qs, hqs, -⟩ := exists_of_addressedEntry hps hu
    exact ih hqs

theorem addressedItems_eq_error {pick : Nat → Tree → Bool} {items : List Tree} {i : Nat}
    (h : addressedItems spread pick segments i items = .error m) : ∃ j u, items[j]? = some u ∧
      pick (i + j) u = true ∧ u.addressed spread segments = .error m ∧
      ∀ k < j, ∀ v, items[k]? = some v → pick (i + k) v = true →
        ∃ ps, v.addressed spread segments = .ok ps := by
  induction items generalizing i with
  | nil => cases h
  | cons t ts ih =>
    rw [addressedItems] at h
    split at h
    · rename_i m' hhere
      obtain rfl : m' = m := Except.error.inj h
      split at hhere
      · exact ⟨0, t, rfl, ‹_›, hhere, fun k hk => absurd hk (Nat.not_lt_zero k)⟩
      · cases hhere
    · rename_i here hhere
      split at h
      · rename_i m' hlater
        obtain rfl : m' = m := Except.error.inj h
        obtain ⟨j, u, hu, hpick, herror, hbefore⟩ := ih hlater
        refine ⟨j + 1, u, hu, by rwa [← Nat.add_assoc, Nat.add_right_comm], herror, ?_⟩
        intro k hk v hv hpick
        cases k with
        | zero =>
          obtain rfl : t = v := Option.some.inj hv
          rw [Nat.add_zero] at hpick
          rw [if_pos hpick] at hhere
          exact ⟨here, hhere⟩
        | succ k =>
          rw [← Nat.add_assoc, Nat.add_right_comm] at hpick
          exact hbefore k (Nat.lt_of_succ_lt_succ hk) v hv hpick
      · cases h

theorem addressedEntry_eq_error {key : String} {es : Entries Tree}
    (h : addressedEntry spread key segments es = .error m) :
    ∃ u, Entries.find? key es = some u ∧ u.addressed spread segments = .error m := by
  induction es with
  | nil => cases h
  | cons e es ih =>
    obtain ⟨k, t⟩ := e
    rw [addressedEntry] at h
    rw [Entries.find?_cons]
    split at h
    · rename_i hk
      rw [if_pos hk]
      cases ha : t.addressed spread segments with
      | error m' =>
        rw [ha] at h
        obtain rfl : m' = m := Except.error.inj h
        exact ⟨t, rfl, ha⟩
      | ok qs =>
        rw [ha] at h
        cases h
    · rename_i hk
      rw [if_neg hk]
      exact ih h

/-- No node that comes earlier in document order is blocked. -/
def FirstBlock (t : Tree) (segments : List Segment) (p : Position) (m : Mismatch) : Prop :=
  t.Blocks segments p m ∧
    ∀ q m', t.Blocks segments q m' → q = p ∧ m' = m ∨ Position.Before p q

theorem firstBlock_here (h : blockage? s t = some m) : t.FirstBlock (s :: rest) [] m := by
  refine ⟨.here h, fun q m' hq => ?_⟩
  cases hq with
  | here h' => exact .inl ⟨rfl, Option.some.inj (h'.symm.trans h)⟩
  | item => cases s <;> cases h
  | entry => cases h

theorem FirstBlock.item {items : List Tree} {i : Nat} {u : Tree}
    (h : u.FirstBlock (afterList s rest) p m) (hu : items[i]? = some u) (hpick : picks s i u = true)
    (earlier : ∀ k < i, ∀ v, items[k]? = some v → picks s k v = true →
      ∃ ps, v.addressed spread (afterList s rest) = .ok ps) :
    (list items).FirstBlock (s :: rest) (.index i :: p) m := by
  refine ⟨.item hu hpick h.1, fun q m' hq => ?_⟩
  cases hq with
  | here hb => cases s <;> cases hb
  | @item _ j v _ _ q _ hv hvpick hq =>
    rcases Nat.lt_trichotomy j i with hlt | rfl | hgt
    · obtain ⟨ps, hps⟩ := earlier j hlt v hv hvpick
      exact absurd hps hq.not_addressed
    · obtain rfl : u = v := Option.some.inj (hu.symm.trans hv)
      simpa using h.2 q m' hq
    · exact .inr (Position.before_of_lt hgt p q)

theorem FirstBlock.entry {es : Entries Tree} {key : String} {u : Tree}
    (h : u.FirstBlock rest p m) (hu : Entries.find? key es = some u) :
    (map es).FirstBlock (.field key :: rest) (.key key :: p) m := by
  refine ⟨.entry hu h.1, fun q m' hq => ?_⟩
  cases hq with
  | here hb => cases hb
  | @entry _ _ v _ q _ hv hq =>
    obtain rfl : u = v := Option.some.inj (hu.symm.trans hv)
    simpa using h.2 q m' hq

theorem exists_firstBlock (h : t.addressed spread segments = .error m) :
    ∃ p, t.FirstBlock segments p m := by
  induction t using Tree.induction generalizing segments with
  | scalar t hscalar =>
    cases segments with
    | nil => cases t <;> cases h
    | cons s rest =>
      refine ⟨[], firstBlock_here ?_⟩
      cases t <;> cases s <;> simp_all [blockage?, isScalar, addressed]
  | list items ih =>
    cases segments with
    | nil => cases h
    | cons s rest =>
      rw [addressed] at h
      obtain ⟨i, u, hu, hpick, herror, earlier⟩ := addressedItems_eq_error h
      simp only [Nat.zero_add] at hpick earlier
      obtain ⟨p, hp⟩ := ih u (List.mem_of_getElem? hu) herror
      exact ⟨.index i :: p, hp.item hu hpick earlier⟩
  | map es ih =>
    cases segments with
    | nil => cases h
    | cons s rest =>
      cases s with
      | field key =>
        rw [addressed] at h
        obtain ⟨u, hu, herror⟩ := addressedEntry_eq_error h
        obtain ⟨p, hp⟩ := ih (key, u) (Entries.mem_of_find? hu) herror
        exact ⟨.key key :: p, hp.entry hu⟩
      | index i => exact ⟨[], firstBlock_here (congrArg some (Except.error.inj h))⟩
      | matching key value => exact ⟨[], firstBlock_here (congrArg some (Except.error.inj h))⟩

structure AddressedAt (t : Tree) (segments : List Segment) (ps : List Position) : Prop where
  unblocked : ∀ p m, ¬ t.Blocks segments p m
  mem_iff : ∀ p, p ∈ ps ↔ t.Addresses true segments p
  ordered : ps.Pairwise Position.Before
  apart : ps.Pairwise Position.Apart

theorem addressedAt_of_addressed (h : t.addressed true segments = .ok ps) :
    t.AddressedAt segments ps where
  unblocked _ _ hblocks := hblocks.not_addressed h
  mem_iff _ := mem_addressed_iff h
  ordered := addressed_pairwise_before true t segments h
  apart := addressed_pairwise_apart true t segments h

structure Written (t : Tree) (ps : List Position) (vs : List Tree) (t' : Tree) : Prop where
  length_eq : vs.length = ps.length
  here : ∀ x ∈ ps.zip vs, t'.get? x.1 = some x.2
  around : ∀ q, (∀ p ∈ ps, ¬ p <+: q) → (t'.get? q).map bare = (t.get? q).map bare
  apart : ∀ q, (∀ p ∈ ps, Position.Apart p q) → t'.get? q = t.get? q

theorem written_setAll {vs : List Tree} (apart : ps.Pairwise Position.Apart)
    (there : ∀ p ∈ ps, (t.get? p).isSome) (hlength : vs.length = ps.length) :
    t.Written ps vs (t.setAll (ps.zip vs)) := by
  have hzip : (ps.zip vs).Pairwise fun x y => Position.Apart x.1 y.1 := by
    rw [← List.map_fst_zip (Nat.le_of_eq hlength.symm)] at apart
    exact List.pairwise_map.1 apart
  have hmem : ∀ x ∈ ps.zip vs, x.1 ∈ ps := fun x hx => (List.of_mem_zip hx).1
  exact {
    length_eq := hlength
    here := fun x hx => get?_setAll_of_mem hzip hx (there x.1 (hmem x hx))
    around := fun q hq => bare_get?_setAll _ (fun x hx => hq x.1 (hmem x hx)) t
    apart := fun q hq => get?_setAll_of_apart _ (fun x hx => hq x.1 (hmem x hx)) t }

theorem map_get?_eq (there : ∀ p ∈ ps, (t.get? p).isSome) :
    ps.map t.get? = (ps.filterMap t.get?).map some := by
  induction ps with
  | nil => rfl
  | cons p ps ih =>
    rw [List.forall_mem_cons] at there
    obtain ⟨u, hu⟩ := Option.isSome_iff_exists.1 there.1
    simp [hu, ih there.2]

end Tree

/-- The calls of an edit on some nodes, one after the other and none after a failure: their results
or the failure, and the state behind them. -/
inductive Calls {σ : Type} (edit : Edit σ) :
    List Tree → σ → Except Error (List Tree) → σ → Prop
  | nil {s} : Calls edit [] s (.ok []) s
  | error {u us s e s'} : (edit u).run s = (.error e, s') → Calls edit (u :: us) s (.error e) s'
  | ok {u us v s s₁ r s'} : (edit u).run s = (.ok v, s₁) → Calls edit us s₁ r s' →
      Calls edit (u :: us) s (r.map (v :: ·)) s'

namespace FieldPath

variable {σ : Type}

theorem calls_mapM (edit : Edit σ) (us : List Tree) (s : σ) :
    Calls edit us s ((us.mapM edit).run s).1 ((us.mapM edit).run s).2 := by
  induction us generalizing s with
  | nil => exact .nil
  | cons u us ih =>
    rw [List.mapM_cons, run_bind]
    cases hu : (edit u).run s with
    | mk r s₁ =>
      cases r with
      | error e => exact .error hu
      | ok v =>
        have h := Calls.ok hu (ih s₁)
        simp only [ExceptT.bindCont]
        change Calls edit (u :: us) s
          ((us.mapM edit >>= fun vs => pure (v :: vs)).run s₁).1
          ((us.mapM edit >>= fun vs => pure (v :: vs)).run s₁).2
        rw [run_bind]
        cases hus : (us.mapM edit).run s₁ with
        | mk r s' =>
          rw [hus] at h
          cases r <;> exact h

theorem Calls.length_eq {edit : Edit σ} {us vs : List Tree} {s s' : σ}
    {r : Except Error (List Tree)} (h : Calls edit us s r s') (hr : r = .ok vs) :
    vs.length = us.length := by
  induction h generalizing vs with
  | nil => cases hr; rfl
  | error => cases hr
  | ok _ _ ih =>
    obtain ⟨ws, rfl, rfl⟩ := map_eq_ok.1 hr
    simp [ih rfl]

/-- How an edit along a path ends: at the first node that blocks the walk, at the first call that
fails, or with the result of every call in its place. -/
inductive Outcome (p : FieldPath) (edit : Edit σ) (t : Tree) (s : σ) :
    (Except Error Nat × Tree) × σ → Prop
  | blocked {q m} : t.FirstBlock p.segments q m →
      Outcome p edit t s ((.error (m.toError p.source), t), s)
  | failed {ps us e s'} : t.AddressedAt p.segments ps → ps.map t.get? = us.map some →
      Calls edit us s (.error e) s' → Outcome p edit t s ((.error e, t), s')
  | edited {ps us vs t' s'} : t.AddressedAt p.segments ps → ps.map t.get? = us.map some →
      Calls edit us s (.ok vs) s' → t.Written ps vs t' →
      Outcome p edit t s ((.ok us.length, t'), s')

inductive Edited (edit : Edit σ) (t : Tree) (ps : List Position) (us : List Tree) (s : σ) :
    Except Error (Tree × Nat) → σ → Prop
  | failed {e s'} : Calls edit us s (.error e) s' → Edited edit t ps us s (.error e) s'
  | written {vs t' s'} : Calls edit us s (.ok vs) s' → t.Written ps vs t' → (ps = [] → t' = t) →
      Edited edit t ps us s (.ok (t', us.length)) s'

theorem edited_editAt {segments : List Segment} {t : Tree} {ps : List Position} (edit : Edit σ)
    (s : σ) (h : t.addressed true segments = .ok ps) : ∃ us, ps.map t.get? = us.map some ∧
      Edited edit t ps us s ((editAt t ps edit).run s).1 ((editAt t ps edit).run s).2 := by
  have there : ∀ q ∈ ps, (t.get? q).isSome := fun q hq =>
    ((Tree.mem_addressed_iff h).1 hq).get?_isSome
  have hnodes := Tree.map_get?_eq there
  have hlength : (ps.filterMap t.get?).length = ps.length := by
    simpa using (congrArg List.length hnodes).symm
  have hcalls := calls_mapM edit (ps.filterMap t.get?) s
  refine ⟨ps.filterMap t.get?, hnodes, ?_⟩
  rw [editAt, run_bind]
  cases hrun : ((ps.filterMap t.get?).mapM edit).run s with
  | mk r s' =>
    rw [hrun] at hcalls
    cases r with
    | error e => exact .failed hcalls
    | ok vs =>
      have hvs := (Calls.length_eq hcalls rfl).trans hlength
      have hwritten := Tree.written_setAll (Tree.addressedAt_of_addressed h).apart there hvs
      have hdone := Edited.written hcalls hwritten fun hnil => by rw [hnil]; rfl
      rw [hlength] at hdone
      exact hdone

theorem editAt_pure (f : Tree → Tree) (t : Tree) (ps : List Position) :
    (editAt t ps fun u => pure (f u) : ExceptT Error (StateM σ) (Tree × Nat)) =
      pure (t.setAll (t.mapped f ps), ps.length) := by
  have hmap : (ps.filterMap t.get?).mapM (fun u => pure (f u) : Edit σ) =
      pure ((ps.filterMap t.get?).map f) := List.mapM_pure
  rw [editAt, hmap, pure_bind]
  rfl

theorem setAll_mapped_id {t : Tree} {ps : List Position} (there : ∀ p ∈ ps, (t.get? p).isSome) :
    t.setAll (t.mapped (fun u => u) ps) = t :=
  Tree.setAll_eq_self fun x hx => by simpa using ((Tree.mem_mapped there).1 hx).2

theorem outcome_of_apply (p : FieldPath) (edit : Edit σ) (t : Tree) (s : σ) :
    Outcome p edit t s (((p.apply false edit).call t).run s) := by
  rw [run_apply_eq]
  cases h : t.addressed true p.segments with
  | error m =>
    obtain ⟨q, hq⟩ := Tree.exists_firstBlock h
    rw [run_applied_of_error edit s h]
    exact .blocked hq
  | ok ps =>
    have haddressed := Tree.addressedAt_of_addressed h
    obtain ⟨us, hnodes, hedited⟩ := edited_editAt edit s h
    rw [run_applied_of_ok edit s h]
    cases hrun : (editAt t ps edit).run s with
    | mk r s' =>
      rw [hrun] at hedited
      cases hedited with
      | failed hcalls => exact .failed haddressed hnodes hcalls
      | written hcalls hwritten _ => exact .edited haddressed hnodes hcalls hwritten

theorem eq_of_identity (p : FieldPath) (t : Tree) (s : σ) :
    (((p.apply false fun u => pure u).call t).run s).1.2 = t := by
  rw [run_apply_eq]
  cases h : t.addressed true p.segments with
  | error m => rw [run_applied_of_error _ s h]
  | ok ps =>
    rw [run_applied_of_ok _ s h, editAt_pure (fun u => u) t ps]
    exact setAll_mapped_id fun q hq => ((Tree.mem_addressed_iff h).1 hq).get?_isSome

theorem outcome_apply (p : FieldPath) (edit : Edit σ) (t : Tree) (s : σ) :
    Outcome p edit t s (((p.apply false edit).call t).run s) ∧
      (((p.apply false fun u => pure u).call t).run s).1.2 = t :=
  ⟨outcome_of_apply p edit t s, eq_of_identity p t s⟩

end FieldPath

end Manifest
