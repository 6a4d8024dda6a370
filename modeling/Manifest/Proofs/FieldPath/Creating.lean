import Manifest.Proofs.FieldPath.Pointwise

/-! An edit that may add keys walks the tree with these keys in it.  That walk is blocked exactly
when the walk of the tree itself is, so that an edit ends in the same ways whether it may add keys
or not. -/

namespace Manifest

namespace Tree

variable {spread : Bool} {t : Tree} {segments : List Segment} {q : Position} {m : Mismatch}

def mismatch? {α : Type} : Except Mismatch α → Option Mismatch
  | .error m => some m
  | .ok _ => none

theorem growEntry_snd_of_find? {key : String} {es : Entries Tree} (segments : List Segment)
    (h : Entries.find? key es = none) : (growEntry key segments es).2 = none := by
  induction es with
  | nil => rfl
  | cons e es ih =>
    obtain ⟨k, t⟩ := e
    rw [Entries.find?_cons] at h
    split at h
    · cases h
    · rename_i hk
      rw [growEntry, if_neg hk]
      exact ih h

mutual

theorem grow_snd (spread : Bool) : (t : Tree) → (segments : List Segment) →
    (t.grow segments).2 = mismatch? (t.addressed spread segments)
  | .list _, [] | .map _, [] | .null, [] | .boolean _, [] | .integer _, [] | .decimal _, []
  | .text _, [] => rfl
  | .list items, s :: rest => growItems_snd spread (picks s) (afterList s rest) 0 items
  | .null, _ :: _ => rfl
  | .map es, .field key :: rest => by
    rw [grow, addressed, ← growEntry_snd spread key rest es]
    split
    · rfl
    · rename_i hhas
      have hnone : Entries.find? key es = none := by simpa [Entries.has] using hhas
      rw [growEntry_snd_of_find? rest hnone]
      split <;> rfl
  | .map _, .index _ :: _ | .map _, .matching _ _ :: _ => rfl
  | .boolean _, s :: _ | .integer _, s :: _ | .decimal _, s :: _ | .text _, s :: _ => by
    cases s <;> rfl

theorem growItems_snd (spread : Bool) (pick : Nat → Tree → Bool) (segments : List Segment)
    (i : Nat) : (items : List Tree) →
    (growItems pick segments i items).2 =
      mismatch? (addressedItems spread pick segments i items)
  | [] => rfl
  | t :: ts => by
    have ht := grow_snd spread t segments
    have hts := growItems_snd spread pick segments (i + 1) ts
    rw [growItems, addressedItems]
    by_cases hpick : pick i t = true
    · rw [if_pos hpick, if_pos hpick]
      cases hg : t.grow segments with
      | mk u m =>
        rw [hg] at ht
        cases ha : t.addressed spread segments with
        | error m' =>
          rw [ha] at ht
          obtain rfl : m = some m' := ht
          rfl
        | ok here =>
          rw [ha] at ht
          obtain rfl : m = none := ht
          refine hts.trans ?_
          cases addressedItems spread pick segments (i + 1) ts <;> rfl
    · rw [if_neg hpick, if_neg hpick]
      refine hts.trans ?_
      cases addressedItems spread pick segments (i + 1) ts <;> rfl

theorem growEntry_snd (spread : Bool) (key : String) (segments : List Segment) :
    (es : List (String × Tree)) →
    (growEntry key segments es).2 = mismatch? (addressedEntry spread key segments es)
  | [] => rfl
  | (k, t) :: es => by
    rw [growEntry, addressedEntry]
    split
    · have ht := grow_snd spread t segments
      cases h : t.addressed spread segments <;> simp_all [mismatch?, Except.map]
    · exact growEntry_snd spread key segments es

end

theorem not_blocks_chain {keys : List String} :
    ¬ (chain (keys.map .field)).Blocks (keys.map .field) q m := by
  induction keys generalizing q with
  | nil => nofun
  | cons key keys ih =>
    intro h
    cases h with
    | here h => cases h
    | entry hu h =>
      rw [Entries.find?_cons, if_pos rfl] at hu
      exact ih (Option.some.inj hu ▸ h)

theorem Blocks.of_grow (h : Blocks (t.grow segments).1 segments q m) : Blocks t segments q m := by
  induction t using Tree.induction generalizing segments q with
  | scalar t hscalar =>
    cases t with
    | null =>
      obtain ⟨key, keys, rfl, hgrow⟩ | ⟨-, hgrow⟩ := grow_null_cases segments
      · rw [hgrow] at h
        exact absurd h not_blocks_chain
      · rwa [hgrow] at h
    | list | map => cases hscalar
    | boolean | integer | decimal | text =>
      cases segments with
      | nil => exact h
      | cons s => cases s <;> exact h
  | list items ih =>
    cases segments with
    | nil => exact h
    | cons s rest =>
      cases h with
      | here hb => cases s <;> cases hb
      | item hv hpick hblocks =>
        obtain ⟨u, hu, rfl | ⟨hpick', rfl⟩⟩ := exists_of_growItems hv
        · exact .item hu hpick hblocks
        · exact .item hu hpick' (ih u (List.mem_of_getElem? hu) hblocks)
  | map es ih =>
    cases segments with
    | nil => exact h
    | cons s rest =>
      cases s with
      | index | matching => exact h
      | field key =>
        obtain ⟨u, hu, hgrow⟩ | ⟨hnone, ⟨keys, rfl, hgrow⟩ | ⟨-, hgrow⟩⟩ :=
          grow_map_cases key rest es
        · rw [hgrow] at h
          cases h with
          | here hb => cases hb
          | entry hv hblocks =>
            obtain rfl := Option.some.inj ((find?_grown hu rest).symm.trans hv)
            exact .entry hu (ih (key, u) (Entries.mem_of_find? hu) hblocks)
        · rw [hgrow] at h
          cases h with
          | here hb => cases hb
          | entry hv hblocks =>
            obtain rfl := Option.some.inj ((find?_added hnone _).symm.trans hv)
            exact absurd hblocks not_blocks_chain
        · rwa [hgrow] at h

theorem exists_addressed_grow {ps : List Position} (h : t.addressed true segments = .ok ps) :
    ∃ qs, (t.grow segments).1.addressed true segments = .ok qs := by
  cases hgrown : (t.grow segments).1.addressed true segments with
  | ok qs => exact ⟨qs, rfl⟩
  | error m =>
    obtain ⟨q, hq, -⟩ := exists_firstBlock hgrown
    exact absurd h hq.of_grow.not_addressed

theorem Written.map_get? {ps : List Position} {vs : List Tree} {t' : Tree}
    (h : t.Written ps vs t') : ps.map t'.get? = vs.map some := by
  obtain ⟨hlength, hhere, -, -⟩ := h
  induction ps generalizing vs with
  | nil =>
    obtain rfl := List.length_eq_zero_iff.1 hlength
    rfl
  | cons p ps ih =>
    obtain ⟨v, vs, rfl⟩ := List.exists_cons_of_length_eq_add_one hlength
    rw [List.zip_cons_cons, List.forall_mem_cons] at hhere
    rw [List.map_cons, hhere.1, ih (Nat.succ.inj hlength) hhere.2]
    rfl

end Tree

namespace FieldPath

variable {σ : Type} {p : FieldPath} {create : Bool} {t : Tree}

def walked (p : FieldPath) (create : Bool) (t : Tree) : Tree :=
  if create then (t.grow p.segments).1 else t

inductive Ending (p : FieldPath) (create : Bool) (edit : Edit σ) (t : Tree) (s : σ) :
    (Except Error Nat × Tree) × σ → Prop
  | blocked {q m} : t.FirstBlock p.segments q m →
      Ending p create edit t s ((.error (m.toError p.source), t), s)
  | failed {ps us e s'} : (p.walked create t).AddressedAt p.segments ps →
      ps.map (p.walked create t).get? = us.map some → Calls edit us s (.error e) s' →
      Ending p create edit t s ((.error e, t), s')
  | edited {ps us vs t' s'} : (p.walked create t).AddressedAt p.segments ps →
      ps.map (p.walked create t).get? = us.map some → Calls edit us s (.ok vs) s' →
      (ps = [] → t' = t) → (ps ≠ [] → (p.walked create t).Written ps vs t') →
      Ending p create edit t s ((.ok us.length, t'), s')

theorem locateGrown_of_error {m : Mismatch} (h : t.addressed true p.segments = .error m) :
    (p.locateGrown t).2 = .error (m.toError p.source) := by
  have hgrow := t.grow_snd true p.segments
  rw [h] at hgrow
  rw [locateGrown]
  cases hg : t.grow p.segments with
  | mk grown m' =>
    rw [hg] at hgrow
    obtain rfl : m' = some m := hgrow
    rfl

theorem locateGrown_of_ok {ps : List Position} (h : t.addressed true p.segments = .ok ps) :
    ∃ qs, (t.grow p.segments).1.addressed true p.segments = .ok qs ∧
      p.locateGrown t = ((t.grow p.segments).1, .ok qs) := by
  obtain ⟨qs, hqs⟩ := Tree.exists_addressed_grow h
  have hgrow := t.grow_snd true p.segments
  rw [h] at hgrow
  refine ⟨qs, hqs, ?_⟩
  rw [locateGrown]
  cases hg : t.grow p.segments with
  | mk grown m =>
    rw [hg] at hgrow hqs
    obtain rfl : m = none := hgrow
    exact congrArg (Prod.mk grown) (locate_eq_ok.2 hqs)

theorem run_applied_creating_of_error {m : Mismatch} (edit : Edit σ) (s : σ)
    (h : t.addressed true p.segments = .error m) :
    (p.applied true edit t).run s = (.error (m.toError p.source), s) :=
  run_applied_of_locateGrown_error (Prod.ext rfl (locateGrown_of_error h)) edit s

theorem run_applied_creating_of_ok {ps : List Position} (edit : Edit σ) (s : σ)
    (h : t.addressed true p.segments = .ok ps) :
    ∃ qs, (t.grow p.segments).1.addressed true p.segments = .ok qs ∧
      (p.applied true edit t).run s =
        (editAt (t.grow p.segments).1 qs edit >>= fun x =>
          (pure (if 0 < x.2 then x.1 else t, x.2) : ExceptT Error (StateM σ) _)).run s := by
  obtain ⟨qs, hqs, hlocate⟩ := locateGrown_of_ok h
  exact ⟨qs, hqs, run_applied_of_locateGrown hlocate edit s⟩

theorem ending_apply (p : FieldPath) (create : Bool) (edit : Edit σ) (t : Tree) (s : σ) :
    Ending p create edit t s (((p.apply create edit).call t).run s) := by
  rw [run_apply_eq]
  cases h : t.addressed true p.segments with
  | error m =>
    obtain ⟨q, hq⟩ := Tree.exists_firstBlock h
    cases create with
    | false =>
      rw [run_applied_of_error edit s h]
      exact .blocked hq
    | true =>
      rw [run_applied_creating_of_error edit s h]
      exact .blocked hq
  | ok ps =>
    cases create with
    | false =>
      obtain ⟨us, hnodes, hedited⟩ := edited_editAt edit s h
      rw [run_applied_of_ok edit s h]
      cases hrun : (editAt t ps edit).run s with
      | mk r s' =>
        rw [hrun] at hedited
        cases hedited with
        | failed hcalls => exact .failed (Tree.addressedAt_of_addressed h) hnodes hcalls
        | written hcalls hwritten hnil =>
          exact .edited (Tree.addressedAt_of_addressed h) hnodes hcalls hnil fun _ => hwritten
    | true =>
      obtain ⟨qs, hqs, hrun⟩ := run_applied_creating_of_ok edit s h
      obtain ⟨us, hnodes, hedited⟩ := edited_editAt edit s hqs
      have haddressed := Tree.addressedAt_of_addressed hqs
      have hlength : us.length = qs.length := by
        simpa using (congrArg List.length hnodes).symm
      rw [hrun, run_bind]
      cases hedit : (editAt (t.grow p.segments).1 qs edit).run s with
      | mk r s' =>
        rw [hedit] at hedited
        cases hedited with
        | failed hcalls => exact .failed haddressed hnodes hcalls
        | @written vs t' _ hcalls hwritten _ =>
          cases qs with
          | nil =>
            obtain rfl : us = [] := List.length_eq_zero_iff.1 hlength
            exact .edited haddressed hnodes hcalls (fun _ => rfl) fun hne => absurd rfl hne
          | cons q qs =>
            have hpos : 0 < us.length := by rw [hlength]; exact Nat.succ_pos _
            have hdone : Ending p true edit t s ((.ok us.length, t'), s') :=
              .edited haddressed hnodes hcalls (fun h => absurd h (List.cons_ne_nil q qs))
                fun _ => hwritten
            change Ending p true edit t s ((.ok us.length, if 0 < us.length then t' else t), s')
            rw [if_pos hpos]
            exact hdone

end FieldPath

end Manifest
