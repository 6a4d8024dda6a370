import Manifest.FieldPath.Walk
import Manifest.Proofs.InPlace

namespace Manifest.FieldPath

open InPlace

variable {σ : Type} {p : FieldPath} {create : Bool} {edit : Edit σ} {t t' base : Tree}
  {ps : List Position} {s s' : σ} {e : Error} {n : Nat}

theorem call_locateIn_of_locate {r : Except Error (List Position)} (h : p.locate t = r) :
    (p.locateIn false : InPlace Tree (StateM σ) (List Position)).call t = pure (r, t) := by
  rw [locateIn, if_neg Bool.false_ne_true, call_bind, call_get, pure_bind, ← h]
  exact call_liftM _ _

theorem call_locateIn_of_locateGrown {r : Except Error (List Position)}
    (h : p.locateGrown t = (base, r)) :
    (p.locateIn true : InPlace Tree (StateM σ) (List Position)).call t = pure (r, base) := by
  rw [locateIn, if_pos rfl, call_bind, call_get, pure_bind]
  simp only [h, call_bind, call_set, pure_bind]
  exact call_liftM _ _

theorem run_write_of_error
    (h : (p.locateIn create : InPlace Tree (StateM σ) (List Position)).call t =
      pure (.error e, base)) (edit : Edit σ) (s : σ) :
    ((p.write create edit).call t).run s = ((.error e, base), s) := by
  rw [write, call_bind, h]
  rfl

theorem run_write_of_ok
    (h : (p.locateIn create : InPlace Tree (StateM σ) (List Position)).call t = pure (.ok ps, base))
    (edit : Edit σ) (s : σ) : ((p.write create edit).call t).run s =
      match ((ps.filterMap base.get?).mapM edit).run s with
      | (.ok us, s') => ((.ok ps.length, base.setAll (ps.zip us)), s')
      | (.error e, s') => ((.error e, base), s') := by
  rw [write, call_bind, h, pure_bind]
  simp only [call_bind, call_get, pure_bind, mapM_beside, call_beside, call_forM_modify, call_pure,
    map_eq_pure_bind, bind_assoc]
  rw [InPlace.run_bind]
  cases ((ps.filterMap base.get?).mapM edit).run s with
  | mk r s' => cases r <;> rfl

theorem run_apply (p : FieldPath) (edit : Edit σ) (t : Tree) (s : σ) :
    ((p.apply false edit).call t).run s =
      match p.locate t with
      | .error e => ((.error e, t), s)
      | .ok ps =>
        match ((ps.filterMap t.get?).mapM edit).run s with
        | (.ok us, s') => ((.ok ps.length, t.setAll (ps.zip us)), s')
        | (.error e, s') => ((.error e, t), s') := by
  rw [apply, if_neg Bool.false_ne_true]
  cases h : p.locate t with
  | error e => exact run_write_of_error (call_locateIn_of_locate h) edit s
  | ok ps => exact run_write_of_ok (call_locateIn_of_locate h) edit s

theorem run_apply_staged (p : FieldPath) (edit : Edit σ) (t : Tree) (s : σ) :
    ((p.apply true edit).call t).run s =
      match ((p.write true edit).call t).run s with
      | ((.ok n, staged), s') => ((.ok n, if 0 < n then staged else t), s')
      | ((.error e, _), s') => ((.error e, t), s') := by
  rw [apply, if_pos rfl, run_onCopy_bind]
  cases ((p.write true edit).call t).run s with
  | mk r s' =>
    obtain ⟨r, staged⟩ := r
    cases r with
    | error e => rfl
    | ok n => by_cases hn : 0 < n <;> simp [hn] <;> rfl

/-- Nothing is left of an edit that fails. -/
theorem eq_of_run_apply (h : ((p.apply create edit).call t).run s = ((.error e, t'), s')) :
    t' = t := by
  cases create with
  | false =>
    rw [run_apply] at h
    split at h
    · cases h; rfl
    · split at h <;> cases h
      rfl
  | true =>
    rw [run_apply_staged] at h
    split at h <;> cases h
    rfl

theorem run_applied (p : FieldPath) (create : Bool) (edit : Edit σ) (t : Tree) (s : σ) :
    (p.applied create edit t).run s =
      match ((p.apply create edit).call t).run s with
      | ((.ok n, t'), s') => (.ok (t', n), s')
      | ((.error e, _), s') => (.error e, s') := by
  rw [applied, run_on]
  obtain ⟨⟨_ | _, _⟩, _⟩ := ((p.apply create edit).call t).run s <;> rfl

theorem run_apply_eq (p : FieldPath) (create : Bool) (edit : Edit σ) (t : Tree) (s : σ) :
    ((p.apply create edit).call t).run s =
      match (p.applied create edit t).run s with
      | (.ok (t', n), s') => ((.ok n, t'), s')
      | (.error e, s') => ((.error e, t), s') := by
  rw [run_applied]
  cases h : ((p.apply create edit).call t).run s with
  | mk r s' =>
    obtain ⟨r, t'⟩ := r
    cases r with
    | ok n => rfl
    | error e => rw [eq_of_run_apply h]

def editAt (t : Tree) (ps : List Position) (edit : Edit σ) :
    ExceptT Error (StateM σ) (Tree × Nat) := do
  let updates ← (ps.filterMap t.get?).mapM edit
  return (t.setAll (ps.zip updates), ps.length)

theorem locate_eq_ok : p.locate t = .ok ps ↔ t.addressed true p.segments = .ok ps := mapError_eq_ok

theorem run_applied_of_error {m : Mismatch} (edit : Edit σ) (s : σ)
    (h : t.addressed true p.segments = .error m) :
    (p.applied false edit t).run s = (.error (m.toError p.source), s) := by
  have hlocate : p.locate t = .error (m.toError p.source) := by rw [locate, h]; rfl
  rw [run_applied, run_apply, hlocate]

theorem run_applied_of_ok (edit : Edit σ) (s : σ) (h : t.addressed true p.segments = .ok ps) :
    (p.applied false edit t).run s = (editAt t ps edit).run s := by
  rw [run_applied, run_apply, locate_eq_ok.2 h, editAt, Manifest.run_bind]
  dsimp only
  cases ((ps.filterMap t.get?).mapM edit).run s with
  | mk r s' => cases r <;> rfl

theorem run_applied_of_locateGrown_error (h : p.locateGrown t = (base, .error e)) (edit : Edit σ)
    (s : σ) : (p.applied true edit t).run s = (.error e, s) := by
  rw [run_applied, run_apply_staged, run_write_of_error (call_locateIn_of_locateGrown h)]

theorem run_applied_of_locateGrown (h : p.locateGrown t = (base, .ok ps)) (edit : Edit σ) (s : σ) :
    (p.applied true edit t).run s =
      (editAt base ps edit >>= fun x =>
        (pure (if 0 < x.2 then x.1 else t, x.2) : ExceptT Error (StateM σ) _)).run s := by
  rw [run_applied, run_apply_staged, run_write_of_ok (call_locateIn_of_locateGrown h),
    Manifest.run_bind, editAt, Manifest.run_bind]
  cases ((ps.filterMap base.get?).mapM edit).run s with
  | mk r s' => cases r <;> rfl

end Manifest.FieldPath
