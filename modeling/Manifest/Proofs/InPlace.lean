import Manifest.InPlace
import Manifest.Proofs.Success

namespace Manifest.InPlace

variable {τ α β : Type} {m : Type → Type} [Monad m]

theorem call_bind (x : InPlace τ m α) (f : α → InPlace τ m β) (t : τ) : (x >>= f).call t =
    x.call t >>= fun r =>
      match r with
      | (.ok a, t) => (f a).call t
      | (.error e, t) => pure (.error e, t) := by
  refine bind_congr fun r => ?_
  obtain ⟨r, t⟩ := r
  cases r <;> rfl

@[simp] theorem call_pure (a : α) (t : τ) :
    (pure a : InPlace τ m α).call t = pure (.ok a, t) := rfl

@[simp] theorem call_throw (e : Error) (t : τ) :
    (throw e : InPlace τ m α).call t = pure (.error e, t) := rfl

@[simp] theorem call_liftM (x : Except Error α) (t : τ) :
    (liftM x : InPlace τ m α).call t = pure (x, t) := rfl

variable [LawfulMonad m]

@[simp] theorem call_get (t : τ) : (get : InPlace τ m τ).call t = pure (.ok t, t) :=
  pure_bind (m := m) (t, t) _

@[simp] theorem call_set (t t' : τ) : (set t' : InPlace τ m PUnit).call t = pure (.ok ⟨⟩, t') :=
  pure_bind (m := m) (PUnit.unit, t') _

@[simp] theorem call_modify (f : τ → τ) (t : τ) :
    (modify f : InPlace τ m PUnit).call t = pure (.ok ⟨⟩, f t) :=
  pure_bind (m := m) (PUnit.unit, f t) _

@[simp] theorem call_beside (x : ExceptT Error m α) (t : τ) :
    (beside x).call t = (fun r => (r, t)) <$> x.run := (map_eq_pure_bind _ _).symm

theorem call_onCopy (x : InPlace τ m α) (t : τ) : (onCopy x).call t =
    (fun r => (r.1.map fun a => (a, r.2), t)) <$> x.call t := by
  rw [onCopy, call_bind, call_get, pure_bind]
  simp only [call_bind, call_beside, ExceptT.run_lift, map_eq_pure_bind, bind_assoc, pure_bind,
    call_liftM]
  refine bind_congr fun r => ?_
  obtain ⟨r, t'⟩ := r
  cases r <;> rfl

theorem beside_pure (a : α) : beside (pure a) = (pure a : InPlace τ m α) :=
  funext fun t => (call_beside (pure a) t).trans (map_pure _ _)

theorem beside_bind (x : ExceptT Error m α) (f : α → ExceptT Error m β) :
    beside (x >>= f) = (beside x >>= fun a => beside (f a) : InPlace τ m β) := by
  funext t
  change (beside (x >>= f)).call t = (beside x >>= fun a => beside (f a)).call t
  simp only [call_bind, call_beside, ExceptT.run_bind, map_eq_pure_bind, bind_assoc, pure_bind]
  refine bind_congr fun r => ?_
  cases r with
  | ok a => rfl
  | error e => exact pure_bind _ _

theorem mapM_beside (f : α → ExceptT Error m β) (xs : List α) :
    xs.mapM (fun x => beside (f x)) = (beside (xs.mapM f) : InPlace τ m (List β)) := by
  induction xs with
  | nil => exact (beside_pure []).symm
  | cons x xs ih => simp only [List.mapM_cons, beside_bind, beside_pure, ih]

theorem call_forM_modify (f : α → τ → τ) (xs : List α) (t : τ) :
    (xs.forM fun x => modify (f x) : InPlace τ m PUnit).call t =
      pure (.ok ⟨⟩, xs.foldl (fun t x => f x t) t) := by
  induction xs generalizing t with
  | nil => rfl
  | cons x xs ih =>
    change call (modify (f x) >>= fun _ => xs.forM fun x => modify (f x)) t = _
    rw [call_bind, call_modify, pure_bind]
    exact ih (f x t)

theorem run_bind {σ : Type} (x : StateM σ α) (f : α → StateM σ β) (s : σ) :
    (x >>= f).run s = (f (x s).1).run (x s).2 := rfl

theorem run_onCopy_bind {σ : Type} (x : InPlace τ (StateM σ) α)
    (f : α × τ → InPlace τ (StateM σ) β) (t : τ) (s : σ) :
    ((onCopy x >>= f).call t).run s =
      match (x.call t).run s with
      | ((.ok a, copy), s) => ((f (a, copy)).call t).run s
      | ((.error e, _), s) => ((.error e, t), s) := by
  rw [call_bind, call_onCopy, map_eq_pure_bind, bind_assoc, run_bind]
  cases h : (x.call t).run s with
  | mk r s' =>
    have hx : x.call t s = (r, s') := h
    rw [hx]
    obtain ⟨r, copy⟩ := r
    cases r <;> rfl

theorem run_on {σ : Type} (x : InPlace τ (StateM σ) α) (t : τ) (s : σ) : (x.on t).run s =
    match (x.call t).run s with
    | ((.ok a, t), s) => (.ok (t, a), s)
    | ((.error e, _), s) => (.error e, s) := by
  cases h : (x.call t).run s with
  | mk r s' =>
    have hx : x.call t s = (r, s') := h
    change StateT.run (x.call t >>= fun r => pure (r.1.map fun a => (r.2, a))) s = _
    rw [run_bind, hx]
    obtain ⟨r, t'⟩ := r
    cases r <;> rfl

section Pure

variable {x : InPlace τ Id α} {t t' : τ} {e : Error}

theorem outcome_get_bind (f : τ → InPlace τ Id α) (t : τ) :
    (get >>= f).outcome t = (f t).outcome t := rfl

theorem outcome_bind (x : InPlace τ Id α) (f : α → InPlace τ Id β) (t : τ) :
    (x >>= f).outcome t =
      match x.outcome t with
      | (.ok a, t) => (f a).outcome t
      | (.error e, t) => (.error e, t) := by
  change (x >>= f).call t = _
  rw [call_bind]
  change _ = match x.call t with
    | (.ok a, t) => (f a).outcome t
    | (.error e, t) => (.error e, t)
  obtain ⟨r, t'⟩ := x.call t
  cases r <;> rfl

theorem on_eq_ok {a : α} : (x.on t).run = .ok (t', a) ↔ x.outcome t = (.ok a, t') := by
  change ((x.outcome t).1.map fun a => ((x.outcome t).2, a)) = _ ↔ _
  obtain ⟨r, t₁⟩ := x.outcome t
  cases r <;> simp [Except.map, and_comm]

theorem on_eq_error : (x.on t).run = .error e ↔ (x.outcome t).1 = .error e := by
  change ((x.outcome t).1.map fun a => ((x.outcome t).2, a)) = _ ↔ _
  obtain ⟨r, t₁⟩ := x.outcome t
  cases r <;> simp [Except.map]

theorem result_eq_ok : x.result t = .ok t' ↔ ∃ a, x.outcome t = (.ok a, t') := by
  rw [result]
  obtain ⟨r, t₁⟩ := x.outcome t
  cases r <;> simp [Except.map]

theorem result_eq_ok_iff {x : InPlace τ Id Unit} :
    x.result t = .ok t' ↔ x.outcome t = (.ok (), t') :=
  result_eq_ok.trans ⟨fun ⟨(), h⟩ => h, fun h => ⟨(), h⟩⟩

theorem result_eq_error : x.result t = .error e ↔ (x.outcome t).1 = .error e := by
  rw [result]
  obtain ⟨r, t₁⟩ := x.outcome t
  cases r <;> simp [Except.map]

end Pure

end Manifest.InPlace
