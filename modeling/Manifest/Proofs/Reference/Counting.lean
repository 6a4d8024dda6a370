import Mathlib.Algebra.GroupWithZero.Nat
import Manifest.Error
import Manifest.Proofs.Success

namespace Manifest.Reference

variable {α β : Type}

def Tallies (x : ExceptT Error (StateM Nat) α) : Except Error (α × Nat) → Prop
  | .ok (a, k) => ∀ n, x.run n = (.ok a, n + k)
  | .error e => ∀ n, ∃ m, x.run n = (.error e, m)

theorem Tallies.pure (a : α) : Tallies (Pure.pure a) (.ok (a, 0)) := fun _ => rfl

theorem Tallies.throw (e : Error) :
    Tallies (MonadExcept.throw e : ExceptT Error (StateM Nat) α) (.error e) := fun n => ⟨n, rfl⟩

theorem Tallies.bind_error {x : ExceptT Error (StateM Nat) α} {e : Error}
    (hx : Tallies x (.error e)) (f : α → ExceptT Error (StateM Nat) β) :
    Tallies (x >>= f) (.error e) := by
  intro n
  obtain ⟨m, hm⟩ := hx n
  exact ⟨m, by rw [run_bind, hm]; rfl⟩

theorem Tallies.bind_ok {x : ExceptT Error (StateM Nat) α} {a : α} {k : Nat}
    {f : α → ExceptT Error (StateM Nat) β} {r : Except Error (β × Nat)}
    (hx : Tallies x (.ok (a, k))) (hf : Tallies (f a) r) :
    Tallies (x >>= f) (r.map fun z => (z.1, k + z.2)) := by
  cases r with
  | error e =>
    intro n
    rw [run_bind, hx n]
    exact hf (n + k)
  | ok z =>
    intro n
    rw [run_bind, hx n, ← Nat.add_assoc]
    exact hf (n + k)

theorem Tallies.bind {x : ExceptT Error (StateM Nat) α} {r : Except Error (α × Nat)}
    {f : α → ExceptT Error (StateM Nat) β} {g : α → Except Error (β × Nat)}
    (hx : Tallies x r) (hf : ∀ a k, r = .ok (a, k) → Tallies (f a) (g a)) :
    Tallies (x >>= f) (r >>= fun y => (g y.1).map fun z => (z.1, y.2 + z.2)) := by
  cases r with
  | error e => exact hx.bind_error f
  | ok y => exact hx.bind_ok (hf y.1 y.2 rfl)

theorem Tallies.mapM {f : α → ExceptT Error (StateM Nat) β} {g : α → Except Error (β × Nat)}
    {xs : List α} (h : ∀ x ∈ xs, Tallies (f x) (g x)) :
    Tallies (xs.mapM f)
      ((xs.mapM g).map fun ys => (ys.map Prod.fst, (ys.map Prod.snd).sum)) := by
  induction xs with
  | nil => exact .pure []
  | cons x xs ih =>
    obtain ⟨hx, hxs⟩ := List.forall_mem_cons.1 h
    have hcons := hx.bind fun y _ _ => (ih hxs).bind fun ys _ _ => .pure (y :: ys)
    rw [List.mapM_cons, List.mapM_cons]
    cases hg : g x with
    | error e =>
      rw [hg] at hcons
      exact hcons
    | ok y =>
      cases hgs : xs.mapM g with
      | error e =>
        rw [hg, hgs] at hcons
        exact hcons
      | ok ys =>
        rw [hg, hgs] at hcons
        exact hcons

theorem Tallies.congr {x : ExceptT Error (StateM Nat) α} {r r' : Except Error (α × Nat)}
    (h : Tallies x r) (heq : r = r') : Tallies x r' := heq ▸ h

theorem Tallies.exists_run {x : ExceptT Error (StateM Nat) α} {r : Except Error (α × Nat)}
    (h : Tallies x r) (n : Nat) : ∃ m, x.run n = (r.map Prod.fst, m) := by
  cases r with
  | error e => exact h n
  | ok y => exact ⟨n + y.2, h n⟩

theorem exists_tallies_mapM {f : α → ExceptT Error (StateM Nat) β} {g : α → Except Error β}
    (h : ∀ x, ∃ r, Tallies (f x) r ∧ r.map Prod.fst = g x) (xs : List α) :
    ∃ r, Tallies (xs.mapM f) r ∧ r.map Prod.fst = xs.mapM g := by
  choose tally htally heq using h
  refine ⟨_, Tallies.mapM fun x (_ : x ∈ xs) => htally x, ?_⟩
  induction xs with
  | nil => rfl
  | cons x xs ih =>
    rw [List.mapM_cons, List.mapM_cons, ← ih, ← heq x]
    cases tally x with
    | error e => rfl
    | ok y => cases xs.mapM tally <;> rfl

end Manifest.Reference
