import Manifest.Error

/-! What an action changed before it failed stays changed. -/

namespace Manifest

/-- An action on a value that others hold too, so that they see how a failure leaves it. -/
abbrev InPlace (τ : Type) (m : Type → Type) (α : Type) := ExceptT Error (StateT τ m) α

namespace InPlace

variable {τ α : Type} {m : Type → Type} [Monad m]

def call (x : InPlace τ m α) (t : τ) : m (Except Error α × τ) := StateT.run (ExceptT.run x) t

def beside (x : ExceptT Error m α) : InPlace τ m α := ExceptT.mk (StateT.lift x.run)

def onCopy (x : InPlace τ m α) : InPlace τ m (α × τ) := do
  let (r, copy) ← beside (ExceptT.lift (x.call (← get)))
  return (← r, copy)

/-- An action on a value that nobody else holds: it is gone after a failure. -/
def on (x : InPlace τ m α) (t : τ) : ExceptT Error m (τ × α) :=
  ExceptT.mk do
    let (r, t) ← x.call t
    return r.map (t, ·)

def outcome (x : InPlace τ Id α) (t : τ) : Except Error α × τ := x.call t

def result (x : InPlace τ Id α) (t : τ) : Except Error τ :=
  (x.outcome t).1.map fun _ => (x.outcome t).2

end InPlace

end Manifest
