import Manifest.Yaml.Value

/-! Some files are read straight into records.  Then a string is any scalar as it is written, and a
boolean is a plain word.  A node that is left out is an empty list or record, but null is neither.
-/

namespace Manifest.Yaml.Record

abbrev Reader (α : Type) := List (Nat × Node) → Node → Following α

variable {α : Type}

def isLeftOut : Node → Bool
  | .scalar _ _ .plain "" => true
  | _ => false

def text : Reader String := fun anchored node => do
  match (← target anchored node) with
  | .scalar _ _ _ s => pure s
  | _ => failure

/-- Only a literal block needs the tag of booleans. -/
def boolean : Reader Bool := fun anchored node => do
  match (← target anchored node) with
  | .scalar _ tag style s =>
    if style = .plain ∨ style = .literal ∧ tag = some (standardTag ++ "bool") then
      (booleanWord? s).elim failure pure
    else failure
  | _ => failure

def list (item : Reader α) : Reader (List α) := fun anchored node => do
  match (← target anchored node) with
  | .sequence _ _ items => items.mapM (item anchored)
  | other => if isLeftOut other then pure [] else failure

def fields : Reader (List (String × Node)) := fun anchored node => do
  match (← target anchored node) with
  | .mapping _ _ es => es.mapM fun e => do pure (← text anchored e.1, e.2)
  | other => if isLeftOut other then pure [] else failure

/-- A field that has one of several names.  More than one of them is refused, and `missing` is the
value when there is none. -/
def field (names : List String) (read : Reader α) (missing : Option α)
    (anchored : List (Nat × Node)) (fs : List (String × Node)) : Following α :=
  match fs.filter fun f => f.1 ∈ names with
  | [] => missing.elim failure pure
  | [f] => read anchored f.2
  | _ => failure

def parse? (read : Reader α) (s : String) : Option α := do
  let root ← single? s
  let (a, _) ← (read root.anchored root).run (aliasesPerMark * root.marks)
  some a

end Manifest.Yaml.Record
