import Manifest.Text.Split
import Manifest.Tree.Entries

/-! `$(NAME)` stands for the value of a variable and `$$` for a dollar sign.  An unknown name is
kept as it is, and so is a dollar sign that starts neither.  Values are never expanded again. -/

namespace Manifest.Reference

abbrev Variables := Entries String

/-- Expands from left to right.  The next `copied` characters are kept as they are, and the
`dropped` ones after them left out.  The flag says whether anything was expanded. -/
def expandFrom (vars : Variables) : Nat → Nat → List Char → List Char × Bool
  | _, _, [] => ([], false)
  | copied + 1, dropped, c :: cs =>
    let (out, found) := expandFrom vars copied dropped cs
    (c :: out, found)
  | 0, dropped + 1, _ :: cs => expandFrom vars 0 dropped cs
  | 0, 0, c :: cs =>
    if c ≠ '$' then
      let (out, found) := expandFrom vars 0 0 cs
      (c :: out, found)
    else if cs.head? = some '$' then ('$' :: (expandFrom vars 0 1 cs).1, true)
    else
      match (if cs.head? = some '(' then Text.splitFirst? ')' cs.tail else none) with
      | none =>
        let (out, found) := expandFrom vars 0 0 cs
        ('$' :: out, found)
      | some (name, _) =>
        match Entries.find? (String.ofList name) vars with
        | some value => (value.toList ++ (expandFrom vars 0 (name.length + 2) cs).1, true)
        | none =>
          let (out, found) := expandFrom vars (name.length + 2) 0 cs
          ('$' :: out, found)

def expand? (vars : Variables) (text : List Char) : Option (List Char) :=
  let (out, found) := expandFrom vars 0 0 text
  if found then some out else none

end Manifest.Reference
