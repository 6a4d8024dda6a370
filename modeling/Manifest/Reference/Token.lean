import Manifest.Text.Split

/-! A name occurs in a text as a token: no letter, digit, hyphen or underscore stands before or
after it.  Renaming scans the text once from left to right, takes the longest name at each place,
and never looks at a new name again. -/

namespace Manifest.Reference

def isNameChar (c : Char) : Bool := c.isAlphanum || c = '-' || c = '_'

abbrev TokenRenames := List (List Char × List Char)

def startsWithToken (name text : List Char) : Bool :=
  name ≠ [] && name.isPrefixOf text && !((text.drop name.length).head?.any isNameChar)

/-- The longest old name at the front of the text.  The last of several equal ones counts. -/
def longestToken? (renames : TokenRenames) (text : List Char) : Option (List Char × List Char) :=
  (renames.filter fun r => startsWithToken r.1 text).foldl (fun best r =>
    match best with
    | none => some r
    | some b => if b.1.length ≤ r.1.length then some r else some b) none

/-- Renames from left to right.  The first `skip` characters belong to a name that was renamed, and
`fresh` says that a token may start here.  The flag says whether a name was found. -/
def renameFrom (renames : TokenRenames) : Nat → Bool → List Char → List Char × Bool
  | _, _, [] => ([], false)
  | skip + 1, _, c :: cs => renameFrom renames skip (!isNameChar c) cs
  | 0, fresh, c :: cs =>
    match (if fresh then longestToken? renames (c :: cs) else none) with
    | some (old, new) =>
      (new ++ (renameFrom renames (old.length - 1) (!isNameChar c) cs).1, true)
    | none =>
      let (out, found) := renameFrom renames 0 (!isNameChar c) cs
      (c :: out, found)

def renameTokens? (renames : TokenRenames) (text : List Char) : Option (List Char) :=
  let (out, found) := renameFrom renames 0 true text
  if found then some out else none

end Manifest.Reference
