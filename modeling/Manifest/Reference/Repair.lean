import Manifest.FieldPath.Walk
import Manifest.Reference.Rules
import Manifest.Reference.Token
import Manifest.Store

/-! After a batch of renames every field that a rule names as a reference to a renamed type is
edited, in the documents of the namespace of the renamed resource.  All renames of one field are
applied at once, so that a new name is never taken for an old one. -/

namespace Manifest.Reference

structure Rename where
  old : Identity
  new : String
  deriving DecidableEq

abbrev NamePairs := List (String × String)

def addPair (path : String) (pair : String × String) (byPath : Entries NamePairs) :
    Entries NamePairs :=
  Entries.insert path (addNew ((Entries.find? path byPath).getD []) pair) byPath

def referringPaths (rules : Rules) (type : ResourceType) (r : Rename) : List String :=
  ((rules.names.filter fun rule => r.old.type.selectedBy rule.type).flatMap NameRule.fields).filter
    (·.appliesTo type) |>.map FieldSpec.path

/-- The pairs that apply in a document, by path, in the order in which paths are first met. -/
def pairsByPath (rules : Rules) (renames : List Rename) (d : Document) : Entries NamePairs :=
  (renames.filter fun r => r.old.inNamespace d.ns).foldl (fun acc r =>
    (referringPaths rules d.type r).foldl
      (fun acc path => addPair path (r.old.name, r.new) acc) acc) []

def renameText (pairs : NamePairs) (s : String) : Option String :=
  (renameTokens? (pairs.map fun p => (p.1.toList, p.2.toList)) s.toList).map String.ofList

def renameEdit (pairs : NamePairs) : Edit Nat := fun t => do
  let (t, n) := t.editTexts (renameText pairs)
  modify (· + n)
  return t

def repairTree (byPath : Entries NamePairs) (t : Tree) : ExceptT Error (StateM Nat) Tree :=
  byPath.foldlM (fun t (path, pairs) => do
    match FieldPath.parse path with
    | .error fault => throw (.path path fault)
    | .ok p => return (← p.applied false (renameEdit pairs) t).1) t

def repairDocument (rules : Rules) (renames : List Rename) (d : Document) :
    ExceptT Error (StateM Nat) Document := do
  return { d with tree := ← repairTree (pairsByPath rules renames d) d.tree }

def repair (rules : Rules) (renames : List Rename) (s : Store) : Except Error (Store × Nat) :=
  match (s.documents.mapM (repairDocument rules renames)).run 0 with
  | (.ok ds, n) => .ok ({ documents := ds }, n)
  | (.error e, _) => .error e

end Manifest.Reference
