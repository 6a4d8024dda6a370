import Manifest.Plugin.GeneratedMap
import Manifest.Reference.Repair
import Manifest.Reference.RuleFile

/-! A layer may add data to a map that another layer generates.  If the map is in the store, the
data is merged into it and it gets the name of its new content.  Otherwise it is built only to learn
the name that it will have, references are repaired to that name, and it is dropped again. -/

namespace Manifest

structure LayeredMap where
  recipe : MapRecipe
  /-- The map is generated elsewhere when it is not in the store. -/
  assumeTarget : Bool := true
  /-- What another layer puts in front of the name. -/
  namePrefix : String := ""
  rules : Reference.Rules := {}

namespace LayeredMap

open Config

def ownFields? (es : Entries Tree) : Option (Bool × String × List String) := do
  let assumeTarget ← withDefault "assumeTargetWillExist" .boolean true es
  let namePrefix ← textField "prefix" es
  let files ← withDefault "configurations" (Decoder.list .text) [] es
  some (assumeTarget, namePrefix, files)

def configure (w : Workspace) (kind : MapKind) (config : Tree) : Except Error LayeredMap := do
  let recipe ← MapRecipe.configure kind config
  match Decoder.record ownFields? config with
  | none => throw (.undecodable kind.name)
  | some (assumeTarget, namePrefix, files) =>
    return { recipe, assumeTarget, namePrefix, rules := ← Reference.Rules.load w files }

def mergedValue (kind : MapKind) : Tree → Tree
  | .text s => .text (kind.stored s)
  | t => t

def dataEntries (es : Entries Tree) : Except Error (Entries Tree) :=
  match Entries.find? "data" es with
  | none | some .null => .ok []
  | some (.map data) => .ok data
  | some t => .error (.typeMismatch "data" "object" t.shape)

def appendData (m : LayeredMap) (d : Document) : Except Error Document :=
  match d.tree with
  | .map es => do
    let data ← dataEntries es
    let new := Entries.mapValues (mergedValue m.recipe.kind) m.recipe.data
    return { d with tree := .map (Entries.insert "data" (.map (Entries.insertAll data new)) es) }
  | _ => .error (.invalidDocument m.recipe.name)

def replace (s : Store) (id : Identity) (t : Tree) : Except Error Store :=
  match s.get? id with
  | none => .error (.notFound id)
  | some d => do
    let d ← d.replaceTree t
    return s.modify id fun _ => d

def moveToEnd (s : Store) (d : Document) (name : String) : Except Error Store := do
  let target := d.id.withName name
  if target ≠ d.id ∧ (s.get? target).isSome then throw (.duplicateIdentity target)
  else
    let (s, _) ← s.removed d.id
    s.appended (d.rename name)

def contentName (d : Document) : Except Error String :=
  ContentName.suffixed [] (d.setName d.firstId.name)

def mergeInto (m : LayeredMap) (d : Document) (s : Store) : Except Error Store := do
  let merged ← m.appendData d
  if m.recipe.plainName then replace s d.id merged.tree
  else
    let name ← contentName merged
    let s' ← moveToEnd s merged name
    let first := merged.firstId
    let renames : List Reference.Rename :=
      ⟨d.id, name⟩ :: if first = d.id then [] else [⟨first, name⟩]
    return (← Reference.repair m.rules renames s').1

def adoptNamespace (m : LayeredMap) (s : Store) : MapRecipe :=
  if m.recipe.ns = "" then { m.recipe with ns := (s.documents.head?.map Document.ns).getD "" }
  else m.recipe

def addPrefix (m : LayeredMap) (id : Identity) (s : Store) : Except Error (Store × Identity) :=
  if m.namePrefix = "" then .ok (s, id)
  else do
    let name := m.namePrefix ++ id.name
    return (← s.renamed id name, id.withName name)

def anticipate (w : Workspace) (m : LayeredMap) (s : Store) : Except Error Store := do
  let scaffold ← (m.adoptNamespace s).build w
  let start := scaffold.id
  let (s, current) ← m.addPrefix start (← s.appended scaffold)
  match s.get? current with
  | none => throw (.notFound current)
  | some d =>
    let name ← ContentName.suffixed [] d
    let s ← s.renamed current name
    let olds := if m.namePrefix = "" then [current] else [start, current]
    let (s, _) ← Reference.repair m.rules (olds.map fun old => ⟨old, name⟩) s
    let (s, _) ← s.removed (current.withName name)
    return s

def transform (w : Workspace) (m : LayeredMap) (s : Store) : Except Error Store :=
  match s.find? m.recipe.kind.name m.recipe.name with
  | some d => m.mergeInto d s
  | none => if m.assumeTarget && !m.recipe.plainName then m.anticipate w s else .ok s

end LayeredMap

end Manifest
