import Manifest.EncodedField
import Manifest.FileTree
import Manifest.Json.Reader
import Manifest.Json.Writer
import Manifest.Pattern.Replacement
import Manifest.Reference.Named
import Manifest.Store

/-! Text is searched in the scalars at a path of the selected documents.  A scalar that does not
change keeps its node, and a changed one gets the type that is asked for, or that of the replacement
when nothing else is left of it.  Lists and maps are searched in their JSON text, and so is a whole
document at the root path. -/

namespace Manifest

inductive ScalarType where
  | string
  | integer
  | boolean
  | decimal
  deriving DecidableEq

namespace ScalarType

def name : ScalarType → String
  | string => "string"
  | integer => "int64"
  | boolean => "bool"
  | decimal => "float64"

def ofName? (s : String) : Option ScalarType :=
  [string, integer, boolean, decimal].find? fun t => t.name = s

def ofTree : Tree → ScalarType
  | .integer _ => integer
  | .boolean _ => boolean
  | .decimal _ => decimal
  | _ => string

def read? (t : ScalarType) (text : String) : Option Tree :=
  match t with
  | string => some (.text text)
  | integer => (Text.readInt64? text.toList).map .integer
  | boolean =>
    if text = "true" then some (.boolean true)
    else if text = "false" then some (.boolean false)
    else none
  | decimal => (Decimal.read? text.toList).map .decimal

end ScalarType

structure Replacement where
  text : String
  value : Tree

namespace Replacement

def ofTree? (t : Tree) : Option Replacement := t.text?.map fun text => { text, value := t }

def ofText (s : String) : Replacement := { text := s, value := .text s }

end Replacement

structure SearchReplace where
  target : Selector
  path : FieldPath
  search : NamedPattern
  replace : Tree := .null
  environmentName : String := ""
  object? : Option Reference.NamedValue := none
  type? : Option ScalarType := none

namespace SearchReplace

open Config

def kind : String := "SearchReplace"

structure Fields where
  target : Selector
  path : String
  search : String
  replace : Tree
  environmentName : String
  object? : Option Reference.NamedValue
  type? : Option ScalarType

def Fields.read? (es : Entries Tree) : Option Fields := do
  let target ← required "target" (Decoder.record Selector.ofFields?) es
  let path ← required "path" .text es
  let search ← textField "search" es
  let replace ← withDefault "replace" some .null es
  let environmentName ← textField "replaceWithEnvVar" es
  let object? ← withDefault "replaceWithObjRef"
    (Decoder.optional (Decoder.record Reference.NamedValue.ofFields?)) none es
  let type? ← withDefault "replaceType"
    (Decoder.optional fun t => t.string?.bind ScalarType.ofName?) none es
  some { target, path, search, replace, environmentName, object?, type? }

def configure (config : Tree) : Except Error SearchReplace :=
  match Decoder.record Fields.read? config with
  | none => .error (.undecodable kind)
  | some f => do
    let path ← (FieldPath.parse f.path).mapError (.path f.path ·)
    match Pattern.parse? f.search with
    | none => throw .regularExpression
    | some search =>
      return { target := f.target, path, search, replace := f.replace,
               environmentName := f.environmentName, object? := f.object?, type? := f.type? }

def fieldValue? (path : FieldPath) (d : Document) : Option Replacement :=
  match path.lookup d.tree with
  | .error _ | .ok none => none
  | .ok (some t) =>
    match Replacement.ofTree? t, t with
    | some r, .text encoded =>
      if EncodedField.covers EncodedField.standard d.kind path then
        (EncodedField.decode? encoded).map fun text => { r with text }
      else some r
    | r, _ => r

def referencedValue (v : Reference.NamedValue) (s : Store) : Except Error (Option Replacement) := do
  let path ← (FieldPath.parse v.field).mapError (.path v.field ·)
  return (s.documents.filter v.object.selects).findSome? (fieldValue? path)

/-- What is put in; nothing when the referenced document does not exist. -/
def replacement (w : Workspace) (c : SearchReplace) (s : Store) :
    Except Error (Option Replacement) :=
  if c.replace ≠ .null ∧ c.replace ≠ .text "" then
    match Replacement.ofTree? c.replace with
    | some r => .ok (some r)
    | none =>
      .error (.configuration kind ("replacement must be a scalar, found " ++ c.replace.shape))
  else
    match c.object? with
    | some v => referencedValue v s
    | none =>
      if c.environmentName = "" then .ok (some (.ofText ""))
      else .ok (some (.ofText (w.environmentValue c.environmentName)))

def changedType (c : SearchReplace) (r : Replacement) (text : String) : ScalarType :=
  match c.type? with
  | some t => t
  | none => if text = r.text then .ofTree r.value else .string

def replaceNode (c : SearchReplace) (r : Replacement) (t : Tree) : Except Error Tree :=
  match t.text? with
  | some text =>
    let replaced := c.search.replaceAll r.text text
    if replaced = text then .ok t
    else
      let type := c.changedType r replaced
      match type.read? replaced with
      | some t => .ok t
      | none =>
        .error (.configuration kind ("'" ++ replaced ++ "' is not a valid " ++ type.name))
  | none =>
    if t.isNull then .ok t
    else
      match Json.parse? (c.search.replaceAll r.text (Json.render t)) with
      | some t => .ok t
      | none => .error .json

def replaceRoot (c : SearchReplace) (r : Replacement) (d : Document) : Except Error Document := do
  let t ← c.replaceNode r d.tree
  match t with
  | .map _ => d.replaceTree t
  | _ =>
    throw (.invalidDocument ("replacing in " ++ d.id.describe ++ " did not produce an object"))

def replaceIn (c : SearchReplace) (r : Replacement) (d : Document) : Except Error Document :=
  if c.path.isRoot then c.replaceRoot r d
  else
    let edit : Edit Unit := fun t => ExceptT.mk (pure (c.replaceNode r t))
    ((d.applied EncodedField.standard c.path false edit).run ()).1.map Prod.fst

def transform (w : Workspace) (c : SearchReplace) (s : Store) : Except Error Store := do
  match (← c.replacement w s) with
  | none => return s
  | some r =>
    let accepts ← c.target.matcher
    s.mapM fun d => if accepts d then c.replaceIn r d else .ok d

end SearchReplace

end Manifest
