import Manifest.Store

/-! A selector is a conjunction: every part that is not empty has to agree with the document.
Labels and annotations are selected by `key=value` pairs between commas.  A field spec is a type
filter with a field path. -/

namespace Manifest

structure Selector where
  type : ResourceType := {}
  ns : String := ""
  name : String := ""
  labels : String := ""
  annotations : String := ""
  deriving DecidableEq

abbrev Requirements := List (String × String)

namespace Requirements

def readPair? (piece : List Char) : Option (String × String) :=
  match Text.splitFirst? '=' piece with
  | none => none
  | some (key, value) =>
    if Text.trim key = [] then none
    else some (String.ofList (Text.trim key), String.ofList (Text.trim value))

def fault (piece : List Char) : Error :=
  .configuration "selector" ("expected key=value, found '" ++ String.ofList piece ++ "'")

def parse (text : String) : Except Error Requirements :=
  (((Text.splitAll ',' text.toList).map Text.trim).filter (· ≠ [])).mapM fun piece =>
    match readPair? piece with
    | some pair => .ok pair
    | none => .error (fault piece)

def holds (rs : Requirements) (es : Option (Entries Tree)) : Bool :=
  rs.all fun r => (es.bind (Entries.find? r.1)).bind Tree.text? = some r.2

end Requirements

namespace Selector

def display (s : Selector) : String :=
  let parts := [("group", s.type.group), ("version", s.type.version), ("kind", s.type.kind),
    ("namespace", s.ns), ("name", s.name), ("labels", s.labels), ("annotations", s.annotations)]
  "[" ++ " ".intercalate ((parts.filter (·.2 ≠ "")).map fun p => p.1 ++ "=" ++ p.2) ++ "]"

def matcher (s : Selector) : Except Error (Document → Bool) := do
  let labels ← Requirements.parse s.labels
  let annotations ← Requirements.parse s.annotations
  return fun d =>
    d.type.selectedBy s.type
      && (s.name = "" || s.name = d.name)
      && (s.ns = "" || s.ns = d.ns)
      && labels.holds d.labels?
      && annotations.holds d.annotations?

end Selector

def Store.select (sel : Selector) (s : Store) : Except Error (List Document) := do
  let accepts ← sel.matcher
  return s.documents.filter accepts

structure FieldSpec where
  type : ResourceType := {}
  path : String := ""
  create : Bool := false
  deriving DecidableEq

namespace FieldSpec

def appliesTo (s : FieldSpec) (t : ResourceType) : Bool := t.selectedBy s.type

def fieldPath (s : FieldSpec) : Except Error FieldPath :=
  (FieldPath.parse s.path).mapError (.path s.path ·)

end FieldSpec

/-- Points at documents by `apiVersion`, kind and name; empty parts match anything. -/
structure ObjectRef where
  apiVersion : String := ""
  kind : String := ""
  name : String := ""
  deriving DecidableEq

namespace ObjectRef

def type (r : ObjectRef) : ResourceType := .ofApiVersion r.apiVersion r.kind

def selects (r : ObjectRef) (d : Document) : Bool :=
  d.type.selectedBy r.type && (r.name = "" || r.name = d.name)

def display (r : ObjectRef) : String := r.apiVersion ++ "/" ++ r.kind ++ "/" ++ r.name

end ObjectRef

end Manifest
