import Manifest.Digest.Sha256
import Manifest.FieldPath.Walk
import Manifest.Json.Writer
import Manifest.Selection

/-! A generated document is named after its content: the name, a hyphen and ten digits of a digest.
Only the part of a document that its users see is digested, and the order of keys does not count, so
that independent builds of one content agree on the name. -/

namespace Manifest.ContentName

def algorithm : String := "sha256/v1"

def hashLength : Nat := 10

/-- Hexadecimal digits without those that could spell words. -/
def safeDigit (c : Char) : Char :=
  if c = '0' then 'g'
  else if c = '1' then 'h'
  else if c = '3' then 'k'
  else if c = 'a' then 'm'
  else if c = 'e' then 't'
  else c

def dataOrEmpty (es : Entries Tree) : Tree :=
  match Entries.find? "data" es with
  | none | some .null => .map []
  | some t => t

def optional (key : String) (es : Entries Tree) : Entries Tree :=
  match Entries.find? key es with
  | none => []
  | some t => [(key, t)]

def input (kind name : String) : Tree → Tree
  | .map es =>
    if kind = "ConfigMap" then
      .map ([("kind", .text kind), ("name", .text name), ("data", dataOrEmpty es)]
        ++ optional "binaryData" es ++ optional "immutable" es)
    else if kind = "Secret" then
      .map ([("kind", .text kind), ("type", (Entries.find? "type" es).getD (.text "")),
        ("name", .text name), ("data", dataOrEmpty es)] ++ optional "immutable" es)
    else .map es
  | t => t

def canonicalText (t : Tree) : List Char := Json.write t.sorted

def hashTree (t : Tree) : String :=
  let bytes := (String.ofList (canonicalText t)).toUTF8.toList
  String.ofList (((Digest.sha256 bytes).take hashLength).map safeDigit)

def withoutVolatile (volatile : List FieldSpec) (type : ResourceType) (t : Tree) :
    Except Error Tree :=
  (volatile.filter (·.appliesTo type)).foldlM (fun t spec => do
    let p ← spec.fieldPath
    if p.isRoot then return t
    else return (← p.remove t).1) t

def hash (volatile : List FieldSpec) (d : Document) : Except Error String := do
  let t ← withoutVolatile volatile d.type d.tree
  return hashTree (input d.kind d.name t)

def suffixed (volatile : List FieldSpec) (d : Document) : Except Error String := do
  return d.name ++ "-" ++ (← hash volatile d)

end Manifest.ContentName
