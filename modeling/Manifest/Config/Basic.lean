import Manifest.Tree.Basic

/-! A configuration is a tree, and a decoder takes a typed value out of a node.  Nothing is
converted: a string has to be a string.  Null counts as an empty list or map, and fields that nobody
asks for are ignored. -/

namespace Manifest.Config

abbrev Decoder (α : Type) := Tree → Option α

namespace Decoder

variable {α : Type}

def text : Decoder String := Tree.string?

def boolean : Decoder Bool
  | .boolean b => some b
  | _ => none

def optional (d : Decoder α) : Decoder (Option α)
  | .null => some none
  | t => (d t).map some

def list (d : Decoder α) : Decoder (List α)
  | .null => some []
  | .list items => items.mapM d
  | _ => none

def entries : Decoder (Entries Tree)
  | .null => some []
  | .map es => some es
  | _ => none

def dictionary (d : Decoder α) : Decoder (Entries α) := fun t => do
  (← entries t).mapM fun e => do some (e.1, ← d e.2)

def record (r : Entries Tree → Option α) : Decoder α := fun t => (entries t).bind r

end Decoder

variable {α : Type}

/-- A field that has one of several names.  Two of them at once are refused, and `missing` is the
value when there is none. -/
def fieldNamed (names : List String) (d : Decoder α) (missing : Option α) (es : Entries Tree) :
    Option α :=
  match es.filter fun e => e.1 ∈ names with
  | [] => missing
  | [e] => d e.2
  | _ => none

def required (name : String) (d : Decoder α) (es : Entries Tree) : Option α :=
  fieldNamed [name] d none es

def withDefault (name : String) (d : Decoder α) (missing : α) (es : Entries Tree) : Option α :=
  fieldNamed [name] d (some missing) es

def textField (name : String) (es : Entries Tree) : Option String :=
  withDefault name .text "" es

end Manifest.Config
