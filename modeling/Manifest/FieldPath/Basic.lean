import Manifest.Text.Blank
import Manifest.Text.Split

/-! A field path addresses nodes of a tree.  Its text is plain text with bracketed parts: plain text
is cut into map keys at slashes, or at points when no plain part has a slash; brackets hold a quoted
key, a list index, a `key=value` match, or a key.  Empty keys between separators are dropped, and a
path without segments addresses the root. -/

namespace Manifest

inductive Segment where
  | field (key : String)
  | index (i : Nat)
  | matching (key value : String)
  deriving DecidableEq

namespace Segment

def isField : Segment → Bool
  | .field _ => true
  | _ => false

end Segment

inductive PathFault where
  | nested
  | unbalanced
  | empty
  deriving DecidableEq

namespace PathFault

def message (path : String) : PathFault → String
  | .nested => "nested brackets are not allowed: " ++ path
  | .unbalanced => "unbalanced brackets in field path: " ++ path
  | .empty => "empty brackets in field path: " ++ path

end PathFault

structure FieldPath where
  source : String
  segments : List Segment
  deriving DecidableEq

namespace FieldPath

/-- A maximal part of a path outside brackets, or the content of a pair of brackets. -/
inductive Part where
  | plain (text : List Char)
  | bracketed (content : List Char)

mutual

def outside (read : List Char) : List Char → Except PathFault (List Part)
  | [] => .ok [.plain read]
  | c :: cs =>
    if c = '[' then (inside [] cs).map (.plain read :: ·)
    else if c = ']' then .error .unbalanced
    else outside (read ++ [c]) cs

def inside (read : List Char) : List Char → Except PathFault (List Part)
  | [] => .error .unbalanced
  | c :: cs =>
    if c = '[' then .error .nested
    else if c = ']' then
      if Text.trim read = [] then .error .empty
      else (outside [] cs).map (.bracketed read :: ·)
    else inside (read ++ [c]) cs

end

/-- Whether a slash stands outside brackets, by the number of brackets that are open. -/
def hasSlash (depth : Nat) : List Char → Bool
  | [] => false
  | c :: cs =>
    if c = '[' then hasSlash (depth + 1) cs
    else if c = ']' then hasSlash (depth - 1) cs
    else if c = '/' ∧ depth = 0 then true
    else hasSlash depth cs

def separator (text : List Char) : Char := if hasSlash 0 text then '/' else '.'

def plainSegments (sep : Char) (text : List Char) : List Segment :=
  ((Text.splitAll sep text).filter (· ≠ [])).map fun piece => .field (String.ofList piece)

/-- A quoted key, an index, a match, else a key. -/
def contentSegment (content : List Char) : Segment :=
  match Text.unquote? content with
  | some key => .field (String.ofList key)
  | none =>
    match Text.readUInt64? content with
    | some i => .index i
    | none =>
      match Text.splitFirst? '=' content with
      | some (key, value) =>
        .matching (String.ofList (Text.trim key)) (String.ofList (Text.unquote (Text.trim value)))
      | none => .field (String.ofList content)

def bracketSegment (content : List Char) : Segment := contentSegment (Text.trim content)

def Part.segments (sep : Char) : Part → List Segment
  | .plain text => plainSegments sep text
  | .bracketed content => [bracketSegment content]

def parse (source : String) : Except PathFault FieldPath :=
  (outside [] source.toList).map fun parts =>
    { source, segments := parts.flatMap (Part.segments (separator source.toList)) }

def isRoot (p : FieldPath) : Bool := p.segments.isEmpty

def firstField? (p : FieldPath) : Option String :=
  match p.segments with
  | .field key :: _ => some key
  | _ => none

end FieldPath

end Manifest
