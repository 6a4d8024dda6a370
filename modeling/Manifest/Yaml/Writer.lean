import Manifest.Json.Writer
import Manifest.Yaml.TextForm

/-! Blocks are indented by two columns, and a list is not indented below its key.  A list or a map
may start on the line of the mark before it.  Empty ones stay on one line. -/

namespace Manifest.Yaml

def decimalStyle : Decimal.Style :=
  { Json.decimalStyle with plus := [], infinity := ".inf".toList, nan := ".nan".toList }

def writeText (indent : Nat) (s : String) : List Char :=
  let cs := s.toList
  match textForm s with
  | .plain | .folded => cs ++ ['\n']
  | .singleQuoted => writeSingleQuoted indent cs ++ ['\n']
  | .doubleQuoted => writeDoubleQuoted cs ++ ['\n']
  | .literal => writeLiteral indent cs

def writeLeaf (indent : Nat) : Tree → List Char
  | .null => "null\n".toList
  | .boolean true => "true\n".toList
  | .boolean false => "false\n".toList
  | .integer n => Text.writeInt n.toInt ++ ['\n']
  | .decimal d => d.write decimalStyle ++ ['\n']
  | .text s => writeText indent s
  | .list _ => "[]\n".toList
  | .map _ => "\x7b\x7d\n".toList

def isShortKey (key : String) : Bool := !key.toList.any isBreak && key.utf8ByteSize ≤ 128

def writeShortKey (key : String) : List Char :=
  match textForm key with
  | .plain | .folded => key.toList
  | .singleQuoted => writeSingleQuoted 0 key.toList
  | .doubleQuoted | .literal => writeDoubleQuoted key.toList

/-- An entry.  A long key has a mark of its own, and its value is a block. -/
def writeEntry (indent : Nat) (key : String) (block value : List Char) : List Char :=
  if isShortKey key then writeShortKey key ++ ':' :: value
  else '?' :: ' ' :: (writeText (indent + 2) key ++ spaces indent ++ ':' :: ' ' :: block)

mutual

def writeBlock (indent : Nat) : Tree → List Char
  | .list (t :: ts) =>
    '-' :: ' ' :: (writeBlock (indent + 2) t ++ writeItems indent ts)
  | .map ((k, t) :: es) =>
    writeEntry indent k (writeBlock (indent + 2) t) (writeValue indent t) ++ writeEntries indent es
  | t => writeLeaf indent t

def writeItems (indent : Nat) : List Tree → List Char
  | [] => []
  | t :: ts => spaces indent ++ '-' :: ' ' :: (writeBlock (indent + 2) t ++ writeItems indent ts)

def writeEntries (indent : Nat) : List (String × Tree) → List Char
  | [] => []
  | (k, t) :: es =>
    spaces indent ++ writeEntry indent k (writeBlock (indent + 2) t) (writeValue indent t)
      ++ writeEntries indent es

def writeValue (indent : Nat) : Tree → List Char
  | .list (t :: ts) =>
    '\n' :: (spaces indent ++ '-' :: ' ' :: (writeBlock (indent + 2) t ++ writeItems indent ts))
  | .map ((k, t) :: es) =>
    '\n' :: (spaces (indent + 2)
      ++ writeEntry (indent + 2) k (writeBlock (indent + 4) t) (writeValue (indent + 2) t)
      ++ writeEntries (indent + 2) es)
  | t => ' ' :: writeLeaf (indent + 2) t

end

def write (t : Tree) : List Char :=
  match t with
  | .list (_ :: _) | .map (_ :: _) => writeBlock 0 t
  | t => writeLeaf 2 t

def render (t : Tree) : String := String.ofList (write t)

def renderAll (ts : List Tree) : String :=
  String.ofList (Text.joinWith "---\n".toList (ts.map write))

end Manifest.Yaml
