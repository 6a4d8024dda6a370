import Manifest.Tree.Basic

/-! Compact text with the keys of a map in their order.  Only quotes, backslashes and the characters
below U+0020 are escaped.  Decimals are the fewest digits that read back, always with a point or an
exponent; what is not a finite number is written `null`. -/

namespace Manifest.Json

/-- Decimals are positional from `1e-5` to below `1e16`, and exponents carry their sign. -/
def decimalStyle : Decimal.Style where
  tie := .even
  positional := some (-5, 15)
  pointZero := true
  plus := ['+']
  infinity := "null".toList
  nan := "null".toList

def escape (c : Char) : List Char :=
  if c = '"' then ['\\', '"']
  else if c = '\\' then ['\\', '\\']
  else if c = '\n' then ['\\', 'n']
  else if c = '\r' then ['\\', 'r']
  else if c = '\t' then ['\\', 't']
  else if c = '\x08' then ['\\', 'b']
  else if c = '\x0c' then ['\\', 'f']
  else if c.toNat < 0x20 then
    ['\\', 'u', '0', '0', Nat.digitChar (c.toNat / 16), Nat.digitChar (c.toNat % 16)]
  else [c]

def writeString (s : String) : List Char := '"' :: (s.toList.flatMap escape ++ ['"'])

def writeDecimal (d : Decimal) : List Char :=
  if d.isFinite then d.write decimalStyle else "null".toList

def writeScalar : Tree → List Char
  | .boolean true => "true".toList
  | .boolean false => "false".toList
  | .integer n => Text.writeInt n.toInt
  | .decimal d => writeDecimal d
  | .text s => writeString s
  | .null | .list _ | .map _ => "null".toList

mutual

def write : Tree → List Char
  | .list items => '[' :: (writeItems items ++ [']'])
  | .map es => '{' :: (writeEntries es ++ ['}'])
  | t => writeScalar t

def writeItems : List Tree → List Char
  | [] => []
  | t :: ts => write t ++ writeMoreItems ts

def writeMoreItems : List Tree → List Char
  | [] => []
  | t :: ts => ',' :: (write t ++ writeMoreItems ts)

def writeEntries : List (String × Tree) → List Char
  | [] => []
  | (k, t) :: es => writeString k ++ ':' :: (write t ++ writeMoreEntries es)

def writeMoreEntries : List (String × Tree) → List Char
  | [] => []
  | (k, t) :: es => ',' :: (writeString k ++ ':' :: (write t ++ writeMoreEntries es))

end

def render (t : Tree) : String := String.ofList (write t)

def newLine (level : Nat) : List Char := '\n' :: List.replicate (2 * level) ' '

mutual

def writeIndented (level : Nat) : Tree → List Char
  | .list [] => ['[', ']']
  | .list items => '[' :: (writeIndentedItems (level + 1) items ++ newLine level ++ [']'])
  | .map [] => ['{', '}']
  | .map es => '{' :: (writeIndentedEntries (level + 1) es ++ newLine level ++ ['}'])
  | t => writeScalar t

def writeIndentedItems (level : Nat) : List Tree → List Char
  | [] => []
  | [t] => newLine level ++ writeIndented level t
  | t :: ts => newLine level ++ writeIndented level t ++ ',' :: writeIndentedItems level ts

def writeIndentedEntries (level : Nat) : List (String × Tree) → List Char
  | [] => []
  | [(k, t)] => newLine level ++ writeString k ++ ':' :: ' ' :: writeIndented level t
  | (k, t) :: es => newLine level ++ writeString k ++ ':' :: ' ' :: writeIndented level t
      ++ ',' :: writeIndentedEntries level es

end

end Manifest.Json
