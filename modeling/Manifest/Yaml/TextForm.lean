import Manifest.Yaml.Plain

/-! A string is written plain where that reads back as the same string.  Otherwise it is quoted, or
a literal block if it has line feeds.  Double quotes are for characters and blanks that no other
form can hold. -/

namespace Manifest.Yaml

def isPrintable (c : Char) : Bool :=
  let n := c.toNat
  n = 0x0A || 0x20 ≤ n && n ≤ 0x7E || 0xA0 ≤ n && n ≤ 0xFFFD && n ≠ 0xFEFF || 0x10000 ≤ n

def isGap (c : Option Char) : Bool :=
  match c with
  | none => true
  | some x => isBlank x || isBreak x

def hasPair (p q : Char → Bool) : List Char → Bool
  | a :: b :: cs => p a && q b || hasPair p q (b :: cs)
  | _ => false

/-- The first character gives a plain scalar another meaning; `next` is the one after it. -/
def isLeadIndicator (c : Char) (next : Option Char) : Bool :=
  "#,[]\x7b\x7d&*!|>'\"%@`".toList.contains c
    || (c = '?' || c = ':' || c = '-') && isGap next

def hasInnerIndicator (before : Char) : List Char → Bool
  | [] => false
  | c :: cs =>
    c = ':' && isGap cs.head? || c = '#' && isGap (some before) || hasInnerIndicator c cs

def startsWithMarker (cs : List Char) : Bool :=
  cs.take 3 = ['-', '-', '-'] || cs.take 3 = ['.', '.', '.']

def needsEscapes (cs : List Char) : Bool :=
  !cs.all isPrintable || hasPair (· = ' ') isBreak cs

def hasLooseEnd (cs : List Char) : Bool :=
  cs.head? = some ' ' || cs.getLast? = some ' ' || cs.any isBreak

def canBePlain : List Char → Bool
  | [] => true
  | c :: cs =>
    !(startsWithMarker (c :: cs) || isLeadIndicator c cs.head? || hasInnerIndicator c cs
      || needsEscapes (c :: cs) || hasLooseEnd (c :: cs))

/-- Blanks after a line break would be lost between single quotes. -/
def canBeSingleQuoted (cs : List Char) : Bool := !(needsEscapes cs || hasPair isBreak (· = ' ') cs)

def canBeLiteral (cs : List Char) : Bool :=
  cs ≠ [] && !(needsEscapes cs || cs.getLast? = some ' ')

def looksTyped (s : String) : Bool := plainMeaning s ≠ .text || hasSpareZero s.toList

def textForm (s : String) : ScalarStyle :=
  let cs := s.toList
  if cs.contains '\n' then if canBeLiteral cs then .literal else .doubleQuoted
  else if !looksTyped s && canBePlain cs then .plain
  else if canBeSingleQuoted cs then .singleQuoted
  else .doubleQuoted

def hexDigits (width n : Nat) : List Char :=
  let ds := (Nat.toDigits 16 n).map Char.toUpper
  List.replicate (width - ds.length) '0' ++ ds

def escapeChar (c : Char) : List Char :=
  if c = '"' ∨ c = '\\' then ['\\', c]
  else if isPrintable c && !isBreak c then [c]
  else '\\' :: match c with
    | '\x00' => ['0']
    | '\x07' => ['a']
    | '\x08' => ['b']
    | '\t' => ['t']
    | '\n' => ['n']
    | '\x0b' => ['v']
    | '\x0c' => ['f']
    | '\r' => ['r']
    | '\x1b' => ['e']
    | '\u0085' => ['N']
    | '\u2028' => ['L']
    | '\u2029' => ['P']
    | _ =>
      if c.toNat ≤ 0xFF then 'x' :: hexDigits 2 c.toNat
      else if c.toNat ≤ 0xFFFF then 'u' :: hexDigits 4 c.toNat
      else 'U' :: hexDigits 8 c.toNat

def writeDoubleQuoted (cs : List Char) : List Char := '"' :: (cs.flatMap escapeChar ++ ['"'])

def spaces (n : Nat) : List Char := List.replicate n ' '

/-- The inside of single quotes.  A line that follows a break is indented; `broken` says that the
character in front is a break. -/
def singleQuotedBody (indent : Nat) (broken : Bool) : List Char → List Char
  | [] => if broken then spaces indent else []
  | c :: cs =>
    if isBreak c then c :: singleQuotedBody indent true cs
    else
      (if broken then spaces indent else []) ++ (if c = '\'' then ['\'', '\''] else [c])
        ++ singleQuotedBody indent false cs

def writeSingleQuoted (indent : Nat) (cs : List Char) : List Char :=
  '\'' :: (singleQuotedBody indent false cs ++ ['\''])

def literalBody (indent : Nat) (broken : Bool) : List Char → List Char
  | [] => []
  | c :: cs =>
    if isBreak c then c :: literalBody indent true cs
    else (if broken then spaces indent else []) ++ c :: literalBody indent false cs

def indentationHint (cs : List Char) : List Char :=
  if cs.head?.any (fun c => c = ' ' || isBreak c) then ['2'] else []

def chompingHint (cs : List Char) : List Char :=
  match cs.reverse with
  | [] => ['-']
  | [c] => if isBreak c then ['+'] else ['-']
  | c :: d :: _ => if !isBreak c then ['-'] else if isBreak d then ['+'] else []

def writeLiteral (indent : Nat) (cs : List Char) : List Char :=
  '|' :: (indentationHint cs ++ chompingHint cs ++ '\n' :: literalBody indent true cs
    ++ if cs.getLast?.any isBreak then [] else ['\n'])

end Manifest.Yaml
