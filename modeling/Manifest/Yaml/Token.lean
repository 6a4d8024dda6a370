import Manifest.Yaml.ScalarText

namespace Manifest.Yaml

inductive Token where
  | version (major minor : Nat)
  | tagShorthand (handle expansion : String)
  | documentStart
  | documentEnd
  | streamEnd
  | blockSequence
  | blockMapping
  | blockEnd
  | openBracket
  | closeBracket
  | openBrace
  | closeBrace
  | entry
  | comma
  | key
  | value
  | alias (name : String)
  | anchor (name : String)
  | tag (handle suffix : String)
  | scalar (text : String) (style : ScalarStyle)
  deriving DecidableEq

def readShortNat? (c : Cursor) : Option (Nat × Cursor) :=
  let (ds, c) := c.takeWhile Char.isDigit
  if ds = [] ∨ 9 < ds.length then none
  else some (ds.foldl (fun n d => n * 10 + (d.toNat - '0'.toNat)) 0, c)

def readHandle? (directive : Bool) (c : Cursor) : Option (List Char × Cursor) :=
  if c.peek ≠ some '!' then none
  else
    let (word, c) := c.advance.takeWhile isWord
    if c.peek = some '!' then some ('!' :: word ++ ['!'], c.advance)
    else if directive ∧ word ≠ [] then none
    else some ('!' :: word, c)

def isTagChar (verbatim : Bool) (x : Char) : Bool :=
  isWord x || ";/?:@&=+$.%!~*'()".toList.contains x || verbatim && ",[]".toList.contains x

def readByte? : List Char → Option (UInt8 × List Char)
  | '%' :: a :: b :: cs => do
    let n ← Text.hexNumber? [a, b]
    some (UInt8.ofNat n, cs)
  | _ => none

def readBytes? : Nat → List Char → Option (List UInt8 × List Char)
  | 0, cs => some ([], cs)
  | n + 1, cs => do
    let (b, cs) ← readByte? cs
    let (bs, cs) ← readBytes? n cs
    some (b :: bs, cs)

def byteCount? (b : UInt8) : Option Nat :=
  if b < 0x80 then some 1
  else if b &&& 0xE0 = 0xC0 then some 2
  else if b &&& 0xF0 = 0xE0 then some 3
  else if b &&& 0xF8 = 0xF0 then some 4
  else none

def readEscapedChar? (cs : List Char) : Option (List Char × Nat) := do
  let (b, _) ← readByte? cs
  let n ← byteCount? b
  let (bytes, _) ← readBytes? n cs
  let s ← String.fromUTF8? ⟨bytes.toArray⟩
  some (s.toList, 3 * n)

def readTagText (verbatim : Bool) : Nat → Cursor → Option (List Char × Cursor)
  | 0, _ => none
  | fuel + 1, c =>
    match c.peek with
    | none => some ([], c)
    | some x =>
      if x = '%' then do
        let (text, n) ← readEscapedChar? c.rest
        let (more, c) ← readTagText verbatim fuel (c.advance n)
        some (text ++ more, c)
      else if isTagChar verbatim x then
        (readTagText verbatim fuel c.advance).map fun r => (x :: r.1, r.2)
      else some ([], c)

def readTag? (inBrackets : Bool) (c : Cursor) : Option (Token × Cursor) := do
  let (token, c) ←
    if c.at? 1 = some '<' then do
      let (text, c) ← readTagText true (c.rest.length + 1) (c.advance 2)
      if text = [] ∨ c.peek ≠ some '>' then none
      else some (Token.tag "" (String.ofList text), c.advance)
    else do
      let (handle, c) ← readHandle? false c
      if 2 ≤ handle.length ∧ handle.getLast? = some '!' then do
        let (suffix, c) ← readTagText false (c.rest.length + 1) c
        if suffix = [] then none
        else some (Token.tag (String.ofList handle) (String.ofList suffix), c)
      else do
        let (text, c) ← readTagText false (c.rest.length + 1) c
        let suffix := handle.tail ++ text
        if suffix = [] then some (Token.tag "" "!", c)
        else some (Token.tag "!" (String.ofList suffix), c)
  if c.blankOrEndAt 0 ∨ (inBrackets ∧ c.peek = some ',') then some (token, c) else none

def readAnchorName? (c : Cursor) : Option (String × Cursor) :=
  let (name, c) := c.advance.takeWhile isWord
  if name = [] then none
  else if c.blankOrEndAt 0 || (c.peek).any (fun x => "?:,]\x7d%@`".toList.contains x) then
    some (String.ofList name, c)
  else none

def readDirective? (c : Cursor) : Option (Token × Cursor) := do
  let (name, c) := c.advance.takeWhile isWord
  if name = [] ∨ !c.blankOrEndAt 0 then none
  else
    let c := c.skipWhile isBlank
    let (token, c) ←
      if name = "YAML".toList then do
        let (major, c) ← readShortNat? c
        if c.peek ≠ some '.' then none
        else
          let (minor, c) ← readShortNat? c.advance
          some (Token.version major minor, c)
      else if name = "TAG".toList then do
        let (handle, c) ← readHandle? true c
        if !(c.peek).any isBlank then none
        else
          let (text, c) ← readTagText true (c.rest.length + 1) (c.skipWhile isBlank)
          if text = [] ∨ !c.blankOrEndAt 0 then none
          else some (Token.tagShorthand (String.ofList handle) (String.ofList text), c)
      else none
    let c := c.skipWhile isBlank
    let c := if c.peek = some '#' then c.skipLine else c
    if c.lineEnds then some (token, c.takeBreak.2) else none

end Manifest.Yaml
