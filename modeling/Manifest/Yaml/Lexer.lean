import Manifest.Yaml.Token

/-! Blocks follow from indentation: a construct further right than the current block opens a new
one, and text further left closes blocks.  Whether a node is the key of a map is known only when a
colon follows it, on the same line and within 1024 characters; until then its place is remembered as
a possible key, one for every level of brackets. -/

namespace Manifest.Yaml

structure PossibleKey where
  place : Nat
  required : Bool
  index : Nat
  line : Nat
  column : Nat

structure Lexer where
  cursor : Cursor
  tokens : Array Token := #[]
  /-- The column of the current block, -1 outside all blocks. -/
  indent : Int := -1
  outerIndents : List Int := []
  keyAllowed : Bool := true
  /-- The possible key outside brackets, or at the innermost level of brackets. -/
  possibleKey : Option PossibleKey := none
  outerKeys : List (Option PossibleKey) := []

namespace Lexer

def inBrackets (l : Lexer) : Bool := !l.outerKeys.isEmpty

def push (l : Lexer) (t : Token) : Lexer := { l with tokens := l.tokens.push t }

def skipByteOrderMark (c : Cursor) : Cursor :=
  if c.column = 0 ∧ c.peek = some '\ufeff' then c.advance else c

/-- Passes blanks, comments and line breaks.  A tab may not stand where a key may start. -/
def skipToToken : Nat → Lexer → Lexer
  | 0, l => l
  | fuel + 1, l =>
    let tabs := l.inBrackets || !l.keyAllowed
    let c := (skipByteOrderMark l.cursor).skipWhile fun x => x = ' ' || tabs && x = '\t'
    let c := if c.peek = some '#' then c.skipLine else c
    if (c.peek).any isBreak then
      skipToToken fuel
        { l with cursor := c.takeBreak.2, keyAllowed := l.keyAllowed || !l.inBrackets }
    else { l with cursor := c }

def expireKey (c : Cursor) : Option PossibleKey → Option (Option PossibleKey)
  | none => some none
  | some k =>
    if k.line < c.line ∨ k.index + 1024 < c.index then
      if k.required then none else some none
    else some (some k)

def expireKeys (l : Lexer) : Option Lexer := do
  let outerKeys ← l.outerKeys.mapM (expireKey l.cursor)
  let possibleKey ← expireKey l.cursor l.possibleKey
  some { l with outerKeys, possibleKey }

def dropKey (l : Lexer) : Option Lexer :=
  match l.possibleKey with
  | some k => if k.required then none else some { l with possibleKey := none }
  | none => some l

def saveKey (l : Lexer) : Option Lexer :=
  if l.keyAllowed then do
    let l ← l.dropKey
    some { l with possibleKey := some {
      place := l.tokens.size
      required := !l.inBrackets && l.indent = l.cursor.column
      index := l.cursor.index
      line := l.cursor.line
      column := l.cursor.column } }
  else some l

def openBlock (column : Nat) (place : Nat) (t : Token) (l : Lexer) : Lexer :=
  if !l.inBrackets ∧ l.indent < column then
    { l with
      outerIndents := l.indent :: l.outerIndents
      indent := column
      tokens := l.tokens.insertIdxIfInBounds place t }
  else l

def closeBlocksFrom (column : Int) : List Int → Int → Array Token → Array Token × Int × List Int
  | [], indent, tokens => (tokens, indent, [])
  | outer :: outers, indent, tokens =>
    if column < indent then closeBlocksFrom column outers outer (tokens.push .blockEnd)
    else (tokens, indent, outer :: outers)

def closeBlocks (column : Int) (l : Lexer) : Lexer :=
  if l.inBrackets then l
  else
    let (tokens, indent, outerIndents) := closeBlocksFrom column l.outerIndents l.indent l.tokens
    { l with tokens, indent, outerIndents }

def mark (t : Token) (width : Nat) (keyAllowed : Bool) (l : Lexer) : Option Lexer := do
  let l ← l.dropKey
  some ({ l with cursor := l.cursor.advance width, keyAllowed }.push t)

def documentMark (t : Token) (l : Lexer) : Option Lexer := (l.closeBlocks (-1)).mark t 3 false

def openCollection (t : Token) (l : Lexer) : Option Lexer := do
  let l ← l.saveKey
  some ({ l with
    outerKeys := l.possibleKey :: l.outerKeys
    possibleKey := none
    keyAllowed := true
    cursor := l.cursor.advance }.push t)

def closeCollection (t : Token) (l : Lexer) : Option Lexer := do
  let l ← l.dropKey
  let l := match l.outerKeys with
    | [] => l
    | k :: ks => { l with possibleKey := k, outerKeys := ks }
  some ({ l with keyAllowed := false, cursor := l.cursor.advance }.push t)

def entryMark (l : Lexer) : Option Lexer :=
  if !l.inBrackets && !l.keyAllowed then none
  else (l.openBlock l.cursor.column l.tokens.size .blockSequence).mark .entry 1 true

def keyMark (l : Lexer) : Option Lexer :=
  if !l.inBrackets && !l.keyAllowed then none
  else (l.openBlock l.cursor.column l.tokens.size .blockMapping).mark .key 1 (!l.inBrackets)

/-- The mark between key and value.  A possible key becomes one here. -/
def valueMark (l : Lexer) : Option Lexer :=
  match l.possibleKey with
  | some k =>
    let l := { l with
      tokens := l.tokens.insertIdxIfInBounds k.place .key
      possibleKey := none
      keyAllowed := false }
    let l := l.openBlock k.column k.place .blockMapping
    some ({ l with cursor := l.cursor.advance }.push .value)
  | none =>
    if !l.inBrackets && !l.keyAllowed then none
    else
      let l := l.openBlock l.cursor.column l.tokens.size .blockMapping
      some ({ l with cursor := l.cursor.advance, keyAllowed := !l.inBrackets }.push .value)

def node (l : Lexer) (t : Token) (c : Cursor) (keyAllowed : Bool := false) : Option Lexer := do
  let l ← l.saveKey
  some ({ l with cursor := c, keyAllowed }.push t)

def blockScalar (literal : Bool) (l : Lexer) : Option Lexer := do
  let l ← l.dropKey
  let (text, c) ← readBlockScalar literal l.indent l.cursor.advance
  let style := if literal then ScalarStyle.literal else .folded
  some ({ l with cursor := c, keyAllowed := true }.push (.scalar (String.ofList text) style))

def quotedScalar (single : Bool) (l : Lexer) : Option Lexer := do
  let (text, c) ← readQuoted single (l.cursor.rest.length + 1) l.cursor.advance
  let style := if single then ScalarStyle.singleQuoted else .doubleQuoted
  l.node (.scalar (String.ofList text) style) c

def plainScalar (l : Lexer) : Option Lexer := do
  let (text, broken, c) ←
    readPlain l.inBrackets (l.indent + 1) (l.cursor.rest.length + 1) {} l.cursor
  l.node (.scalar (String.ofList text) .plain) c broken

def isIndicator (x : Char) : Bool := "-?:,[]\x7b\x7d#&*!|>'\"%@`".toList.contains x

def startsPlain (l : Lexer) (x : Char) : Bool :=
  !isIndicator x && !isBlank x && !isBreak x
    || x = '-' && !(l.cursor.at? 1).any isBlank
    || !l.inBrackets && (x = '?' || x = ':') && !l.cursor.blankOrEndAt 1

def token (x : Char) (l : Lexer) : Option Lexer :=
  let c := l.cursor
  if c.column = 0 ∧ x = '%' then do
    let l ← (l.closeBlocks (-1)).dropKey
    let (t, c) ← readDirective? l.cursor
    some ({ l with cursor := c, keyAllowed := false }.push t)
  else if c.atMarker '-' then l.documentMark .documentStart
  else if c.atMarker '.' then l.documentMark .documentEnd
  else if x = '[' then l.openCollection .openBracket
  else if x = '{' then l.openCollection .openBrace
  else if x = ']' then l.closeCollection .closeBracket
  else if x = '}' then l.closeCollection .closeBrace
  else if x = ',' then l.mark .comma 1 true
  else if x = '-' ∧ c.blankOrEndAt 1 then l.entryMark
  else if x = '?' ∧ (l.inBrackets || c.blankOrEndAt 1) then l.keyMark
  else if x = ':' ∧ (l.inBrackets || c.blankOrEndAt 1) then l.valueMark
  else if x = '*' then do
    let (name, c) ← readAnchorName? c
    l.node (.alias name) c
  else if x = '&' then do
    let (name, c) ← readAnchorName? c
    l.node (.anchor name) c
  else if x = '!' then do
    let (t, c) ← readTag? l.inBrackets c
    l.node t c
  else if x = '|' ∧ !l.inBrackets then l.blockScalar true
  else if x = '>' ∧ !l.inBrackets then l.blockScalar false
  else if x = '\'' then l.quotedScalar true
  else if x = '"' then l.quotedScalar false
  else if l.startsPlain x then l.plainScalar
  else none

def finish (l : Lexer) : Option Lexer := do
  let l ← (l.closeBlocks (-1)).dropKey
  some (l.push .streamEnd)

def run : Nat → Lexer → Lexer
  | 0, l => l
  | fuel + 1, l =>
    let l := skipToToken (l.cursor.rest.length + 1) l
    match l.expireKeys with
    | none => l
    | some l =>
      let l := l.closeBlocks l.cursor.column
      match l.cursor.peek with
      | none => l.finish.getD l
      | some x =>
        match l.token x with
        | none => l
        | some next => run fuel next

end Lexer

/-- The tokens of a text.  They end in the end of the stream unless the text has an error, which
comes after the last of them.  A text with a character that is not allowed has no tokens. -/
def tokens (text : List Char) : List Token :=
  if text.all isAllowed then
    (Lexer.run (text.length + 1) { cursor := { rest := text } }).tokens.toList
  else []

end Manifest.Yaml
