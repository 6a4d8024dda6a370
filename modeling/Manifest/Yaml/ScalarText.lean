import Manifest.Text.Split
import Manifest.Yaml.Cursor

/-! Scalars are quoted, in block form, or plain.  Line breaks inside quoted and plain scalars are
folded: one break is a blank, and of several the first is dropped. -/

namespace Manifest.Yaml

inductive ScalarStyle where
  | plain
  | singleQuoted
  | doubleQuoted
  | literal
  | folded
  deriving DecidableEq

structure Gap where
  blanks : List Char := []
  first : List Char := []
  more : List Char := []
  broken : Bool := false

namespace Gap

def text (g : Gap) : List Char :=
  if g.broken then
    if g.first.head? = some '\n' then (if g.more = [] then [' '] else g.more)
    else g.first ++ g.more
  else g.blanks

def read (indent : Int) : Nat → Gap → Cursor → Option (Gap × Cursor)
  | 0, g, c => some (g, c)
  | fuel + 1, g, c =>
    match c.peek with
    | none => some (g, c)
    | some x =>
      if isBlank x then
        if g.broken then
          if x = '\t' ∧ (c.column : Int) < indent then none else read indent fuel g c.advance
        else read indent fuel { g with blanks := g.blanks ++ [x] } c.advance
      else if isBreak x then
        let (b, c) := c.takeBreak
        if g.broken then read indent fuel { g with more := g.more ++ b } c
        else read indent fuel { g with blanks := [], first := b, broken := true } c
      else some (g, c)

end Gap

def letterEscape? (c : Char) : Option Char :=
  match c with
  | '0' => some (Char.ofNat 0)
  | 'a' => some '\x07'
  | 'b' => some '\x08'
  | 't' | '\t' => some '\t'
  | 'n' => some '\n'
  | 'v' => some '\x0b'
  | 'f' => some '\x0c'
  | 'r' => some '\r'
  | 'e' => some '\x1b'
  | ' ' | '"' | '/' | '\\' => some c
  | 'N' => some '\u0085'
  | '_' => some '\u00a0'
  | 'L' => some '\u2028'
  | 'P' => some '\u2029'
  | _ => none

def numericEscape? (c : Char) : Option Nat :=
  match c with
  | 'x' => some 2
  | 'u' => some 4
  | 'U' => some 8
  | _ => none

def readEscape? (c : Cursor) : Option (Char × Cursor) := do
  let letter ← c.at? 1
  match numericEscape? letter with
  | some count =>
    let digits := (c.rest.drop 2).take count
    if digits.length < count then none
    else
      let n ← Text.hexNumber? digits
      if 0xD800 ≤ n ∧ n ≤ 0xDFFF ∨ 0x10FFFF < n then none
      else some (Char.ofNat n, c.advance (2 + count))
  | none =>
    let x ← letterEscape? letter
    some (x, c.advance 2)

/-- Characters up to a blank, a line break or the closing quote.  An escaped line break ends them
too, and the flag tells of it. -/
def readQuotedRun (single : Bool) : Nat → Cursor → Option (List Char × Bool × Cursor)
  | 0, _ => none
  | fuel + 1, c =>
    if c.blankOrEndAt 0 then some ([], false, c)
    else if single ∧ c.at? 0 = some '\'' ∧ c.at? 1 = some '\'' then
      (readQuotedRun single fuel (c.advance 2)).map fun r => ('\'' :: r.1, r.2)
    else if c.peek = some (if single then '\'' else '"') then some ([], false, c)
    else if !single ∧ c.peek = some '\\' then
      if (c.at? 1).any isBreak then some ([], true, c.advance.takeBreak.2)
      else do
        let (x, c) ← readEscape? c
        let r ← readQuotedRun single fuel c
        some (x :: r.1, r.2)
    else
      match c.peek with
      | none => none
      | some x => (readQuotedRun single fuel c.advance).map fun r => (x :: r.1, r.2)

def readQuoted (single : Bool) : Nat → Cursor → Option (List Char × Cursor)
  | 0, _ => none
  | fuel + 1, c =>
    if c.atDocumentMarker ∨ c.peek = none then none
    else do
      let (run, escaped, c) ← readQuotedRun single (c.rest.length + 1) c
      if c.peek = some (if single then '\'' else '"') then some (run, c.advance)
      else
        let (gap, c) ← Gap.read 0 (c.rest.length + 1) { broken := escaped } c
        let (text, c) ← readQuoted single fuel c
        some (run ++ gap.text ++ text, c)

def isFlowIndicator (c : Char) : Bool := c = ',' || c = '[' || c = ']' || c = '{' || c = '}'

/-- Characters of a plain scalar without a blank.  Inside brackets a colon may not stand before an
indicator. -/
def plainRun (flow : Bool) : List Char → Option (List Char)
  | [] => some []
  | x :: xs =>
    if isBlank x || isBreak x then some []
    else if flow && x = ':' && xs.head?.any (fun y => isFlowIndicator y || y = '?') then none
    else if x = ':' && xs.head?.all (fun y => isBlank y || isBreak y) then some []
    else if flow && isFlowIndicator x then some []
    else (plainRun flow xs).map (x :: ·)

def readPlain (flow : Bool) (indent : Int) : Nat → Gap → Cursor → Option (List Char × Bool × Cursor)
  | 0, _, _ => none
  | fuel + 1, gap, c =>
    if c.atDocumentMarker || c.peek = some '#' then some ([], gap.broken, c)
    else do
      let run ← plainRun flow c.rest
      let text := if run = [] then [] else gap.text ++ run
      let gap := if run = [] then gap else {}
      let c := c.advance run.length
      if c.peek = none ∨ !c.blankOrEndAt 0 then some (text, gap.broken, c)
      else
        let (next, c) ← Gap.read indent (c.rest.length + 1) gap c
        if !flow ∧ (c.column : Int) < indent then some (text, next.broken, c)
        else
          let (more, broken, c) ← readPlain flow indent fuel next c
          some (text ++ more, broken, c)

inductive Chomping where
  | strip
  | clip
  | keep
  deriving DecidableEq

def readChomping (c : Cursor) : Option Chomping × Cursor :=
  match c.peek with
  | some '+' => (some .keep, c.advance)
  | some '-' => (some .strip, c.advance)
  | _ => (none, c)

def readIncrement? (c : Cursor) : Option (Option Nat × Cursor) :=
  match c.peek with
  | some x =>
    if '1' ≤ x ∧ x ≤ '9' then some (some (x.toNat - '0'.toNat), c.advance)
    else if x = '0' then none
    else some (none, c)
  | none => some (none, c)

def readHints? (c : Cursor) : Option (Chomping × Option Nat × Cursor) := do
  let (chomping, c) := readChomping c
  let (increment, c) ← readIncrement? c
  match chomping, increment with
  | some ch, _ => some (ch, increment, c)
  | none, none => some (.clip, none, c)
  | none, some _ =>
    let (chomping, c) := readChomping c
    some (chomping.getD .clip, increment, c)

/-- Blank lines, and the indentation of the line after them.  While the indentation is not known the
widest of them counts. -/
def readBlankLines (indent : Nat) : Nat → Nat → Cursor → Option (List Char × Nat × Cursor)
  | 0, _, _ => none
  | fuel + 1, widest, c =>
    let (spaces, _) := c.rest.span (· = ' ')
    let count := if indent = 0 then spaces.length else min spaces.length (indent - c.column)
    let c := c.advance count
    let widest := max widest c.column
    if (indent = 0 ∨ c.column < indent) ∧ c.peek = some '\t' then none
    else if (c.peek).any isBreak then
      let (b, c) := c.takeBreak
      (readBlankLines indent fuel widest c).map fun r => (b ++ r.1, r.2)
    else some ([], widest, c)

/-- Lines of a block scalar.  `first` is the line break before the line, `more` the blank lines
after that break, and `blankBefore` says that the line before starts with a blank. -/
def readLines (literal : Bool) (indent : Nat) :
    Nat → List Char → List Char → Bool → Cursor →
      Option (List Char × List Char × List Char × Cursor)
  | 0, _, _, _, _ => none
  | fuel + 1, first, more, blankBefore, c =>
    if c.column = indent ∧ c.peek ≠ none then do
      let blank := (c.peek).any isBlank
      let joint :=
        if !literal ∧ first.head? = some '\n' ∧ !blankBefore ∧ !blank then
          if more = [] then [' '] else []
        else first
      let (line, c) := c.takeWhile fun x => !isBreak x
      let (b, c) := c.takeBreak
      let (blankLines, _, c) ← readBlankLines indent (c.rest.length + 1) 0 c
      let (text, first, rest, c) ← readLines literal indent fuel b blankLines blank c
      some (joint ++ more ++ line ++ text, first, rest, c)
    else some ([], first, more, c)

def readBlockScalar (literal : Bool) (parent : Int) (c : Cursor) : Option (List Char × Cursor) := do
  let (chomping, increment, c) ← readHints? c
  let c := c.skipWhile isBlank
  let c := if c.peek = some '#' then c.skipLine else c
  if !c.lineEnds then none
  else
    let (_, c) := c.takeBreak
    let indent := match increment with
      | none => 0
      | some n => (if 0 ≤ parent then parent.toNat else 0) + n
    let (blankLines, widest, c) ← readBlankLines indent (c.rest.length + 1) 0 c
    let indent := if indent = 0 then max (max widest (parent + 1).toNat) 1 else indent
    let (text, first, more, c) ← readLines literal indent (c.rest.length + 1) [] blankLines false c
    let tail := match chomping with
      | .strip => []
      | .clip => first
      | .keep => first ++ more
    some (text ++ tail, c)

end Manifest.Yaml
