import Manifest.Pattern.Basic
import Manifest.Text.Split

/-! The usual notation: literals, classes in brackets with set operations, escapes, groups with
numbers and perhaps names, flags, and repetitions with lazy forms.  Look-around and references to
groups are refused, as is everything that has no meaning. -/

namespace Manifest

structure PatternFlags where
  ignoreCase : Bool := false
  multiLine : Bool := false
  dotAll : Bool := false
  swapGreed : Bool := false

structure PatternScan where
  rest : List Char
  flags : PatternFlags := {}
  groups : Nat := 0
  names : List (String × Nat) := []

abbrev PatternParser := StateT PatternScan Option

namespace PatternParser

def peek : PatternParser (Option Char) := return (← get).rest.head?

def skip (n : Nat) : PatternParser Unit := modify fun s => { s with rest := s.rest.drop n }

def next : PatternParser Char := do
  match (← get).rest with
  | [] => failure
  | c :: _ =>
    skip 1
    pure c

def takes (text : List Char) : PatternParser Bool := do
  if text.isPrefixOf (← get).rest then
    skip text.length
    pure true
  else pure false

def upTo (stop : Char) : PatternParser (List Char) := do
  match Text.splitFirst? stop (← get).rest with
  | none => failure
  | some (taken, rest) =>
    modify fun s => { s with rest }
    pure taken

inductive Escape where
  | char (c : Char)
  | chars (c : CharClass)
  | anchor (a : Anchor)

def hexChar? (ds : List Char) : Option Char := do
  if ds = [] then none
  else
    let n ← Text.hexNumber? ds
    if 0x10FFFF < n ∨ 0xD800 ≤ n ∧ n ≤ 0xDFFF then none else some (Char.ofNat n)

def hexEscape (length : Nat) : PatternParser Escape := do
  let digits ←
    if (← takes ['\x7b']) then upTo '\x7d'
    else
      let ds := (← get).rest.take length
      if ds.length < length then failure
      else
        skip length
        pure ds
  match hexChar? digits with
  | some c => pure (.char c)
  | none => failure

def letterEscape? (c : Char) : Option Escape :=
  match c with
  | 'd' => some (.chars .digit)
  | 'D' => some (.chars (.complement .digit))
  | 's' => some (.chars .blank)
  | 'S' => some (.chars (.complement .blank))
  | 'w' => some (.chars .word)
  | 'W' => some (.chars (.complement .word))
  | 'a' => some (.char '\x07')
  | 'f' => some (.char '\x0c')
  | 't' => some (.char '\t')
  | 'n' => some (.char '\n')
  | 'r' => some (.char '\r')
  | 'v' => some (.char '\x0b')
  | 'A' => some (.anchor .textStart)
  | 'z' => some (.anchor .textEnd)
  | 'b' => some (.anchor .wordBoundary)
  | 'B' => some (.anchor .noWordBoundary)
  | _ => none

def isEscapable (c : Char) : Bool :=
  c.toNat < 0x80 && !c.isAlphanum && c ≠ '<' && c ≠ '>'

def escape : PatternParser Escape := do
  let c ← next
  if c = 'x' then hexEscape 2
  else if c = 'u' then hexEscape 4
  else if c = 'U' then hexEscape 8
  else
    match letterEscape? c with
    | some e => pure e
    | none => if isEscapable c then pure (.char c) else failure

def rangesClass (rs : List (Char × Char)) : CharClass :=
  rs.foldl (fun c r => .union c (.range r.1 r.2)) .none

def asciiClass? (name : List Char) : Option CharClass :=
  match String.ofList name with
  | "alnum" => some (rangesClass [('0', '9'), ('A', 'Z'), ('a', 'z')])
  | "alpha" => some (rangesClass [('A', 'Z'), ('a', 'z')])
  | "ascii" => some (rangesClass [('\x00', '\x7f')])
  | "blank" => some (rangesClass [('\t', '\t'), (' ', ' ')])
  | "cntrl" => some (rangesClass [('\x00', '\x1f'), ('\x7f', '\x7f')])
  | "digit" => some (rangesClass [('0', '9')])
  | "graph" => some (rangesClass [('!', '~')])
  | "lower" => some (rangesClass [('a', 'z')])
  | "print" => some (rangesClass [(' ', '~')])
  | "punct" => some (rangesClass [('!', '/'), (':', '@'), ('[', '\x60'), ('\x7b', '~')])
  | "space" => some (rangesClass [('\t', '\r'), (' ', ' ')])
  | "upper" => some (rangesClass [('A', 'Z')])
  | "word" => some (rangesClass [('0', '9'), ('A', 'Z'), ('_', '_'), ('a', 'z')])
  | "xdigit" => some (rangesClass [('0', '9'), ('A', 'F'), ('a', 'f')])
  | _ => none

def namedClass? (cs : List Char) : Option (CharClass × List Char) :=
  match cs with
  | '[' :: ':' :: cs =>
    let (negated, cs) := match cs with
      | '^' :: r => (true, r)
      | r => (false, r)
    match Text.splitFirst? ':' cs with
    | some (name, ']' :: rest) =>
      (asciiClass? name).map fun c => (if negated then .complement c else c, rest)
    | _ => none
  | _ => none

def classMember : PatternParser (Char ⊕ CharClass) := do
  let c ← next
  if c = '\\' then
    match (← escape) with
    | .char c => pure (.inl c)
    | .chars c => pure (.inr c)
    | .anchor _ => failure
  else pure (.inl c)

/-- A member, or a range between two characters.  A hyphen before the end of the class or before
another hyphen is no range. -/
def classRange : PatternParser CharClass := do
  let first ← classMember
  match (← get).rest with
  | '-' :: ']' :: _ | '-' :: '-' :: _ => pure (asClass first)
  | ['-'] => failure
  | '-' :: _ =>
    skip 1
    match first, (← classMember) with
    | .inl a, .inl b => if a ≤ b then pure (.range a b) else failure
    | _, _ => failure
  | _ => pure (asClass first)
where
  asClass : Char ⊕ CharClass → CharClass
    | .inl c => .single c
    | .inr c => c

abbrev PendingOperation := Option ((CharClass → CharClass → CharClass) × CharClass)

def foldClass (c : CharClass) : PatternParser CharClass := do
  pure (if (← get).flags.ignoreCase then .anyCase c else c)

def applyPending (pending : PendingOperation) (members : CharClass) : PatternParser CharClass := do
  match pending with
  | none => pure members
  | some (operation, left) => pure (operation (← foldClass left) (← foldClass members))

def leadingHyphens : Nat → PatternParser CharClass
  | 0 => pure .none
  | fuel + 1 => do
    if (← takes ['-']) then pure (.union (.single '-') (← leadingHyphens fuel)) else pure .none

mutual

/-- A class, behind its opening bracket.  A closing bracket at the start is a member. -/
def classBody : Nat → PatternParser CharClass
  | 0 => failure
  | fuel + 1 => do
    let negated ← takes ['^']
    let hyphens ← leadingHyphens fuel
    let start ←
      if hyphens = .none then
        if (← takes [']']) then pure (CharClass.single ']') else pure .none
      else pure hyphens
    let c ← foldClass (← classMembers none start fuel)
    pure (if negated then .complement c else c)

def classMembers (pending : PendingOperation) (members : CharClass) : Nat → PatternParser CharClass
  | 0 => failure
  | fuel + 1 => do
    if (← takes [']']) then applyPending pending members
    else if (← takes ['&', '&']) then
      classMembers (some (.intersection, ← applyPending pending members)) .none fuel
    else if (← takes ['-', '-']) then
      classMembers (some (.difference, ← applyPending pending members)) .none fuel
    else if (← takes ['~', '~']) then
      classMembers (some (.symmetricDifference, ← applyPending pending members)) .none fuel
    else
      match namedClass? (← get).rest with
      | some (c, rest) =>
        modify fun s => { s with rest }
        classMembers pending (.union members c) fuel
      | none =>
        let c ← if (← takes ['[']) then classBody fuel else classRange
        classMembers pending (.union members c) fuel

end

def count : PatternParser Nat := do
  let (digits, rest) := (Text.trimLeft (← get).rest).span Char.isDigit
  match digits with
  | [] => failure
  | _ =>
    modify fun s => { s with rest := Text.trimLeft rest }
    match Text.readDigits 0 digits with
    | some n => if n < Nat.pow 2 32 then pure n else failure
    | none => failure

def bounds : PatternParser (Nat × Option Nat) := do
  let least ← count
  let most ←
    if (← takes [',']) then
      if (← peek) = some '\x7d' then pure none else (some <$> count)
    else pure (some least)
  if (← takes ['\x7d']) then
    if most.any (· < least) then failure else pure (least, most)
  else failure

def greed : PatternParser Bool := do
  let lazyMark ← takes ['?']
  pure (lazyMark == (← get).flags.swapGreed)

def repeatLast (least : Nat) (most : Option Nat) (items : List (Option Pattern)) :
    PatternParser (List (Option Pattern)) := do
  match items with
  | some p :: items => pure (some (.repeated p least most (← greed)) :: items)
  | _ => failure

def isNameChar (first : Bool) (c : Char) : Bool :=
  c = '_' || Text.isWordChar c && (!first || !Text.isDigit c)
    || !first && (c = '.' || c = '[' || c = ']')

def groupName : PatternParser String := do
  let name ← upTo '>'
  let s := String.ofList name
  match name with
  | [] => failure
  | c :: cs =>
    if isNameChar true c && cs.all (isNameChar false)
        && (← get).names.all (fun n => n.1 ≠ s) then
      pure s
    else failure

def newGroup (name : Option String) : PatternParser Nat := do
  let number := (← get).groups + 1
  modify fun s =>
    { s with groups := number, names := s.names ++ (name.map fun n => (n, number)).toList }
  pure number

def applyFlags (flags : PatternFlags) (value : Bool) : List Char → List Char → Option PatternFlags
  | _, [] => some flags
  | seen, c :: cs =>
    if c ∈ seen then none
    else
      match c with
      | 'i' => applyFlags { flags with ignoreCase := value } value (c :: seen) cs
      | 'm' => applyFlags { flags with multiLine := value } value (c :: seen) cs
      | 's' => applyFlags { flags with dotAll := value } value (c :: seen) cs
      | 'U' => applyFlags { flags with swapGreed := value } value (c :: seen) cs
      | 'u' => if value then applyFlags flags value (c :: seen) cs else none
      | '-' => if cs = [] then none else applyFlags flags false (c :: seen) cs
      | _ => none

inductive GroupStart where
  | numbered (number : Nat)
  | plain (flags : PatternFlags)
  | flagsOnly (flags : PatternFlags)

def groupStart : PatternParser GroupStart := do
  if (← takes "?<=".toList) || (← takes "?<!".toList) then failure
  else if (← takes "?P<".toList) || (← takes "?<".toList) then
    pure (.numbered (← newGroup (some (← groupName))))
  else if (← takes ['?']) then
    let letters := (← get).rest.takeWhile fun c => c ≠ ':' && c ≠ ')'
    skip letters.length
    match applyFlags (← get).flags true [] letters with
    | none => failure
    | some flags =>
      if (← next) = ':' then pure (.plain flags)
      else if letters = [] then failure
      else pure (.flagsOnly flags)
  else pure (.numbered (← newGroup none))

def literal (c : Char) : PatternParser Pattern := return .chars (← foldClass (.single c))

def joined : List (Option Pattern) → Pattern
  | [] => .empty
  | none :: items => joined items
  | [some p] => p
  | some p :: items => .sequence p (joined items)

def setFlags (flags : PatternFlags) : PatternParser Unit := modify fun s => { s with flags }

mutual

def alternatives : Nat → PatternParser Pattern
  | 0 => failure
  | fuel + 1 => do
    let p ← branch [] fuel
    if (← takes ['|']) then pure (.either p (← alternatives fuel)) else pure p

/-- The items of one alternative; `items` are those read so far, last first.  Flags are an item that
matches nothing. -/
def branch (items : List (Option Pattern)) : Nat → PatternParser Pattern
  | 0 => failure
  | fuel + 1 => do
    match (← peek) with
    | none | some '|' | some ')' => pure (joined items.reverse)
    | some c =>
      skip 1
      match c with
      | '*' => branch (← repeatLast 0 none items) fuel
      | '+' => branch (← repeatLast 1 none items) fuel
      | '?' => branch (← repeatLast 0 (some 1) items) fuel
      | '\x7b' =>
        let (least, most) ← bounds
        branch (← repeatLast least most items) fuel
      | '(' => branch ((← group fuel) :: items) fuel
      | '[' => branch (some (.chars (← classBody fuel)) :: items) fuel
      | '.' =>
        let all := (← get).flags.dotAll
        branch (some (.chars (if all then .all else .complement (.single '\n'))) :: items) fuel
      | '^' =>
        let lines := (← get).flags.multiLine
        branch (some (.anchor (if lines then .lineStart else .textStart)) :: items) fuel
      | '$' =>
        let lines := (← get).flags.multiLine
        branch (some (.anchor (if lines then .lineEnd else .textEnd)) :: items) fuel
      | '\\' =>
        let item ← match (← escape) with
          | .char c => literal c
          | .chars c => pure (.chars c)
          | .anchor a => pure (.anchor a)
        branch (some item :: items) fuel
      | c => branch (some (← literal c) :: items) fuel

/-- A group, behind its opening parenthesis.  Flags set inside it end with it. -/
def group : Nat → PatternParser (Option Pattern)
  | 0 => failure
  | fuel + 1 => do
    let outer := (← get).flags
    match (← groupStart) with
    | .flagsOnly flags =>
      setFlags flags
      pure none
    | .plain flags =>
      setFlags flags
      let p ← alternatives fuel
      if (← takes [')']) then
        setFlags outer
        pure (some p)
      else failure
    | .numbered number =>
      let p ← alternatives fuel
      if (← takes [')']) then
        setFlags outer
        pure (some (.group number p))
      else failure

end

end PatternParser

structure NamedPattern where
  pattern : Pattern
  names : List (String × Nat)

def Pattern.parse? (s : String) : Option NamedPattern :=
  let cs := s.toList
  match (PatternParser.alternatives (3 * cs.length + 8)).run { rest := cs } with
  | some (pattern, scan) =>
    if scan.rest = [] ∧ pattern.instructionCount ≤ maxInstructions then
      some { pattern, names := scan.names }
    else none
  | none => none

end Manifest
