import Manifest.Pattern.Basic

/-! A pattern becomes a program of instructions, each of which names its successors.  The first
match is found by trying the preferred successor first.  An instruction that was tried at a place of
the text is never tried there again, since it would fail again: this bounds the work, and it ends
repetitions that match nothing. -/

namespace Manifest.Pattern

inductive Instruction where
  | chars (c : CharClass) (next : Nat)
  | anchor (a : Anchor) (next : Nat)
  | save (slot next : Nat)
  | split (first second : Nat)
  | accept
  deriving DecidableEq

abbrev Program := Array Instruction

namespace Program

def add (i : Instruction) (code : Program) : Program × Nat := (code.push i, code.size)

def choice (greedy : Bool) (inside outside : Nat) : Instruction :=
  if greedy then .split inside outside else .split outside inside

/-- A loop: the body leads to a choice between the body and the way out.  Gives the entries of the
body and of the choice. -/
def addLoop (body : Nat → Program → Program × Nat) (greedy : Bool) (next : Nat) (code : Program) :
    Program × Nat × Nat :=
  let (code, again) := code.add .accept
  let (code, entry) := body again code
  (code.setIfInBounds again (choice greedy entry next), entry, again)

def addCopies (body : Nat → Program → Program × Nat) : Nat → Nat → Program → Program × Nat
  | 0, next, code => (code, next)
  | count + 1, next, code =>
    let (code, entry) := addCopies body count next code
    body entry code

def addOptional (body : Nat → Program → Program × Nat) (greedy : Bool) (next : Nat) :
    Nat → Program → Program × Nat
  | 0, code => (code, next)
  | count + 1, code =>
    let (code, entry) := addOptional body greedy next count code
    let (code, inside) := body entry code
    code.add (choice greedy inside next)

/-- Adds the instructions of a pattern before the address `next`, and gives their entry. -/
def compile : Pattern → Nat → Program → Program × Nat
  | .empty, next, code => (code, next)
  | .chars c, next, code => code.add (.chars c next)
  | .anchor a, next, code => code.add (.anchor a next)
  | .group number p, next, code =>
    let (code, last) := code.add (.save (2 * number + 1) next)
    let (code, entry) := compile p last code
    code.add (.save (2 * number) entry)
  | .sequence p q, next, code =>
    let (code, middle) := compile q next code
    compile p middle code
  | .either p q, next, code =>
    let (code, second) := compile q next code
    let (code, first) := compile p next code
    code.add (.split first second)
  | .repeated p least none greedy, next, code =>
    let (code, entry, again) := code.addLoop (compile p) greedy next
    match least with
    | 0 => if p.needsText then (code, again) else code.add (choice greedy entry next)
    | n + 1 => code.addCopies (compile p) n entry
  | .repeated p least (some most) greedy, next, code =>
    let (code, entry) := code.addOptional (compile p) greedy next (most - least)
    code.addCopies (compile p) least entry

def ofPattern (p : Pattern) : Program × Nat := compile (.group 0 p) 0 #[.accept]

end Program

structure Place where
  index : Nat
  before : Option Char
  rest : List Char

namespace Place

def start (text : List Char) : Place := ⟨0, none, text⟩

def step? (p : Place) : Option Place :=
  match p.rest with
  | [] => none
  | c :: cs => some ⟨p.index + 1, some c, cs⟩

end Place

/-- The places of group starts at even and of group ends at odd slots. -/
abbrev Slots := List (Option Nat)

structure Thread where
  address : Nat
  place : Place
  slots : Slots

abbrev Tried := Array Bool

def Thread.successors (t : Thread) : Instruction → List Thread
  | .chars c next =>
    match t.place.rest, t.place.step? with
    | x :: _, some place => if c.contains x then [{ t with address := next, place }] else []
    | _, _ => []
  | .anchor a next =>
    if a.holds t.place.before t.place.rest.head? then [{ t with address := next }] else []
  | .save slot next =>
    [{ t with address := next, slots := t.slots.set slot (some t.place.index) }]
  | .split first second => [{ t with address := first }, { t with address := second }]
  | .accept => []

/-- Tries threads in order, each with all that follows from it before the next one. -/
def explore (code : Program) : Nat → List Thread → Tried → Option Slots × Tried
  | 0, _, tried => (none, tried)
  | _, [], tried => (none, tried)
  | fuel + 1, t :: threads, tried =>
    let flag := t.place.index * code.size + t.address
    if tried.getD flag false then explore code fuel threads tried
    else
      match code[t.address]? with
      | none => explore code fuel threads tried
      | some .accept => (some t.slots, tried)
      | some i => explore code fuel (t.successors i ++ threads) (tried.setIfInBounds flag true)

def search (code : Program) (entry fuel : Nat) (slots : Slots) :
    Nat → Place → Tried → Option Slots
  | 0, _, _ => none
  | n + 1, place, tried =>
    match explore code fuel [⟨entry, place, slots⟩] tried with
    | (some found, _) => some found
    | (none, tried) =>
      match place.step? with
      | none => none
      | some place => search code entry fuel slots n place tried

def lastGroup : Pattern → Nat
  | .empty | .chars _ | .anchor _ => 0
  | .group number p => max number p.lastGroup
  | .sequence p q | .either p q => max p.lastGroup q.lastGroup
  | .repeated p _ _ _ => p.lastGroup

def find? (p : Pattern) (place : Place) : Option Slots :=
  let (code, entry) := Program.ofPattern p
  let size := code.size * (place.index + place.rest.length + 1)
  search code entry (2 * size + 2) (List.replicate (2 * p.lastGroup + 2) none)
    (place.rest.length + 1) place (Array.replicate size false)

end Manifest.Pattern
