import Manifest.Pattern.Parser
import Manifest.Pattern.Program

/-! Matches are taken from left to right.  An empty match right behind the match before it does not
count.  In the replacement a dollar sign refers to a group, by number or by name, and two of them
are one dollar sign. -/

namespace Manifest

namespace Pattern

def slice (text : List Char) (first last : Nat) : List Char := (text.drop first).take (last - first)

def groupText (text : List Char) (slots : Slots) (number : Nat) : List Char :=
  match slots[2 * number]?.join, slots[2 * number + 1]?.join with
  | some first, some last => slice text first last
  | _, _ => []

def matchStart (slots : Slots) : Nat := (slots[0]?.join).getD 0

def matchEnd (slots : Slots) : Nat := (slots[1]?.join).getD 0

def Place.advance : Nat → Place → Place
  | 0, p => p
  | n + 1, p =>
    match p.step? with
    | none => p
    | some p => advance n p

/-- All matches from a place on; `last` is where the match before it ends. -/
def matchesFrom (p : Pattern) : Nat → Option Nat → Place → List Slots
  | 0, _, _ => []
  | fuel + 1, last, place =>
    match p.find? place with
    | none => []
    | some slots =>
      let first := matchStart slots
      let stop := matchEnd slots
      if first = stop ∧ last = some stop then
        match place.step? with
        | none => []
        | some place => matchesFrom p fuel last place
      else slots :: matchesFrom p fuel (some stop) (place.advance (stop - place.index))

def allMatches (p : Pattern) (text : List Char) : List Slots :=
  matchesFrom p (2 * text.length + 3) none (.start text)

def isReferenceChar (c : Char) : Bool := c.isAlphanum || c = '_'

/-- What follows a dollar sign that refers to something: the name, and how many characters it takes.
A second dollar sign is no name. -/
def reference? : List Char → Option (List Char × Nat)
  | '\x7b' :: cs => (Text.splitFirst? '\x7d' cs).map fun p => (p.1, p.1.length + 2)
  | cs =>
    let name := cs.takeWhile isReferenceChar
    if name = [] then none else some (name, name.length)

/-- Expands references by `value`.  The next `skip` characters belong to one. -/
def expandFrom (value : List Char → List Char) : Nat → List Char → List Char
  | _, [] => []
  | skip + 1, _ :: cs => expandFrom value skip cs
  | 0, c :: cs =>
    if c ≠ '$' then c :: expandFrom value 0 cs
    else if cs.head? = some '$' then '$' :: expandFrom value 1 cs
    else
      match reference? cs with
      | some (name, n) => value name ++ expandFrom value n cs
      | none => '$' :: expandFrom value 0 cs

end Pattern

namespace NamedPattern

def valueOf (p : NamedPattern) (text : List Char) (slots : Pattern.Slots) (name : List Char) :
    List Char :=
  match Text.readUInt64? name with
  | some number => Pattern.groupText text slots number
  | none =>
    match p.names.find? fun n => n.1 = String.ofList name with
    | some n => Pattern.groupText text slots n.2
    | none => []

def assemble (expand : Pattern.Slots → List Char) (text : List Char) :
    Nat → List Pattern.Slots → List Char
  | start, [] => text.drop start
  | start, m :: ms =>
    Pattern.slice text start (Pattern.matchStart m) ++ expand m
      ++ assemble expand text (Pattern.matchEnd m) ms

def replaceAll (p : NamedPattern) (replacement : String) (s : String) : String :=
  let text := s.toList
  let expand slots := Pattern.expandFrom (p.valueOf text slots) 0 replacement.toList
  String.ofList (assemble expand text 0 (p.pattern.allMatches text))

end NamedPattern

end Manifest
