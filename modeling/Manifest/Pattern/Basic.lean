import Manifest.Text.Blank
import Manifest.Text.CaseFolding
import Manifest.Text.Word

namespace Manifest

inductive CharClass where
  | none
  | range (first last : Char)
  | digit
  | blank
  | word
  | union (a b : CharClass)
  | intersection (a b : CharClass)
  | difference (a b : CharClass)
  | symmetricDifference (a b : CharClass)
  | complement (a : CharClass)
  | anyCase (a : CharClass)
  deriving DecidableEq

namespace CharClass

def contains : CharClass → Char → Bool
  | none, _ => false
  | range first last, c => first ≤ c && c ≤ last
  | digit, c => Text.isDigit c
  | blank, c => Text.isBlank c
  | word, c => Text.isWordChar c
  | union a b, c => a.contains c || b.contains c
  | intersection a b, c => a.contains c && b.contains c
  | difference a b, c => a.contains c && !b.contains c
  | symmetricDifference a b, c => a.contains c != b.contains c
  | complement a, c => !a.contains c
  | anyCase a, c => (Text.sameButForCase c).any a.contains

def all : CharClass := complement none

def single (c : Char) : CharClass := range c c

end CharClass

inductive Anchor where
  | textStart
  | textEnd
  | lineStart
  | lineEnd
  | wordBoundary
  | noWordBoundary
  deriving DecidableEq

namespace Anchor

def holds (before after : Option Char) : Anchor → Bool
  | textStart => before.isNone
  | textEnd => after.isNone
  | lineStart => before.all (· = '\n')
  | lineEnd => after.all (· = '\n')
  | wordBoundary => before.any Text.isWordChar != after.any Text.isWordChar
  | noWordBoundary => before.any Text.isWordChar == after.any Text.isWordChar

end Anchor

/-- A regular expression.  Of several ways to match, the first alternative, more rounds of a greedy
repetition and fewer rounds of a lazy one come first. -/
inductive Pattern where
  | empty
  | chars (c : CharClass)
  | anchor (a : Anchor)
  | group (number : Nat) (p : Pattern)
  | sequence (p q : Pattern)
  | either (p q : Pattern)
  | repeated (p : Pattern) (least : Nat) (most : Option Nat) (greedy : Bool)
  deriving DecidableEq

namespace Pattern

def needsText : Pattern → Bool
  | empty | anchor _ => false
  | chars _ => true
  | group _ p => p.needsText
  | sequence p q => p.needsText || q.needsText
  | either p q => p.needsText && q.needsText
  | repeated p least _ _ => least ≠ 0 && p.needsText

def instructionCount : Pattern → Nat
  | empty => 0
  | chars _ | anchor _ => 1
  | group _ p => p.instructionCount + 2
  | sequence p q => p.instructionCount + q.instructionCount
  | either p q => p.instructionCount + q.instructionCount + 1
  | repeated p least none _ => max least 1 * p.instructionCount + 1
  | repeated p least (some most) _ =>
    least * p.instructionCount + (most - least) * (p.instructionCount + 1)

def maxInstructions : Nat := 327680

end Pattern

end Manifest
