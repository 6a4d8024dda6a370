import Manifest.Decimal.Basic

/-! Among the decimal numbers that read back to a given binary one, the shortest have the coarsest
grid `10 ^ p` with a point in the rounding interval.  If a grid has such a point, one of the value's
two neighbours on that grid is one. -/

namespace Manifest.Decimal

structure Digits where
  digits : Nat
  exponent : Int

/-- Where a value goes that lies exactly between two equally short texts. -/
inductive Tie where
  | up
  | even

structure Interval where
  low : Nat
  value : Nat
  high : Nat
  denominator : Nat
  closed : Bool

/-- The numbers that round to a finite decimal that is not zero.  The gap below a power of two is
half as wide as the gap above it. -/
def interval (d : Decimal) : Interval :=
  let (m, q) := d.significand
  let below := if m = Nat.pow 2 52 ∧ -1074 < q then 4 * m - 1 else 4 * m - 2
  let scale := if 2 ≤ q then Nat.pow 2 (q - 2).toNat else 1
  { low := below * scale
    value := 4 * m * scale
    high := (4 * m + 2) * scale
    denominator := if 2 ≤ q then 1 else Nat.pow 2 (2 - q).toNat
    closed := m % 2 = 0 }

def Interval.holds (i : Interval) (factor unit n : Nat) : Bool :=
  if i.closed then i.low * factor ≤ n * unit && n * unit ≤ i.high * factor
  else i.low * factor < n * unit && n * unit < i.high * factor

def Interval.point? (i : Interval) (tie : Tie) (p : Int) : Option Nat :=
  let factor := if p < 0 then Nat.pow 10 (-p).toNat else 1
  let unit := i.denominator * if p < 0 then 1 else Nat.pow 10 p.toNat
  let n := i.value * factor / unit
  match i.holds factor unit n, i.holds factor unit (n + 1) with
  | false, false => none
  | true, false => some n
  | false, true => some (n + 1)
  | true, true =>
    let below := i.value * factor - n * unit
    let above := (n + 1) * unit - i.value * factor
    if below < above then some n
    else if above < below then some (n + 1)
    else match tie with
      | .up => some (n + 1)
      | .even => some (n + n % 2)

def Interval.search (i : Interval) (tie : Tie) : Nat → Int → Digits
  | 0, p => ⟨i.value / i.denominator, p⟩
  | fuel + 1, p =>
    match i.point? tie p with
    | some n => ⟨n, p⟩
    | none => i.search tie fuel (p - 1)

/-- The fewest digits that read back to a finite decimal.  The search starts above every grid that
can have a point: `log2` bounds the decimal exponent, and 17 digits always suffice. -/
def shortest (tie : Tie) (d : Decimal) : Digits :=
  if d.isZero then ⟨0, 0⟩
  else
    let i := d.interval
    let size : Int := (i.value.log2 : Int) - i.denominator.log2 + 1
    i.search tie 64 (max (size * 30 / 100) (size * 31 / 100) + 2)

end Manifest.Decimal
