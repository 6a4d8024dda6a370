/-! A decimal is a binary floating point number of 64 bits, kept as its bits, so that two decimals
are equal exactly when they have the same bits.  Its value is exact: `Decimal.fraction` is a
quotient of natural numbers, and `Decimal.ofRatio` is the number nearest to any quotient. -/

namespace Manifest

structure Decimal where
  bits : UInt64
  deriving DecidableEq

namespace Decimal

def magnitude (d : Decimal) : Nat := d.bits.toNat % Nat.pow 2 63

def infiniteMagnitude : Nat := 2047 * Nat.pow 2 52

def isNegative (d : Decimal) : Bool := Nat.pow 2 63 ≤ d.bits.toNat

def isZero (d : Decimal) : Bool := d.magnitude = 0

def isInfinite (d : Decimal) : Bool := d.magnitude = infiniteMagnitude

def isNaN (d : Decimal) : Bool := infiniteMagnitude < d.magnitude

def isFinite (d : Decimal) : Bool := d.magnitude < infiniteMagnitude

def ofMagnitude (negative : Bool) (magnitude : Nat) : Decimal :=
  ⟨UInt64.ofNat (magnitude + if negative then Nat.pow 2 63 else 0)⟩

def zero (negative : Bool) : Decimal := ofMagnitude negative 0

def infinity (negative : Bool) : Decimal := ofMagnitude negative infiniteMagnitude

def nan : Decimal := ofMagnitude false (infiniteMagnitude + Nat.pow 2 51)

def sameNumber (d e : Decimal) : Bool :=
  !d.isNaN && !e.isNaN && (d == e || d.isZero && e.isZero)

/-- The integer `m` and the exponent `q` of a finite magnitude `m * 2 ^ q`. -/
def significand (d : Decimal) : Nat × Int :=
  let field := d.magnitude / Nat.pow 2 52
  let part := d.magnitude % Nat.pow 2 52
  if field = 0 then (part, -1074) else (part + Nat.pow 2 52, Int.ofNat field - 1075)

def fraction (d : Decimal) : Nat × Nat :=
  let (m, q) := d.significand
  if 0 ≤ q then (m * Nat.pow 2 q.toNat, 1) else (m, Nat.pow 2 (-q).toNat)

def roundAt (num den : Nat) (q : Int) : Nat :=
  let num := if 0 ≤ q then num else num * Nat.pow 2 (-q).toNat
  let den := if 0 ≤ q then den * Nat.pow 2 q.toNat else den
  let n := num / den
  let r := num % den
  if 2 * r < den then n
  else if den < 2 * r then n + 1
  else n + n % 2

/-- The magnitude nearest to `num / den`.  The significand has 53 bits unless the value is too small
for that, and a carry out of it moves into the exponent by itself. -/
def nearestMagnitude (num den : Nat) : Nat :=
  if num = 0 ∨ den = 0 then 0
  else
    let low : Int := (num.log2 : Int) - den.log2 - 53
    let q := max low (-1074)
    let whole := if 0 ≤ q then num / (den * Nat.pow 2 q.toNat) else num * Nat.pow 2 (-q).toNat / den
    let q := if Nat.pow 2 53 ≤ whole then q + 1 else q
    min ((q + 1074).toNat * Nat.pow 2 52 + roundAt num den q) infiniteMagnitude

def ofRatio (negative : Bool) (num den : Nat) : Decimal :=
  ofMagnitude negative (nearestMagnitude num den)

def ofNat (n : Nat) : Decimal := ofRatio false n 1

/-- The decimal nearest to `digits * 10 ^ exponent`.  Exponents far outside the range are answered
without computing the power. -/
def ofDigits (negative : Bool) (digits : Nat) (exponent : Int) : Decimal :=
  let size : Int := (Nat.toDigits 10 digits).length + exponent
  if digits = 0 ∨ size < -400 then zero negative
  else if 400 < size then infinity negative
  else if 0 ≤ exponent then ofRatio negative (digits * Nat.pow 10 exponent.toNat) 1
  else ofRatio negative digits (Nat.pow 10 (-exponent).toNat)

def mul (d e : Decimal) : Decimal :=
  ofRatio false (d.fraction.1 * e.fraction.1) (d.fraction.2 * e.fraction.2)

def div (d e : Decimal) : Decimal :=
  ofRatio false (d.fraction.1 * e.fraction.2) (d.fraction.2 * e.fraction.1)

end Decimal

end Manifest
