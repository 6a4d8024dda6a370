import Manifest.Decimal.Reader
import Manifest.Tree.Basic

/-! A number without point and exponent that fits into 64 bits with a sign is an integer, except
`-0`.  Every other number is a decimal.  Of its digits those count that fit into 64 bits, and the
result is one product or quotient with a power of ten, each rounded, so that long numbers need not
be read to the nearest decimal. -/

namespace Manifest.Json

def takeDigits (value : Nat) : List Char → Nat × Nat
  | [] => (value, 0)
  | c :: cs =>
    let next := value * 10 + (Text.digit? c).getD 0
    if next < Nat.pow 2 64 then
      let (v, n) := takeDigits next cs
      (v, n + 1)
    else (value, 0)

def scaleDown : Nat → Decimal → Int → Decimal × Int
  | 0, d, e => (d, e)
  | fuel + 1, d, e =>
    if e < -308 ∧ !d.isZero then
      scaleDown fuel (d.div (Decimal.ofDigits false 1 308)) (e + 308)
    else (d, e)

/-- `value * 10 ^ exponent` as a magnitude; nothing when it leaves the range.  Two scalings down
bring any start to zero, so four are enough. -/
def scale? (value : Nat) (exponent : Int) : Option Decimal :=
  let start := Decimal.ofNat value
  let (d, e) := scaleDown 4 start exponent
  if d.isZero then some d
  else if 308 < e then none
  else if 0 ≤ e then
    let product := d.mul (Decimal.ofDigits false 1 e)
    if product.isInfinite then none else some product
  else some (d.div (Decimal.ofDigits false 1 (-e)))

def signed (negative : Bool) (d : Decimal) : Tree :=
  .decimal (Decimal.ofMagnitude negative d.magnitude)

def number? (negative : Bool) (whole part : List Char) (exponent : Option Int) : Option Tree :=
  let (value, used) := takeDigits 0 whole
  if part = [] ∧ exponent = none ∧ used = whole.length then
    if negative then
      if value = 0 then some (signed true (Decimal.zero false))
      else if value ≤ Nat.pow 2 63 then some (.integer (Int64.ofInt (-value)))
      else some (signed true (Decimal.ofNat value))
    else if value < Nat.pow 2 63 then some (.integer (Int64.ofInt value))
    else some (signed false (Decimal.ofNat value))
  else
    let (value, places) := takeDigits value part
    let scale := (whole.length : Int) - used - places + exponent.getD 0
    (scale? value scale).map (signed negative)

def readExponent? : List Char → Option (Option Int × List Char)
  | [] => some (none, [])
  | c :: cs =>
    if c = 'e' ∨ c = 'E' then
      let (negative, body) := match cs with
        | '-' :: r => (true, r)
        | '+' :: r => (false, r)
        | r => (false, r)
      let (ds, rest) := Decimal.spanDigits body
      if ds = [] then none
      else
        let n : Int := Decimal.digitsValue ds
        some (some (if negative then -n else n), rest)
    else some (none, c :: cs)

def readNumber? (cs : List Char) : Option (Tree × List Char) := do
  let (negative, body) := match cs with
    | '-' :: r => (true, r)
    | r => (false, r)
  let (whole, rest) := Decimal.spanDigits body
  if whole = [] ∨ (whole.head? = some '0' ∧ whole.length ≠ 1) then none
  else
    let (part, rest) ← match rest with
      | '.' :: r =>
        let (ds, r) := Decimal.spanDigits r
        if ds = [] then none else some (ds, r)
      | r => some ([], r)
    let (exponent, rest) ← readExponent? rest
    let n ← number? negative whole part exponent
    some (n, rest)

end Manifest.Json
