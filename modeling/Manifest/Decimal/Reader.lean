import Manifest.Decimal.Basic
import Manifest.Text.Split

namespace Manifest.Decimal

def spanDigits (cs : List Char) : List Char × List Char :=
  cs.span fun c => (Text.digit? c).isSome

def digitsValue (ds : List Char) : Nat := (Text.readDigits 0 ds).getD 0

def readExponent? : List Char → Option Int
  | [] => some 0
  | e :: cs =>
    if e = 'e' ∨ e = 'E' then
      match cs with
      | '-' :: ds => if ds = [] then none else (Text.readDigits 0 ds).map fun n => -(n : Int)
      | '+' :: ds => if ds = [] then none else (Text.readDigits 0 ds).map Int.ofNat
      | ds => if ds = [] then none else (Text.readDigits 0 ds).map Int.ofNat
    else none

def readMagnitude? (negative : Bool) (cs : List Char) : Option Decimal := do
  let (whole, rest) := spanDigits cs
  let (part, rest) := match rest with
    | '.' :: r => spanDigits r
    | r => ([], r)
  if whole = [] ∧ part = [] then none
  else
    let exponent ← readExponent? rest
    some (ofDigits negative (digitsValue (whole ++ part)) (exponent - part.length))

def readName? (negative : Bool) (cs : List Char) : Option Decimal :=
  let name := String.ofList (cs.map Char.toLower)
  if name = "inf" ∨ name = "infinity" then some (infinity negative)
  else if name = "nan" then some nan
  else none

def read? (cs : List Char) : Option Decimal :=
  let (negative, body) := match cs with
    | '-' :: r => (true, r)
    | '+' :: r => (false, r)
    | r => (false, r)
  (readMagnitude? negative body).or (readName? negative body)

end Manifest.Decimal
