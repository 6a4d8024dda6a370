import Manifest.Decimal.Shortest
import Manifest.Text.Split

namespace Manifest.Decimal

structure Style where
  tie : Tie
  /-- Exponents of the first digit that are written without an exponent; all of them if absent. -/
  positional : Option (Int × Int)
  pointZero : Bool
  plus : List Char
  infinity : List Char
  nan : List Char

def Style.writePositional (style : Style) (digits : List Char) (exponent : Int) : List Char :=
  let whole := if style.pointZero then ".0".toList else []
  if 0 ≤ exponent then digits ++ List.replicate exponent.toNat '0' ++ whole
  else
    let places := (-exponent).toNat
    if places < digits.length then
      digits.take (digits.length - places) ++ '.' :: digits.drop (digits.length - places)
    else '0' :: '.' :: (List.replicate (places - digits.length) '0' ++ digits)

def Style.writeScientific (style : Style) (digits : List Char) (leading : Int) : List Char :=
  let mantissa := match digits with
    | [] => []
    | [d] => [d]
    | d :: ds => d :: '.' :: ds
  mantissa ++ 'e' :: ((if leading < 0 then [] else style.plus) ++ Text.writeInt leading)

def write (style : Style) (d : Decimal) : List Char :=
  if d.isNaN then style.nan
  else
    let sign := if d.isNegative then ['-'] else []
    if d.isInfinite then sign ++ style.infinity
    else
      let s := d.shortest style.tie
      let digits := Text.writeNat s.digits
      let leading : Int := s.exponent + digits.length - 1
      let plain := match style.positional with
        | none => true
        | some (low, high) => low ≤ leading && leading ≤ high
      sign ++ if plain then style.writePositional digits s.exponent
        else style.writeScientific digits leading

end Manifest.Decimal
