import Manifest.Decimal.Reader
import Manifest.Yaml.ScalarText

/-! A plain scalar is null, a boolean, a number or text.  Digits with a superfluous zero in front
are text.  A tag decides for one of these, whatever the style. -/

namespace Manifest.Yaml

inductive Meaning where
  | null
  | boolean (value : Bool)
  /-- At least -2 ^ 127 and below 2 ^ 128. -/
  | integer (value : Int)
  | decimal (value : Decimal)
  | text
  deriving DecidableEq

def isNullWord (s : String) : Bool := s = "null" || s = "Null" || s = "NULL" || s = "~"

def booleanWord? (s : String) : Option Bool :=
  if s = "true" ∨ s = "True" ∨ s = "TRUE" then some true
  else if s = "false" ∨ s = "False" ∨ s = "FALSE" then some false
  else none

def hasSpareZero (cs : List Char) : Bool :=
  let digits := match cs with
    | '-' :: r | '+' :: r => r
    | r => r
  match digits with
  | '0' :: d :: r => (d :: r).all fun c => (Text.digit? c).isSome
  | _ => false

def digitIn? (base : Nat) (c : Char) : Option Nat := do
  let d ← Text.hexDigit? c
  if d < base then some d else none

def digitsIn? (base : Nat) (cs : List Char) : Option Nat :=
  if cs = [] then none
  else cs.foldlM (fun n c => (digitIn? base c).map (n * base + ·)) 0

def magnitude? : List Char → Option Nat
  | '0' :: 'x' :: r => digitsIn? 16 r
  | '0' :: 'o' :: r => digitsIn? 8 r
  | '0' :: 'b' :: r => digitsIn? 2 r
  | cs => digitsIn? 10 cs

def integer? (cs : List Char) : Option Int :=
  if hasSpareZero cs then none
  else match cs with
    | '-' :: r =>
      match magnitude? r with
      | some n => if n ≤ Nat.pow 2 127 then some (-(n : Int)) else none
      | none => none
    | _ =>
      match magnitude? (match cs with | '+' :: r => r | r => r) with
      | some n => if n < Nat.pow 2 128 then some (n : Int) else none
      | none => none

def decimalName? (s : String) : Option Decimal :=
  if s ∈ [".inf", ".Inf", ".INF", "+.inf", "+.Inf", "+.INF"] then some (.infinity false)
  else if s ∈ ["-.inf", "-.Inf", "-.INF"] then some (.infinity true)
  else if s ∈ [".nan", ".NaN", ".NAN"] then some .nan
  else none

def decimal? (cs : List Char) : Option Decimal :=
  match decimalName? (String.ofList cs) with
  | some d => some d
  | none =>
    match cs with
    | '+' :: '+' :: _ | '+' :: '-' :: _ => none
    | _ => (Decimal.read? cs).filter Decimal.isFinite

def plainMeaning (s : String) : Meaning :=
  let cs := s.toList
  if s = "" ∨ isNullWord s then .null
  else if let some b := booleanWord? s then .boolean b
  else if let some n := integer? cs then .integer n
  else if hasSpareZero cs then .text
  else if let some d := decimal? cs then .decimal d
  else .text

def standardTag : String := "tag:yaml.org,2002:"

/-- The meaning of a scalar.  Tags of the format are obeyed or refused, other tags make text, and
tags of an application are refused. -/
def meaning? (tag : Option String) (style : ScalarStyle) (s : String) : Option Meaning :=
  match tag with
  | none => some (if style = .plain then plainMeaning s else .text)
  | some t =>
    if t = standardTag ++ "bool" then (booleanWord? s).map .boolean
    else if t = standardTag ++ "int" then (integer? s.toList).map .integer
    else if t = standardTag ++ "float" then (decimal? s.toList).map .decimal
    else if t = standardTag ++ "null" then if isNullWord s then some .null else none
    else if t.toList.head? = some '!' then none
    else some .text

end Manifest.Yaml
