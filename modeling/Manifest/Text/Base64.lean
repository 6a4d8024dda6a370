namespace Manifest.Text.Base64

def letter (n : Nat) : Char :=
  if n < 26 then Char.ofNat ('A'.toNat + n)
  else if n < 52 then Char.ofNat ('a'.toNat + (n - 26))
  else if n < 62 then Char.ofNat ('0'.toNat + (n - 52))
  else if n = 62 then '+'
  else '/'

def value? (c : Char) : Option Nat :=
  if 'A' ≤ c ∧ c ≤ 'Z' then some (c.toNat - 'A'.toNat)
  else if 'a' ≤ c ∧ c ≤ 'z' then some (c.toNat - 'a'.toNat + 26)
  else if '0' ≤ c ∧ c ≤ '9' then some (c.toNat - '0'.toNat + 52)
  else if c = '+' then some 62
  else if c = '/' then some 63
  else none

def encode : List UInt8 → List Char
  | [] => []
  | [a] =>
    let n := a.toNat * 16
    [letter (n / 64), letter (n % 64), '=', '=']
  | [a, b] =>
    let n := (a.toNat * 256 + b.toNat) * 4
    [letter (n / 4096), letter (n / 64 % 64), letter (n % 64), '=']
  | a :: b :: c :: bytes =>
    let n := (a.toNat * 256 + b.toNat) * 256 + c.toNat
    letter (n / 262144) :: letter (n / 4096 % 64) :: letter (n / 64 % 64) :: letter (n % 64)
      :: encode bytes

/-- Reads groups of four digits.  Padding ends the text, and the bits it cuts off are zero. -/
def decode? : List Char → Option (List UInt8)
  | [] => some []
  | p :: q :: r :: s :: rest => do
    let a ← value? p
    let b ← value? q
    if r = '=' then
      if s = '=' ∧ rest = [] ∧ b % 16 = 0 then
        some [UInt8.ofNat ((a * 64 + b) / 16)]
      else none
    else
      let c ← value? r
      if s = '=' then
        let n := (a * 64 + b) * 64 + c
        if rest = [] ∧ c % 4 = 0 then
          some [UInt8.ofNat (n / 1024), UInt8.ofNat (n / 4 % 256)]
        else none
      else
        let d ← value? s
        let n := ((a * 64 + b) * 64 + c) * 64 + d
        let bytes ← decode? rest
        some (UInt8.ofNat (n / 65536) :: UInt8.ofNat (n / 256 % 256) :: UInt8.ofNat (n % 256)
          :: bytes)
  | _ => none

end Manifest.Text.Base64
