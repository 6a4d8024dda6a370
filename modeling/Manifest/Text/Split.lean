namespace Manifest.Text

def splitFirst? (sep : Char) : List Char → Option (List Char × List Char)
  | [] => none
  | c :: cs =>
    if c = sep then some ([], cs)
    else (splitFirst? sep cs).map fun p => (c :: p.1, p.2)

def splitLast? (sep : Char) (cs : List Char) : Option (List Char × List Char) :=
  (splitFirst? sep cs.reverse).map fun p => (p.2.reverse, p.1.reverse)

/-- Cuts at every `sep`.  There is always one piece more than there are separators. -/
def splitAll (sep : Char) : List Char → List (List Char)
  | [] => [[]]
  | c :: cs =>
    if c = sep then [] :: splitAll sep cs
    else match splitAll sep cs with
      | [] => [[c]]
      | piece :: pieces => (c :: piece) :: pieces

def unwrap? (quote : Char) : List Char → Option (List Char)
  | [] => none
  | c :: cs => if c = quote ∧ cs.getLast? = some quote then some cs.dropLast else none

def unquote? (cs : List Char) : Option (List Char) :=
  (unwrap? '"' cs).or (unwrap? '\'' cs)

def unquote (cs : List Char) : List Char := (unquote? cs).getD cs

def digit? (c : Char) : Option Nat :=
  if '0' ≤ c ∧ c ≤ '9' then some (c.toNat - '0'.toNat) else none

def readDigits (value : Nat) : List Char → Option Nat
  | [] => some value
  | c :: cs => do
    let d ← digit? c
    readDigits (value * 10 + d) cs

def readNat? (cs : List Char) : Option Nat :=
  match (match cs with | '+' :: r => r | _ => cs) with
  | [] => none
  | c :: r => readDigits 0 (c :: r)

def readUInt64? (cs : List Char) : Option Nat := do
  let n ← readNat? cs
  if n < Nat.pow 2 64 then some n else none

def readInt64? (cs : List Char) : Option Int64 := do
  let n : Int ← match cs with
    | '-' :: '+' :: _ => none
    | '-' :: r => (readNat? r).map fun n => -(n : Int)
    | _ => (readNat? cs).map Int.ofNat
  if -(Nat.pow 2 63) ≤ n ∧ n < Nat.pow 2 63 then some (Int64.ofInt n) else none

def hexDigit? (c : Char) : Option Nat :=
  if '0' ≤ c ∧ c ≤ '9' then some (c.toNat - '0'.toNat)
  else if 'a' ≤ c ∧ c ≤ 'f' then some (c.toNat - 'a'.toNat + 10)
  else if 'A' ≤ c ∧ c ≤ 'F' then some (c.toNat - 'A'.toNat + 10)
  else none

def hexNumber? (cs : List Char) : Option Nat :=
  cs.foldlM (fun n c => (hexDigit? c).map (n * 16 + ·)) 0

def writeNat (n : Nat) : List Char := Nat.toDigits 10 n

def writeInt (n : Int) : List Char :=
  if n < 0 then '-' :: writeNat n.natAbs else writeNat n.natAbs

def joinWith (separator : List Char) : List (List Char) → List Char
  | [] => []
  | [piece] => piece
  | piece :: pieces => piece ++ separator ++ joinWith separator pieces

end Manifest.Text
