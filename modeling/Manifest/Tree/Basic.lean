import Manifest.Decimal.Style
import Manifest.Tree.Entries

/-! A tree is made of scalars, lists and maps.  Scalars keep the type they were read with, and maps
keep the order of their keys.  `Tree.text?` is the text form of a scalar, in which decimals never
have an exponent. -/

namespace Manifest

inductive Tree where
  | null
  | boolean (value : Bool)
  | integer (value : Int64)
  | decimal (value : Decimal)
  | text (value : String)
  | list (items : List Tree)
  | map (entries : List (String × Tree))

namespace Tree

instance : Inhabited Tree := ⟨.null⟩

mutual

def decideEq : (s t : Tree) → Decidable (s = t)
  | .null, t => match t with
    | .null => isTrue rfl
    | .boolean _ | .integer _ | .decimal _ | .text _ | .list _ | .map _ => isFalse nofun
  | .boolean a, t => match t with
    | .boolean b => decidable_of_iff (a = b) (by simp)
    | .null | .integer _ | .decimal _ | .text _ | .list _ | .map _ => isFalse nofun
  | .integer a, t => match t with
    | .integer b => decidable_of_iff (a = b) (by simp)
    | .null | .boolean _ | .decimal _ | .text _ | .list _ | .map _ => isFalse nofun
  | .decimal a, t => match t with
    | .decimal b => decidable_of_iff (a = b) (by simp)
    | .null | .boolean _ | .integer _ | .text _ | .list _ | .map _ => isFalse nofun
  | .text a, t => match t with
    | .text b => decidable_of_iff (a = b) (by simp)
    | .null | .boolean _ | .integer _ | .decimal _ | .list _ | .map _ => isFalse nofun
  | .list a, t => match t with
    | .list b => match decideEqItems a b with
      | isTrue h => isTrue (by rw [h])
      | isFalse h => isFalse (by simpa using h)
    | .null | .boolean _ | .integer _ | .decimal _ | .text _ | .map _ => isFalse nofun
  | .map a, t => match t with
    | .map b => match decideEqEntries a b with
      | isTrue h => isTrue (by rw [h])
      | isFalse h => isFalse (by simpa using h)
    | .null | .boolean _ | .integer _ | .decimal _ | .text _ | .list _ => isFalse nofun

def decideEqItems : (s t : List Tree) → Decidable (s = t)
  | [], [] => isTrue rfl
  | [], _ :: _ => isFalse nofun
  | _ :: _, [] => isFalse nofun
  | a :: s, b :: t => match decideEq a b, decideEqItems s t with
    | isTrue h, isTrue h' => isTrue (by rw [h, h'])
    | isFalse h, _ => isFalse (by simp [h])
    | _, isFalse h => isFalse (by simp [h])

def decideEqEntries : (s t : List (String × Tree)) → Decidable (s = t)
  | [], [] => isTrue rfl
  | [], _ :: _ => isFalse nofun
  | _ :: _, [] => isFalse nofun
  | (k, a) :: s, (l, b) :: t => match decEq k l, decideEq a b, decideEqEntries s t with
    | isTrue h, isTrue h', isTrue h'' => isTrue (by rw [h, h', h''])
    | isFalse h, _, _ => isFalse (by simp [h])
    | _, isFalse h, _ => isFalse (by simp [h])
    | _, _, isFalse h => isFalse (by simp [h])

end

instance : DecidableEq Tree := decideEq

def shape : Tree → String
  | .null => "null"
  | .boolean _ => "boolean"
  | .integer _ => "integer"
  | .decimal _ => "decimal"
  | .text _ => "string"
  | .list _ => "array"
  | .map _ => "object"

def isNull : Tree → Bool
  | .null => true
  | _ => false

def isScalar : Tree → Bool
  | .list _ | .map _ => false
  | _ => true

def string? : Tree → Option String
  | .text s => some s
  | _ => none

def entries? : Tree → Option (Entries Tree)
  | .map es => some es
  | _ => none

def field? (key : String) (t : Tree) : Option Tree := t.entries?.bind (Entries.find? key)

def fieldText (key : String) (t : Tree) : String := ((t.field? key).bind string?).getD ""

def textStyle : Decimal.Style where
  tie := .up
  positional := none
  pointZero := false
  plus := []
  infinity := "inf".toList
  nan := "NaN".toList

def text? : Tree → Option String
  | .boolean true => some "true"
  | .boolean false => some "false"
  | .integer n => some (String.ofList (Text.writeInt n.toInt))
  | .decimal d => some (String.ofList (d.write textStyle))
  | .text s => some s
  | .null | .list _ | .map _ => none

mutual

def WellFormed : Tree → Prop
  | .list items => WellFormedItems items
  | .map es => Entries.Distinct es ∧ WellFormedEntries es
  | _ => True

def WellFormedItems : List Tree → Prop
  | [] => True
  | t :: ts => WellFormed t ∧ WellFormedItems ts

def WellFormedEntries : List (String × Tree) → Prop
  | [] => True
  | (_, t) :: es => WellFormed t ∧ WellFormedEntries es

end

mutual

/-- Edits every string of the tree, keys excepted, and counts the strings that `f` changed. -/
def editTexts (f : String → Option String) : Tree → Tree × Nat
  | .text s => match f s with
    | some t => (.text t, 1)
    | none => (.text s, 0)
  | .list items =>
    let (items, n) := editTextItems f items
    (.list items, n)
  | .map es =>
    let (es, n) := editTextEntries f es
    (.map es, n)
  | t => (t, 0)

def editTextItems (f : String → Option String) : List Tree → List Tree × Nat
  | [] => ([], 0)
  | t :: ts =>
    let (t, m) := editTexts f t
    let (ts, n) := editTextItems f ts
    (t :: ts, m + n)

def editTextEntries (f : String → Option String) : List (String × Tree) → List (String × Tree) × Nat
  | [] => ([], 0)
  | (k, t) :: es =>
    let (t, m) := editTexts f t
    let (es, n) := editTextEntries f es
    ((k, t) :: es, m + n)

end

mutual

def sorted : Tree → Tree
  | .list items => .list (sortedItems items)
  | .map es => .map ((sortedEntries es).mergeSort fun a b => decide (a.1 ≤ b.1))
  | t => t

def sortedItems : List Tree → List Tree
  | [] => []
  | t :: ts => sorted t :: sortedItems ts

def sortedEntries : List (String × Tree) → List (String × Tree)
  | [] => []
  | (k, t) :: es => (k, sorted t) :: sortedEntries es

end

end Tree

end Manifest
