/-! A map keeps its keys in the order in which they were first written.  Writing a present key
changes its value in place, writing a new one adds it at the end, and erasing a key closes the gap.
-/

namespace Manifest

abbrev Entries (α : Type) := List (String × α)

namespace Entries

variable {α β : Type}

def keys (es : Entries α) : List String := es.map Prod.fst

def find? (key : String) : Entries α → Option α
  | [] => none
  | (k, a) :: es => if k = key then some a else find? key es

def has (key : String) (es : Entries α) : Bool := (find? key es).isSome

def modify (key : String) (f : α → α) : Entries α → Entries α
  | [] => []
  | (k, a) :: es => if k = key then (k, f a) :: es else (k, a) :: modify key f es

/-- Writes a key in its place, or at the end when it is new. -/
def insert (key : String) (value : α) : Entries α → Entries α
  | [] => [(key, value)]
  | (k, a) :: es => if k = key then (k, value) :: es else (k, a) :: insert key value es

def erase (key : String) : Entries α → Entries α
  | [] => []
  | (k, a) :: es => if k = key then es else (k, a) :: erase key es

def insertAll (es : Entries α) (new : Entries α) : Entries α :=
  new.foldl (fun acc e => insert e.1 e.2 acc) es

def mapValues (f : α → β) (es : Entries α) : Entries β := es.map fun e => (e.1, f e.2)

def Distinct (es : Entries α) : Prop := es.keys.Nodup

@[simp] theorem find?_nil (key : String) : find? key ([] : Entries α) = none := rfl

theorem find?_cons (key k : String) (a : α) (es : Entries α) :
    find? key ((k, a) :: es) = if k = key then some a else find? key es := rfl

theorem find?_insert (key other : String) (value : α) (es : Entries α) :
    find? other (insert key value es) = if key = other then some value else find? other es := by
  induction es with
  | nil => simp [insert, find?]
  | cons e es ih =>
    obtain ⟨k, a⟩ := e
    by_cases hk : k = key
    · subst hk
      by_cases h : k = other <;> simp [insert, find?, h]
    · by_cases h : k = other
      · subst h
        have : key ≠ k := fun h => hk h.symm
        simp [insert, find?, hk, this]
      · simp [insert, find?, hk, h, ih]

theorem keys_insert (key : String) (value : α) (es : Entries α) :
    keys (insert key value es) = if key ∈ keys es then keys es else keys es ++ [key] := by
  induction es with
  | nil => simp [insert, keys]
  | cons e es ih =>
    obtain ⟨k, a⟩ := e
    by_cases hk : k = key
    · simp [insert, keys, hk]
    · have hk' : key ≠ k := fun h => hk h.symm
      simp only [keys] at ih
      by_cases hm : key ∈ es.map Prod.fst
      · simp [insert, keys, hk, hk', ih, hm]
      · simp [insert, keys, hk, hk', ih, hm]

end Entries

end Manifest
