import Manifest.Json.Number

/-! A reader takes a value off the front of the text and returns what follows it.  At most 127 lists
and maps are nested.  A repeated key keeps its first place and its last value. -/

namespace Manifest.Json

def isSpace (c : Char) : Bool := c = ' ' || c = '\n' || c = '\r' || c = '\t'

def skipSpace (cs : List Char) : List Char := cs.dropWhile isSpace

def shortEscape? (c : Char) : Option Char :=
  if c = '"' ∨ c = '\\' ∨ c = '/' then some c
  else if c = 'n' then some '\n'
  else if c = 'r' then some '\r'
  else if c = 't' then some '\t'
  else if c = 'b' then some '\x08'
  else if c = 'f' then some '\x0c'
  else none

def withChar (c : Char) (r : Option (List Char × List Char)) : Option (List Char × List Char) :=
  r.map fun p => (c :: p.1, p.2)

/-- The inside of a string up to its closing quote.  An escaped pair of surrogates is one character,
and a lone surrogate is none. -/
def readStringBody : List Char → Option (List Char × List Char)
  | [] => none
  | c :: cs =>
    if c = '"' then some ([], cs)
    else if c = '\\' then
      match cs with
      | [] => none
      | e :: cs =>
        if e = 'u' then
          match cs with
          | p :: q :: r :: s :: cs =>
            match Text.hexNumber? [p, q, r, s] with
            | none => none
            | some n =>
              if 0xD800 ≤ n ∧ n < 0xDC00 then
                match cs with
                | '\\' :: 'u' :: p :: q :: r :: s :: cs =>
                  match Text.hexNumber? [p, q, r, s] with
                  | none => none
                  | some m =>
                    if 0xDC00 ≤ m ∧ m < 0xE000 then
                      let code := 0x10000 + (n - 0xD800) * 0x400 + (m - 0xDC00)
                      withChar (Char.ofNat code) (readStringBody cs)
                    else none
                | _ => none
              else if 0xDC00 ≤ n ∧ n < 0xE000 then none
              else withChar (Char.ofNat n) (readStringBody cs)
          | _ => none
        else
          match shortEscape? e with
          | none => none
          | some d => withChar d (readStringBody cs)
    else if c.toNat < 0x20 then none
    else withChar c (readStringBody cs)

def readString? : List Char → Option (String × List Char)
  | '"' :: cs => (readStringBody cs).map fun p => (String.ofList p.1, p.2)
  | _ => none

def readWord? (word : List Char) (t : Tree) (cs : List Char) : Option (Tree × List Char) :=
  if cs.take word.length = word then some (t, cs.drop word.length) else none

def readScalar? : List Char → Option (Tree × List Char)
  | [] => none
  | c :: cs =>
    if c = '"' then (readString? (c :: cs)).map fun p => (.text p.1, p.2)
    else if c = 'n' then readWord? "null".toList .null (c :: cs)
    else if c = 't' then readWord? "true".toList (.boolean true) (c :: cs)
    else if c = 'f' then readWord? "false".toList (.boolean false) (c :: cs)
    else readNumber? (c :: cs)

/-- Items up to the closing bracket, each read by `item`.  Every round takes at least one character,
so the length of the text bounds the rounds. -/
def readItems (item : List Char → Option (Tree × List Char)) :
    Nat → List Char → Option (List Tree × List Char)
  | 0, _ => none
  | fuel + 1, cs => do
    let (t, cs) ← item (skipSpace cs)
    match skipSpace cs with
    | ',' :: cs =>
      let (ts, cs) ← readItems item fuel cs
      some (t :: ts, cs)
    | ']' :: cs => some ([t], cs)
    | _ => none

def readEntries (item : List Char → Option (Tree × List Char)) :
    Nat → List Char → Option (List (String × Tree) × List Char)
  | 0, _ => none
  | fuel + 1, cs => do
    let (key, cs) ← readString? (skipSpace cs)
    match skipSpace cs with
    | ':' :: cs =>
      let (t, cs) ← item (skipSpace cs)
      match skipSpace cs with
      | ',' :: cs =>
        let (es, cs) ← readEntries item fuel cs
        some ((key, t) :: es, cs)
      | '}' :: cs => some ([(key, t)], cs)
      | _ => none
    | _ => none

def readValue : Nat → List Char → Option (Tree × List Char)
  | 0, cs => if cs.head? = some '[' ∨ cs.head? = some '{' then none else readScalar? cs
  | depth + 1, cs =>
    match cs with
    | '[' :: cs =>
      match skipSpace cs with
      | ']' :: cs => some (.list [], cs)
      | cs => (readItems (readValue depth) (cs.length + 1) cs).map fun p => (.list p.1, p.2)
    | '{' :: cs =>
      match skipSpace cs with
      | '}' :: cs => some (.map [], cs)
      | cs => (readEntries (readValue depth) (cs.length + 1) cs).map fun p =>
          (.map (Entries.insertAll [] p.1), p.2)
    | cs => readScalar? cs

def maxDepth : Nat := 127

def read? (cs : List Char) : Option Tree := do
  let (t, rest) ← readValue maxDepth (skipSpace cs)
  if skipSpace rest = [] then some t else none

def parse? (s : String) : Option Tree := read? s.toList

end Manifest.Json
