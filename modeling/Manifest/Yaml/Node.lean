import Manifest.Tree.Entries
import Manifest.Yaml.Lexer

/-! A document is a scalar, a sequence, a mapping or an alias.  A node with an anchor carries a
number: the number of different names that were anchored before it in the document.  An alias
carries the number of its name, so it refers to the last node with that number. -/

namespace Manifest.Yaml

inductive Node where
  | scalar (anchor : Option Nat) (tag : Option String) (style : ScalarStyle) (text : String)
  | sequence (anchor : Option Nat) (tag : Option String) (items : List Node)
  | mapping (anchor : Option Nat) (tag : Option String) (entries : List (Node × Node))
  | alias (anchor : Nat)

namespace Node

def empty : Node := .scalar none none .plain ""

mutual

def anchored : Node → List (Nat × Node)
  | .scalar a t s x => (a.map fun n => (n, Node.scalar a t s x)).toList
  | .sequence a t items =>
    (a.map fun n => (n, Node.sequence a t items)).toList ++ anchoredItems items
  | .mapping a t es => (a.map fun n => (n, Node.mapping a t es)).toList ++ anchoredEntries es
  | .alias _ => []

def anchoredItems : List Node → List (Nat × Node)
  | [] => []
  | n :: ns => anchored n ++ anchoredItems ns

def anchoredEntries : List (Node × Node) → List (Nat × Node)
  | [] => []
  | (k, v) :: es => anchored k ++ anchored v ++ anchoredEntries es

end

mutual

/-- The marks that a node is made of: one for a scalar or an alias, and two around a collection. -/
def marks : Node → Nat
  | .scalar .. | .alias _ => 1
  | .sequence _ _ items => 2 + marksItems items
  | .mapping _ _ es => 2 + marksEntries es

def marksItems : List Node → Nat
  | [] => 0
  | n :: ns => marks n + marksItems ns

def marksEntries : List (Node × Node) → Nat
  | [] => 0
  | (k, v) :: es => marks k + marks v + marksEntries es

end

end Node

structure Outline where
  tokens : List Token
  shorthands : List (String × String)
  names : List (String × Nat) := []

abbrev Reading := StateT Outline Option

namespace Reading

def peek : Reading Token := do
  match (← get).tokens with
  | [] => failure
  | t :: _ => pure t

def skip : Reading Unit := modify fun o => { o with tokens := o.tokens.tail }

def takes (t : Token) : Reading Bool := do
  if (← peek) = t then
    skip
    pure true
  else pure false

def expect (t : Token) : Reading Unit := do
  if (← takes t) then pure () else failure

def name (s : String) : Reading Nat := do
  let names := (← get).names
  let number := names.length
  modify fun o => { o with names := Entries.insert s number names }
  pure number

def resolveTag (handle suffix : String) : Reading String := do
  if handle = "" then pure suffix
  else match Entries.find? handle (← get).shorthands with
    | some expansion => pure (expansion ++ suffix)
    | none => failure

def anchor? : Reading (Option String) := do
  match (← peek) with
  | .anchor s =>
    skip
    pure (some s)
  | _ => pure none

def tag? : Reading (Option String) := do
  match (← peek) with
  | .tag handle suffix =>
    skip
    pure (some (← resolveTag handle suffix))
  | _ => pure none

def properties : Reading (Option String × Option String) := do
  match (← anchor?) with
  | some a => pure (some a, ← tag?)
  | none =>
    match (← tag?) with
    | some t => pure (← anchor?, some t)
    | none => pure (none, none)

def scalarTag (tag : Option String) : Option String := if tag = some "!" then none else tag

mutual

/-- A node.  Blocks count only where `block` is set, and a sequence may stand without indentation
below a key. -/
def node (block belowKey : Bool) : Nat → Reading Node
  | 0 => failure
  | fuel + 1 => do
    match (← peek) with
    | .alias s =>
      skip
      match Entries.find? s (← get).names with
      | some n => pure (.alias n)
      | none => failure
    | _ =>
      let (anchor, tag) ← properties
      let head ← peek
      let number ← anchor.mapM name
      match head with
      | .scalar text style =>
        skip
        pure (.scalar number (scalarTag tag) style text)
      | .openBracket =>
        skip
        pure (.sequence number tag (← flowItems true fuel))
      | .openBrace =>
        skip
        pure (.mapping number tag (← flowEntries true fuel))
      | .entry =>
        if belowKey then pure (.sequence number tag (← looseItems fuel))
        else if anchor.isSome ∨ tag.isSome then pure (.scalar number (scalarTag tag) .plain "")
        else failure
      | .blockSequence =>
        if block then
          skip
          pure (.sequence number tag (← blockItems fuel))
        else if anchor.isSome ∨ tag.isSome then pure (.scalar number (scalarTag tag) .plain "")
        else failure
      | .blockMapping =>
        if block then
          skip
          pure (.mapping number tag (← blockEntries fuel))
        else if anchor.isSome ∨ tag.isSome then pure (.scalar number (scalarTag tag) .plain "")
        else failure
      | _ =>
        if anchor.isSome ∨ tag.isSome then pure (.scalar number (scalarTag tag) .plain "")
        else failure

def nodeUnless (ends : List Token) (block belowKey : Bool) : Nat → Reading Node
  | 0 => failure
  | fuel + 1 => do
    if (← peek) ∈ ends then pure .empty else node block belowKey fuel

def blockItems : Nat → Reading (List Node)
  | 0 => failure
  | fuel + 1 => do
    if (← takes .entry) then
      let item ← nodeUnless [.entry, .blockEnd] true false fuel
      pure (item :: (← blockItems fuel))
    else
      expect .blockEnd
      pure []

def looseItems : Nat → Reading (List Node)
  | 0 => failure
  | fuel + 1 => do
    if (← takes .entry) then
      let item ← nodeUnless [.entry, .key, .value, .blockEnd] true false fuel
      pure (item :: (← looseItems fuel))
    else pure []

def blockEntries : Nat → Reading (List (Node × Node))
  | 0 => failure
  | fuel + 1 => do
    match (← peek) with
    | .key =>
      skip
      let key ← nodeUnless [.key, .value, .blockEnd] true true fuel
      let value ← blockValue fuel
      pure ((key, value) :: (← blockEntries fuel))
    | .value =>
      let value ← blockValue fuel
      pure ((.empty, value) :: (← blockEntries fuel))
    | _ =>
      expect .blockEnd
      pure []

def blockValue : Nat → Reading Node
  | 0 => failure
  | fuel + 1 => do
    if (← takes .value) then nodeUnless [.key, .value, .blockEnd] true true fuel
    else pure .empty

def flowItems (first : Bool) : Nat → Reading (List Node)
  | 0 => failure
  | fuel + 1 => do
    if (← takes .closeBracket) then pure []
    else
      unless first do expect .comma
      if !first && (← takes .closeBracket) then pure []
      else
        let item ← if (← takes .key) then flowPair fuel else node false false fuel
        pure (item :: (← flowItems false fuel))

def flowPair : Nat → Reading Node
  | 0 => failure
  | fuel + 1 => do
    let key ←
      if (← peek) ∈ [.value, .comma, .closeBracket] then
        skip
        pure Node.empty
      else node false false fuel
    let value ←
      if (← takes .value) then nodeUnless [.comma, .closeBracket] false false fuel
      else pure .empty
    pure (.mapping none none [(key, value)])

def flowEntries (first : Bool) : Nat → Reading (List (Node × Node))
  | 0 => failure
  | fuel + 1 => do
    if (← takes .closeBrace) then pure []
    else
      unless first do expect .comma
      if !first && (← takes .closeBrace) then pure []
      else
        let entry ← flowEntry fuel
        pure (entry :: (← flowEntries false fuel))

def flowEntry : Nat → Reading (Node × Node)
  | 0 => failure
  | fuel + 1 => do
    if (← takes .key) then
      let key ← nodeUnless [.value, .comma, .closeBrace] false false fuel
      let value ←
        if (← takes .value) then nodeUnless [.comma, .closeBrace] false false fuel
        else pure .empty
      pure (key, value)
    else pure (← node false false fuel, .empty)

end

/-- Directives before a document: at most one version, which is 1.1 or 1.2, and shorthands with
different handles. -/
def directives (version : Bool) : Nat → Reading Unit
  | 0 => failure
  | fuel + 1 => do
    match (← peek) with
    | .version major minor =>
      if version ∨ major ≠ 1 ∨ (minor ≠ 1 ∧ minor ≠ 2) then failure
      else
        skip
        directives true fuel
    | .tagShorthand handle expansion =>
      if Entries.has handle (← get).shorthands then failure
      else
        skip
        modify fun o => { o with shorthands := o.shorthands ++ [(handle, expansion)] }
        directives version fuel
    | _ => pure ()

def standardShorthands : List (String × String) := [("!", "!"), ("!!", "tag:yaml.org,2002:")]

def content (fuel : Nat) : Reading Node := do
  match (← peek) with
  | .version .. | .tagShorthand .. | .documentStart | .documentEnd | .streamEnd => pure .empty
  | _ => node true false fuel

def document (first : Bool) (fuel : Nat) : Reading Node := do
  let root ←
    match first, (← peek) with
    | true, .version .. | true, .tagShorthand .. | true, .documentStart | false, _ =>
      directives false fuel
      expect .documentStart
      modify fun o => { o with shorthands := o.shorthands ++ standardShorthands }
      content fuel
    | true, _ =>
      modify fun o => { o with shorthands := standardShorthands }
      node true false fuel
  let _ ← takes .documentEnd
  pure root

def skipEnds (first : Bool) (ts : List Token) : List Token :=
  if first then ts else ts.dropWhile (· = .documentEnd)

def documents (fuel : Nat) : Bool → Nat → List Token → List (Option Node)
  | _, 0, _ => [none]
  | first, rounds + 1, ts =>
    let ts := skipEnds first ts
    if ts.head? = some .streamEnd then []
    else
      match (document first fuel).run { tokens := ts, shorthands := [] } with
      | none => [none]
      | some (root, o) => some root :: documents fuel false rounds o.tokens

end Reading

/-- The documents of a text.  A text without any is one empty document, and an error ends the
list. -/
def readNodes (text : List Char) : List (Option Node) :=
  let ts := tokens text
  match Reading.documents (4 * ts.length + 8) true (ts.length + 1) ts with
  | [] => [some .empty]
  | docs => docs

end Manifest.Yaml
