import Manifest.Tree.Basic
import Manifest.Yaml.Node
import Manifest.Yaml.Plain

/-! The tree that a node stands for.  Scalars of any type can be keys, by their text form; a
repeated key keeps its first place and its last value.  An alias stands for the node with its
anchor, and the number of aliases that are followed is limited, as is the nesting. -/

namespace Manifest.Yaml

/-- A number of a document: integers of 64 bits as such, unsigned ones beyond that as decimals. -/
def integerTree? (n : Int) : Option Tree :=
  if -(Nat.pow 2 63) ≤ n ∧ n < Nat.pow 2 63 then some (.integer (Int64.ofInt n))
  else if 0 ≤ n ∧ n < Nat.pow 2 64 then some (.decimal (Decimal.ofNat n.toNat))
  else none

def scalarTree? (tag : Option String) (style : ScalarStyle) (s : String) : Option Tree :=
  match meaning? tag style s with
  | some .null => some .null
  | some (.boolean b) => some (.boolean b)
  | some (.integer n) => integerTree? n
  | some (.decimal d) => some (.decimal d)
  | some .text => some (.text s)
  | none => none

def scalarKey? (tag : Option String) (style : ScalarStyle) (s : String) : Option String :=
  match meaning? tag style s with
  | some .null => some "null"
  | some (.integer n) =>
    if -(Nat.pow 2 63) ≤ n ∧ n < Nat.pow 2 64 then some (String.ofList (Text.writeInt n)) else none
  | some (.boolean b) => (Tree.boolean b).text?
  | some (.decimal d) => (Tree.decimal d).text?
  | some .text => some s
  | none => none

def collectionAllowed (tag : Option String) : Bool :=
  tag.all fun t => t.toList.head? != some '!'

abbrev Following := StateT Nat Option

def target (anchored : List (Nat × Node)) : Node → Following Node
  | .alias n => do
    let left ← get
    if left = 0 then failure
    else
      set (left - 1)
      match anchored.reverse.find? (·.1 = n) with
      | some found => pure found.2
      | none => failure
  | node => pure node

def keyOf (anchored : List (Nat × Node)) (node : Node) : Following String := do
  match (← target anchored node) with
  | .scalar _ tag style s => (scalarKey? tag style s).elim failure pure
  | _ => failure

def treeOf (anchored : List (Nat × Node)) : Nat → Node → Following Tree
  | 0, node => do
    match (← target anchored node) with
    | .scalar _ tag style s => (scalarTree? tag style s).elim failure pure
    | _ => failure
  | depth + 1, node => do
    match (← target anchored node) with
    | .scalar _ tag style s => (scalarTree? tag style s).elim failure pure
    | .sequence _ tag items =>
      if collectionAllowed tag then pure (.list (← items.mapM (treeOf anchored depth)))
      else failure
    | .mapping _ tag es =>
      if collectionAllowed tag then
        let es ← es.mapM fun e => do
          let key ← keyOf anchored e.1
          pure (key, ← treeOf anchored depth e.2)
        pure (.map (Entries.insertAll [] es))
      else failure
    | .alias _ => failure

def maxDepth : Nat := 128

def aliasesPerMark : Nat := 100

def tree? (root : Node) : Option Tree :=
  ((treeOf root.anchored maxDepth root).run (aliasesPerMark * root.marks)).map Prod.fst

def stream (s : String) : List (Option Tree) :=
  (readNodes s.toList).map fun node => node.bind tree?

def parseStream? (s : String) : Option (List Tree) :=
  ((stream s).mapM id).map fun ts => ts.filter fun t => !t.isNull

def single? (s : String) : Option Node :=
  match readNodes s.toList with
  | [some node] => some node
  | _ => none

def parse? (s : String) : Option Tree := (single? s).bind tree?

end Manifest.Yaml
