import Manifest.InPlace
import Manifest.Tree.Position

/-! A key on a map goes to its value, and on a list to every element.  An index or a match picks
elements of a list.  A missing key, index or match ends the walk without an error, and so does null;
any other scalar on the way is a mismatch.  A list at the end of the path stands for its elements.

`FieldPath.locate` gives the positions of the addressed nodes, `FieldPath.lookup` the first of these
nodes, `FieldPath.remove` deletes them and `FieldPath.apply` edits them in place. -/

namespace Manifest

structure Mismatch where
  expected : String
  found : String
  deriving DecidableEq

namespace Mismatch

def ofNode (expected : String) (t : Tree) : Mismatch := ⟨expected, t.shape⟩

def toError (path : String) (m : Mismatch) : Error := .typeMismatch path m.expected m.found

end Mismatch

namespace Tree

def hasField (key value : String) (t : Tree) : Bool :=
  (t.field? key).bind text? = some value

def picks : Segment → Nat → Tree → Bool
  | .field _, _, _ => true
  | .index n, i, _ => i = n
  | .matching key value, _, t => t.hasField key value

/-- The segments that are left after a step into a list: a key is still to be taken. -/
def afterList (s : Segment) (rest : List Segment) : List Segment :=
  match s with
  | .field _ => s :: rest
  | _ => rest

mutual

/-- The positions of the nodes that the segments address, in document order.  With `spread`, a list
at the end stands for its elements. -/
def addressed (spread : Bool) : Tree → List Segment → Except Mismatch (List Position)
  | .list items, [] =>
    .ok (if spread then (List.range items.length).map fun i => [.index i] else [[]])
  | _, [] => .ok [[]]
  | .list items, s :: rest => addressedItems spread (picks s) (afterList s rest) 0 items
  | .null, _ :: _ => .ok []
  | .map es, .field key :: rest => addressedEntry spread key rest es
  | t, .field _ :: _ => .error (.ofNode "object" t)
  | t, _ :: _ => .error (.ofNode "array" t)

def addressedItems (spread : Bool) (pick : Nat → Tree → Bool) (segments : List Segment) (i : Nat) :
    List Tree → Except Mismatch (List Position)
  | [] => .ok []
  | t :: ts =>
    match (if pick i t then addressed spread t segments else .ok []) with
    | .error m => .error m
    | .ok here =>
      match addressedItems spread pick segments (i + 1) ts with
      | .error m => .error m
      | .ok later => .ok (here.map (.index i :: ·) ++ later)

def addressedEntry (spread : Bool) (key : String) (segments : List Segment) :
    List (String × Tree) → Except Mismatch (List Position)
  | [] => .ok []
  | (k, t) :: es =>
    if k = key then (addressed spread t segments).map fun ps => ps.map (.key key :: ·)
    else addressedEntry spread key segments es

end

mutual

/-- The first node that the segments address; a list at the end is returned whole. -/
def lookup : Tree → List Segment → Except Mismatch (Option Tree)
  | t, [] => .ok (some t)
  | .list items, s :: rest => lookupItems (picks s) (afterList s rest) 0 items
  | .null, _ :: _ => .ok none
  | .map es, .field key :: rest => lookupEntry key rest es
  | t, .field _ :: _ => .error (.ofNode "object" t)
  | t, _ :: _ => .error (.ofNode "array" t)

def lookupItems (pick : Nat → Tree → Bool) (segments : List Segment) (i : Nat) :
    List Tree → Except Mismatch (Option Tree)
  | [] => .ok none
  | t :: ts =>
    match (if pick i t then lookup t segments else .ok none) with
    | .error m => .error m
    | .ok (some u) => .ok (some u)
    | .ok none => lookupItems pick segments (i + 1) ts

def lookupEntry (key : String) (segments : List Segment) :
    List (String × Tree) → Except Mismatch (Option Tree)
  | [] => .ok none
  | (k, t) :: es => if k = key then lookup t segments else lookupEntry key segments es

end

def chain : List Segment → Tree
  | .field key :: rest => .map [(key, chain rest)]
  | _ => .null

mutual

/-- Adds the keys that the path needs, as long as only keys are left in it; null becomes a map
there.  The tree is changed up to the first mismatch. -/
def grow : Tree → List Segment → Tree × Option Mismatch
  | t, [] => (t, none)
  | .list items, s :: rest =>
    let (items, m) := growItems (picks s) (afterList s rest) 0 items
    (.list items, m)
  | .null, s :: rest => (if (s :: rest).all Segment.isField then chain (s :: rest) else .null, none)
  | .map es, .field key :: rest =>
    if Entries.has key es then
      let (es, m) := growEntry key rest es
      (.map es, m)
    else if rest.all Segment.isField then (.map (es ++ [(key, chain rest)]), none)
    else (.map es, none)
  | t, .field _ :: _ => (t, some (.ofNode "object" t))
  | t, _ :: _ => (t, some (.ofNode "array" t))

def growItems (pick : Nat → Tree → Bool) (segments : List Segment) (i : Nat) :
    List Tree → List Tree × Option Mismatch
  | [] => ([], none)
  | t :: ts =>
    match (if pick i t then grow t segments else (t, none)) with
    | (t, some m) => (t :: ts, some m)
    | (t, none) =>
      let (ts, m) := growItems pick segments (i + 1) ts
      (t :: ts, m)

def growEntry (key : String) (segments : List Segment) :
    List (String × Tree) → List (String × Tree) × Option Mismatch
  | [] => ([], none)
  | (k, t) :: es =>
    if k = key then
      let (t, m) := grow t segments
      ((k, t) :: es, m)
    else
      let (es, m) := growEntry key segments es
      ((k, t) :: es, m)

end

def removeLast (last : Segment) (t : Tree) : Tree × Nat :=
  match last, t with
  | .field key, .map es => if Entries.has key es then (.map (Entries.erase key es), 1) else (t, 0)
  | .index i, .list items => if i < items.length then (.list (items.eraseIdx i), 1) else (t, 0)
  | .matching key value, .list items =>
    let kept := items.filter fun item => !item.hasField key value
    (.list kept, items.length - kept.length)
  | _, _ => (t, 0)

end Tree

abbrev Edit (σ : Type) := Tree → ExceptT Error (StateM σ) Tree

namespace FieldPath

def locate (p : FieldPath) (t : Tree) : Except Error (List Position) :=
  (t.addressed true p.segments).mapError (·.toError p.source)

def locateGrown (p : FieldPath) (t : Tree) : Tree × Except Error (List Position) :=
  let (grown, m) := t.grow p.segments
  match m with
  | some m => (grown, .error (m.toError p.source))
  | none => (grown, p.locate grown)

def lookup (p : FieldPath) (t : Tree) : Except Error (Option Tree) :=
  (t.lookup p.segments).mapError (·.toError p.source)

def remove (p : FieldPath) (t : Tree) : Except Error (Tree × Nat) :=
  match p.segments.getLast? with
  | none => .error (.typeMismatch p.source "a field" "the document root")
  | some last =>
    match t.addressed last.isField p.segments.dropLast with
    | .error m => .error (m.toError p.source)
    | .ok parents =>
      let counts := parents.map fun q => ((t.get? q).map fun u => (u.removeLast last).2).getD 0
      let removed := parents.foldl (fun acc q => acc.modify (fun u => (u.removeLast last).1) q) t
      .ok (removed, counts.foldl (· + ·) 0)

section Edits

variable {σ : Type}

def locateIn (p : FieldPath) (create : Bool) : InPlace Tree (StateM σ) (List Position) := do
  if create then
    let (grown, positions) := p.locateGrown (← get)
    set grown
    return ← positions
  else return ← p.locate (← get)

/-- All edits run before the first result is written. -/
def write (p : FieldPath) (create : Bool) (edit : Edit σ) : InPlace Tree (StateM σ) Nat := do
  let positions ← p.locateIn create
  let nodes := positions.filterMap (← get).get?
  let updates ← nodes.mapM fun u => InPlace.beside (edit u)
  (positions.zip updates).forM fun (q, u) => modify (Tree.set q u)
  return positions.length

/-- Edits every addressed node, in document order, and counts them.  With `create` the keys that the
path needs are added to a copy, which takes the place of the tree if there was a node to edit. -/
def apply (p : FieldPath) (create : Bool) (edit : Edit σ) : InPlace Tree (StateM σ) Nat := do
  if create then
    let (count, staged) ← InPlace.onCopy (p.write true edit)
    if 0 < count then set staged
    return count
  else p.write false edit

def applied (p : FieldPath) (create : Bool) (edit : Edit σ) (t : Tree) :
    ExceptT Error (StateM σ) (Tree × Nat) :=
  (p.apply create edit).on t

end Edits

def appliedPure (p : FieldPath) (create : Bool) (edit : Tree → Except Error Tree) (t : Tree) :
    Except Error (Tree × Nat) :=
  ((p.applied create (fun u => ExceptT.mk (pure (edit u))) t).run ()).1

end FieldPath

end Manifest
