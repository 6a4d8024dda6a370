import Manifest.Tree.Basic

namespace Manifest

inductive Step where
  | key (key : String)
  | index (i : Nat)
  deriving DecidableEq

abbrev Position := List Step

namespace Tree

def child? : Tree → Step → Option Tree
  | .map es, .key k => Entries.find? k es
  | .list items, .index i => items[i]?
  | _, _ => none

def get? (t : Tree) : Position → Option Tree
  | [] => some t
  | s :: p => (t.child? s).bind fun u => u.get? p

def modifyChild (f : Tree → Tree) : Tree → Step → Tree
  | .map es, .key k => .map (Entries.modify k f es)
  | .list items, .index i => .list (items.modify i f)
  | t, _ => t

def modify (f : Tree → Tree) : Position → Tree → Tree
  | [], t => f t
  | s :: p, t => t.modifyChild (modify f p) s

def set (p : Position) (u : Tree) (t : Tree) : Tree := t.modify (fun _ => u) p

def setAll (t : Tree) (updates : List (Position × Tree)) : Tree :=
  updates.foldl (fun acc u => set u.1 u.2 acc) t

end Tree

end Manifest
