import Manifest.Document
import Manifest.InPlace

/-! A store keeps documents in the order in which they came.  Operations that could give two
documents one identity check before they change the store. -/

namespace Manifest

structure Store where
  documents : List Document := []
  deriving DecidableEq

namespace Store

def empty : Store := {}

def ids (s : Store) : List Identity := s.documents.map Document.id

def size (s : Store) : Nat := s.documents.length

def position? (id : Identity) (s : Store) : Option Nat :=
  s.documents.findIdx? fun d => d.id = id

def get? (id : Identity) (s : Store) : Option Document :=
  s.documents.find? fun d => d.id = id

def modify (id : Identity) (f : Document → Document) (s : Store) : Store :=
  match s.position? id with
  | none => s
  | some i => { documents := s.documents.modify i f }

def append (d : Document) : InPlace Store Id Unit := do
  let s ← get
  if (s.position? d.id).isSome then throw (.duplicateIdentity d.id)
  set { s with documents := s.documents ++ [d] }

def firstRepeat? (seen : List Identity) : List Document → Option Identity
  | [] => none
  | d :: ds => if d.id ∈ seen then some d.id else firstRepeat? (d.id :: seen) ds

def appendAll (ds : List Document) : InPlace Store Id Unit := do
  let s ← get
  match firstRepeat? s.ids ds with
  | some id => throw (.duplicateIdentity id)
  | none => set { s with documents := s.documents ++ ds }

def remove (id : Identity) : InPlace Store Id Document := do
  let s ← get
  match s.position? id, s.get? id with
  | some i, some d =>
    set { s with documents := s.documents.eraseIdx i }
    return d
  | _, _ => throw (.notFound id)

/-- Renames a document in its place.  The new identity is free, or is the old one. -/
def rename (id : Identity) (name : String) : InPlace Store Id Unit := do
  let s ← get
  match s.position? id with
  | none => throw (.notFound id)
  | some i =>
    let target := id.withName name
    if target ≠ id ∧ (s.position? target).isSome then throw (.duplicateIdentity target)
    set { s with documents := s.documents.modify i (Document.rename name) }

def appended (d : Document) (s : Store) : Except Error Store := (append d).result s

def appendedAll (ds : List Document) (s : Store) : Except Error Store := (appendAll ds).result s

def removed (id : Identity) (s : Store) : Except Error (Store × Document) :=
  ((remove id).on s).run

def renamed (id : Identity) (name : String) (s : Store) : Except Error Store :=
  (rename id name).result s

def find? (kind name : String) (s : Store) : Option Document :=
  s.documents.find? fun d => d.kind = kind && d.hasName name

def ensureUnique (s : Store) : Except Error Unit :=
  match firstRepeat? [] s.documents with
  | some id => .error (.duplicateIdentity id)
  | none => .ok ()

def toTree (s : Store) : Tree := .list (s.documents.map Document.tree)

def mapM (f : Document → Except Error Document) (s : Store) : Except Error Store := do
  return { documents := ← s.documents.mapM f }

end Store

end Manifest
