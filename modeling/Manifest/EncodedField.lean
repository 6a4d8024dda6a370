import Manifest.Document
import Manifest.FieldPath.Walk
import Manifest.Text.Base64

/-! The values below some top level fields are kept in base 64: `data` of a Secret and `binaryData`
of a ConfigMap.  An edit of such a field sees the decoded text, and what it returns is encoded
again. -/

namespace Manifest

structure EncodedField where
  kind : String
  field : String
  deriving DecidableEq

namespace EncodedField

def standard : List EncodedField := [⟨"Secret", "data"⟩, ⟨"ConfigMap", "binaryData"⟩]

def covers (fields : List EncodedField) (kind : String) (p : FieldPath) : Bool :=
  match p.firstField? with
  | none => false
  | some field => fields.any fun f => f.kind = kind && f.field = field

def encode (plain : String) : String := String.ofList (Text.Base64.encode plain.toUTF8.toList)

def decode? (encoded : String) : Option String := do
  let bytes ← Text.Base64.decode? (encoded.toList.filter fun c => !Text.isBlank c)
  String.fromUTF8? ⟨bytes.toArray⟩

/-- The stored form of what an edit returned: scalars are encoded, other nodes stay as they are. -/
def restore (t : Tree) : Tree :=
  match t.text? with
  | some plain => .text (encode plain)
  | none => t

def decoding {σ : Type} (p : FieldPath) (edit : Edit σ) : Edit σ
  | .text encoded =>
    match decode? encoded with
    | none => throw (.encoding p.source)
    | some plain => return restore (← edit (.text plain))
  | .null => return restore (← edit .null)
  | t => edit t

end EncodedField

namespace Document

def onTree {m : Type → Type} [Monad m] {α : Type} (x : InPlace Tree m α) : InPlace Document m α :=
  ExceptT.mk fun d => do
    let (r, t) ← x.call d.tree
    return (r, { d with tree := t })

variable {σ : Type}

def apply (fields : List EncodedField) (p : FieldPath) (create : Bool) (edit : Edit σ) :
    InPlace Document (StateM σ) Nat := do
  let d ← get
  let edit := if EncodedField.covers fields d.kind p then EncodedField.decoding p edit else edit
  onTree (p.apply create edit)

def applied (d : Document) (fields : List EncodedField) (p : FieldPath) (create : Bool)
    (edit : Edit σ) : ExceptT Error (StateM σ) (Document × Nat) :=
  (apply fields p create edit).on d

end Document

end Manifest
