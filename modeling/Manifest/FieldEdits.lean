import Manifest.FieldPath.Walk
import Manifest.Selection

/-! Field specs name the fields of a document that an edit is applied to, one spec after the other.
The specs that apply are those for the type that the document has before the first edit. -/

namespace Manifest

def Document.editFields (specs : List FieldSpec) (edit : Tree → Except Error Tree) (d : Document) :
    Except Error Document := do
  let tree ← (specs.filter (·.appliesTo d.type)).foldlM (fun t spec => do
    let p ← spec.fieldPath
    return (← p.appliedPure spec.create edit t).1) d.tree
  return { d with tree }

end Manifest
