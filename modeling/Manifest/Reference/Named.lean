import Manifest.Config.Selection
import Manifest.Reference.Variable

namespace Manifest.Reference

structure NamedValue where
  name : String := ""
  object : ObjectRef := {}
  field : String := "metadata.name"
  deriving DecidableEq

namespace NamedValue

open Config

def ofFields? (es : Entries Tree) : Option NamedValue := do
  let name ← textField "name" es
  let object ← required "objref" (Decoder.record ObjectRef.ofFields?) es
  let field ← withDefault "fieldref" (Decoder.record
    (fieldNamed ["fieldpath", "fieldPath"] .text none)) "metadata.name" es
  some { name, object, field }

end NamedValue

end Manifest.Reference
