import Manifest.FieldPath.Basic
import Manifest.Identity

namespace Manifest

inductive Error where
  /-- A plugin configuration that does not have the form the plugin asks for. -/
  | undecodable (plugin : String)
  /-- A plugin configuration of the right form with content the plugin refuses. -/
  | configuration (plugin message : String)
  | ambiguous (selector : String) (count : Nat)
  | path (path : String) (fault : PathFault)
  | typeMismatch (path expected found : String)
  | duplicateIdentity (id : Identity)
  | notFound (id : Identity)
  | missingTarget (description : String)
  | invalidDocument (description : String)
  | encoding (path : String)
  | load (path : String)
  | yaml
  | json
  | regularExpression

namespace Error

def message : Error → String
  | undecodable plugin => "invalid configuration for " ++ plugin
  | configuration plugin text => "invalid configuration for " ++ plugin ++ ": " ++ text
  | ambiguous selector count =>
    "selector " ++ selector ++ " matched " ++ String.ofList (Text.writeNat count)
      ++ " documents, expected exactly one"
  | path p fault => fault.message p
  | typeMismatch p expected found =>
    "type mismatch at '" ++ p ++ "': expected " ++ expected ++ ", found " ++ found
  | duplicateIdentity id => "document " ++ id.display ++ " already exists"
  | notFound id => "document " ++ id.display ++ " not found"
  | missingTarget description => "missing reference target: " ++ description
  | invalidDocument description => "invalid document: " ++ description
  | encoding p => "unable to decode '" ++ p ++ "'"
  | load p => "unable to load " ++ p
  | yaml => "yaml error"
  | json => "json error"
  | regularExpression => "invalid regular expression"

end Error

end Manifest
