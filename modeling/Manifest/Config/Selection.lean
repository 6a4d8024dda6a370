import Manifest.Config.Basic
import Manifest.Selection

namespace Manifest

open Config

def ResourceType.ofFields? (es : Entries Tree) : Option ResourceType := do
  let group ← textField "group" es
  let version ← textField "version" es
  let kind ← textField "kind" es
  some { group, version, kind }

def Selector.ofFields? (es : Entries Tree) : Option Selector := do
  let type ← ResourceType.ofFields? es
  let ns ← textField "namespace" es
  let name ← textField "name" es
  let labels ← textField "labelSelector" es
  let annotations ← textField "annotationSelector" es
  some { type, ns, name, labels, annotations }

def FieldSpec.ofFields? (es : Entries Tree) : Option FieldSpec := do
  let type ← ResourceType.ofFields? es
  let path ← required "path" .text es
  let create ← fieldNamed ["createIfNotPresent", "create"] .boolean (some false) es
  some { type, path, create }

def ObjectRef.ofFields? (es : Entries Tree) : Option ObjectRef := do
  let apiVersion ← textField "apiVersion" es
  let kind ← textField "kind" es
  let name ← textField "name" es
  some { apiVersion, kind, name }

end Manifest
