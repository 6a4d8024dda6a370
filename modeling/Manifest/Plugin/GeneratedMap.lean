import Manifest.Config.Basic
import Manifest.ContentName
import Manifest.EncodedField
import Manifest.FileTree
import Manifest.Store
import Manifest.Text.Blank
import Manifest.Validity

/-! A ConfigMap or a Secret is generated from pairs of key and text, which come from files of
variables, from literals, from data and from whole files, in this order.  No key may come twice.
The document is named after its content unless that is switched off. -/

namespace Manifest

inductive MapKind where
  | configMap
  | secret
  deriving DecidableEq

namespace MapKind

def name : MapKind → String
  | configMap => "ConfigMap"
  | secret => "Secret"

def encoded : MapKind → Bool
  | configMap => false
  | secret => true

def type (k : MapKind) : ResourceType := { version := "v1", kind := k.name }

def stored (k : MapKind) (text : String) : String :=
  if k.encoded then EncodedField.encode text else text

end MapKind

structure MapRecipe where
  kind : MapKind
  name : String
  ns : String := ""
  literals : List String := []
  files : List String := []
  envs : List String := []
  data : Entries Tree := []
  plainName : Bool := false
  labels : Entries String := []
  annotations : Entries String := []
  secretType : Option String := none

namespace MapRecipe

open Config

def ofFields? (kind : MapKind) (es : Entries Tree) : Option MapRecipe := do
  let (name, ns) ← withDefault "metadata" (Decoder.record fun m => do
    some (← textField "name" m, ← textField "namespace" m)) ("", "") es
  let ownName ← withDefault "name" (Decoder.optional .text) none es
  let ownNs ← withDefault "namespace" (Decoder.optional .text) none es
  let literals ← withDefault "literals" (Decoder.list .text) [] es
  let files ← withDefault "files" (Decoder.list .text) [] es
  let envs ← withDefault "envs" (Decoder.list .text) [] es
  let data ← withDefault "data" (Decoder.dictionary some) [] es
  let (plainName, labels, annotations) ← withDefault "options" (Decoder.record fun o => do
    some (← withDefault "disableNameSuffixHash" .boolean false o,
      ← withDefault "labels" (Decoder.dictionary .text) [] o,
      ← withDefault "annotations" (Decoder.dictionary .text) [] o)) (false, [], []) es
  let secretType ← withDefault "type" (Decoder.optional .text) none es
  some { kind, name := ownName.getD name, ns := ownNs.getD ns, literals, files, envs, data,
         plainName, labels, annotations, secretType }

def fault (r : MapRecipe) (message : String) : Error :=
  .configuration r.kind.name (r.name ++ ": " ++ message)

def configure (kind : MapKind) (config : Tree) : Except Error MapRecipe :=
  match Decoder.record (ofFields? kind) config with
  | none => .error (.undecodable kind.name)
  | some r =>
    if r.name = "" then .error (.configuration kind.name "a name is required")
    else
      match Validity.nameFault? r.name with
      | some message => .error (r.fault message)
      | none => .ok r

/-- The lines of a file of variables that count, without blanks around them. -/
def variableLines (contents : String) : List (List Char) :=
  ((Text.splitAll '\n' contents.toList).map Text.trim).filter fun line =>
    line ≠ [] && line.head? ≠ some '#'

def linePair (r : MapRecipe) (file : String) (line : List Char) : Except Error (String × String) :=
  match Text.splitFirst? '=' line with
  | some (key, value) => .ok (String.ofList (Text.trim key), String.ofList value)
  | none =>
    .error (r.fault ("line '" ++ String.ofList line ++ "' in " ++ file ++ " is not KEY=VALUE"))

def envPairs (w : Workspace) (r : MapRecipe) (file : String) :
    Except Error (List (String × String)) := do
  (variableLines (← w.load file)).mapM (r.linePair file)

def literalPair (r : MapRecipe) (literal : String) : Except Error (String × String) :=
  match Text.splitFirst? '=' literal.toList with
  | some (key, value) => .ok (String.ofList key, String.ofList (Text.unquote value))
  | none => .error (r.fault ("literal '" ++ literal ++ "' is not key=value"))

def dataText (t : Tree) : String :=
  if t.isScalar then t.text?.getD "" else Json.render t

def filePair (w : Workspace) (r : MapRecipe) (file : String) : Except Error (String × String) := do
  let (key, path) ←
    match Text.splitFirst? '=' file.toList with
    | some (key, path) => pure (key, path)
    | none =>
      match FilePath.fileName? file.toList with
      | some name => pure (name, file.toList)
      | none => throw (r.fault ("file '" ++ file ++ "' has no file name"))
  return (String.ofList key, ← w.load (String.ofList path))

def pairs (w : Workspace) (r : MapRecipe) : Except Error (List (String × String)) := do
  let envs ← r.envs.mapM (r.envPairs w)
  let literals ← r.literals.mapM r.literalPair
  let files ← r.files.mapM (r.filePair w)
  return envs.flatten ++ literals ++ r.data.map (fun e => (e.1, dataText e.2)) ++ files

def addPair (r : MapRecipe) (es : Entries Tree) (pair : String × String) :
    Except Error (Entries Tree) :=
  match Validity.keyFault? pair.1 with
  | some message => .error (r.fault message)
  | none =>
    if Entries.has pair.1 es then .error (r.fault ("duplicate key '" ++ pair.1 ++ "'"))
    else .ok (es ++ [(pair.1, .text (r.kind.stored pair.2))])

def textMap (es : Entries String) : Tree := .map (es.map fun e => (e.1, .text e.2))

def metadataField (key : String) (es : Entries String) (d : Document) : Document :=
  if es = [] then d else d.setMetadata key (textMap es)

def topField (key : String) (value : Tree) (d : Document) : Document :=
  match d.tree with
  | .map es => { d with tree := .map (Entries.insert key value es) }
  | _ => d

def assemble (r : MapRecipe) (data : Entries Tree) : Document :=
  let d := Document.skeleton r.kind.type r.name
  let d := if r.ns = "" then d else d.setNamespace r.ns
  let d := metadataField "annotations" r.annotations (metadataField "labels" r.labels d)
  let d := match r.kind with
    | .configMap => d
    | .secret => topField "type" (.text (r.secretType.getD "Opaque")) d
  topField "data" (.map data) d

def build (w : Workspace) (r : MapRecipe) : Except Error Document := do
  let data ← (← r.pairs w).foldlM r.addPair []
  return r.assemble data

def generate (w : Workspace) (r : MapRecipe) : Except Error Document := do
  let d ← r.build w
  if r.plainName then return d else return d.rename (← ContentName.suffixed [] d)

end MapRecipe

end Manifest
