import Manifest.FileTree
import Manifest.Reference.Rules
import Manifest.Yaml.Record

namespace Manifest.Reference

open Yaml.Record

def readFieldSpec : Reader FieldSpec := fun anchored node => do
  let fs ← fields anchored node
  let group ← field ["group"] text (some "") anchored fs
  let version ← field ["version"] text (some "") anchored fs
  let kind ← field ["kind"] text (some "") anchored fs
  let path ← field ["path"] text none anchored fs
  let create ← field ["createIfNotPresent", "create"] boolean (some false) anchored fs
  pure { type := { group, version, kind }, path, create }

def readNameRule : Reader NameRule := fun anchored node => do
  let fs ← fields anchored node
  let group ← field ["group"] text (some "") anchored fs
  let version ← field ["version"] text (some "") anchored fs
  let kind ← field ["kind"] text none anchored fs
  let specs ← field ["fieldSpecs"] (list readFieldSpec) (some []) anchored fs
  pure { type := { group, version, kind }, fields := specs }

def readRules : Reader Rules := fun anchored node => do
  let fs ← fields anchored node
  let names ← field ["nameReference"] (list readNameRule) (some []) anchored fs
  let expanded ← field ["varReference"] (list readFieldSpec) (some []) anchored fs
  pure { names, expanded }

namespace Rules

def parse (s : String) : Except Error Rules :=
  match Yaml.Record.parse? readRules s with
  | some rules => .ok rules
  | none => .error .yaml

def load (w : Workspace) (paths : List String) : Except Error Rules :=
  paths.foldlM (fun rules path => do return rules.merge (← parse (← w.load path))) builtin

end Rules

end Manifest.Reference
