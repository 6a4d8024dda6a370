import Manifest.Pipeline

namespace Manifest

structure BuildPlan where
  resources : List String
  generators : List String
  transformers : List String
  configurations : List String

namespace BuildPlan

open Yaml.Record

def fileName : String := "kfuse.yaml"

def read : Reader BuildPlan := fun anchored node => do
  let fs ← fields anchored node
  let resources ← field ["resources"] (list text) (some []) anchored fs
  let generators ← field ["generators"] (list text) (some []) anchored fs
  let transformers ← field ["transformers"] (list text) (some []) anchored fs
  let configurations ← field ["configurations"] (list text) (some []) anchored fs
  pure { resources, generators, transformers, configurations }

def load (w : Workspace) : Except Error BuildPlan := do
  match Yaml.Record.parse? read (← w.load fileName) with
  | some plan => return plan
  | none => throw .yaml

def loadResources (w : Workspace) (paths : List String) (s : Store) : Except Error Store :=
  (paths.forM fun path => Store.loadPath w.files (w.resolve path)).result s

/-- The plugin configurations of a file, which need not be documents. -/
def pluginConfigs (w : Workspace) (path : String) : Except Error (List Tree) := do
  match Yaml.parseStream? (← w.load path) with
  | some ts => return ts
  | none => throw .yaml

def configureAll {α : Type} (w : Workspace) (configure : Tree → Except Error α)
    (paths : List String) : Except Error (List α) := do
  return (← paths.mapM fun path => do (← pluginConfigs w path).mapM configure).flatten

def run (w : Workspace) : Except Error Store := do
  let plan ← load w
  let resources ← loadResources w plan.resources .empty
  let rules ← Reference.Rules.load w plan.configurations
  let generators ← configureAll w (Pipeline.configureGenerator w) plan.generators
  let transformers ← configureAll w (Pipeline.configureTransformer w) plan.transformers
  Pipeline.run w { generators, transformers, rules } resources

end BuildPlan

end Manifest
