import Manifest.Plugin.Catalog

/-! A run has three steps: all generators, one repair of the references to generated documents, and
all transformers.  Identities are checked after every transformer, and the first error ends the run.
-/

namespace Manifest

structure Pipeline where
  generators : List Generator
  transformers : List Transformer
  rules : Reference.Rules := .builtin

namespace Pipeline

def pluginKind (config : Tree) : Except Error String :=
  match (config.field? "kind").bind Tree.string? with
  | some kind => .ok kind
  | none => .error (.invalidDocument "plugin configuration without kind")

def configureGenerator (w : Workspace) (config : Tree) : Except Error Generator := do
  Generator.configure w (← pluginKind config) config

def configureTransformer (w : Workspace) (config : Tree) : Except Error Transformer := do
  Transformer.configure w (← pluginKind config) config

def generateAll (w : Workspace) (gs : List Generator) (s : Store) : Except Error Store :=
  gs.foldlM (fun s g => do s.appendedAll [← g.generate w]) s

/-- The renames from the first to the current names of all renamed documents. -/
def pastRenames (s : Store) : List Reference.Rename :=
  (s.documents.filter fun d => d.previous ≠ []).map fun d => ⟨d.firstId, d.name⟩

def step (w : Workspace) (s : Store) (t : Transformer) : Except Error Store := do
  let s ← t.transform w s
  s.ensureUnique
  return s

def run (w : Workspace) (p : Pipeline) (s : Store) : Except Error Store := do
  let s ← generateAll w p.generators s
  let (s, _) ← Reference.repair p.rules (pastRenames s) s
  p.transformers.foldlM (step w) s

end Pipeline

end Manifest
