import Manifest.Config.Selection
import Manifest.FieldEdits
import Manifest.Reference.Named
import Manifest.Reference.RuleFile
import Manifest.Store

namespace Manifest

structure VariableExpansion where
  vars : List Reference.NamedValue
  rules : Reference.Rules

namespace VariableExpansion

open Config Reference

def kind : String := "SuperVars"

def fields? (es : Entries Tree) : Option (List NamedValue × List String) := do
  let vars ← withDefault "vars" (Decoder.list (Decoder.record NamedValue.ofFields?)) [] es
  let files ← withDefault "configurations" (Decoder.list .text) [] es
  some (vars, files)

def configure (w : Workspace) (config : Tree) : Except Error VariableExpansion :=
  match Decoder.record fields? config with
  | none => .error (.undecodable kind)
  | some (vars, files) => do return { vars, rules := ← Rules.load w files }

def referenced (v : NamedValue) (s : Store) : Except Error Document :=
  match s.documents.filter v.object.selects with
  | [d] => .ok d
  | [] =>
    .error (.missingTarget
      ("var " ++ v.name ++ " refers to " ++ v.object.display ++ ", which does not exist"))
  | ds => .error (.ambiguous v.object.display ds.length)

def value (v : NamedValue) (s : Store) : Except Error String := do
  let d ← referenced v s
  let path ← (FieldPath.parse v.field).mapError (.path v.field ·)
  match (← path.lookup d.tree).bind Tree.text? with
  | some text => return text
  | none =>
    throw (.missingTarget ("var " ++ v.name ++ " refers to field " ++ path.source ++ " of "
      ++ d.id.describe ++ ", which holds no value"))

/-- The values of all variables.  The last one of a name counts. -/
def values (vs : List NamedValue) (s : Store) : Except Error Variables :=
  vs.foldlM (fun acc v => do return Entries.insert v.name (← value v s) acc) []

def expandNode (vars : Variables) (t : Tree) : Tree :=
  (t.editTexts fun text => (expand? vars text.toList).map String.ofList).1

def transform (c : VariableExpansion) (s : Store) : Except Error Store := do
  let vars ← values c.vars s
  if vars = [] then return s
  else s.mapM (Document.editFields c.rules.expanded fun t => .ok (expandNode vars t))

end VariableExpansion

end Manifest
