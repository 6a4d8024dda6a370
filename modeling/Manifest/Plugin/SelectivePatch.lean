import Manifest.Config.Selection
import Manifest.Loading

/-! A patch is merged into the documents that it selects.  Maps are merged key by key, and null
deletes a key.  Lists whose elements all have names are merged element by element.  Anything else is
replaced.  The identity of a document is never patched. -/

namespace Manifest

namespace Tree

def sameScalar : Tree → Tree → Bool
  | .null, .null => true
  | .boolean a, .boolean b => a = b
  | .integer a, .integer b => a = b
  | .decimal a, .decimal b => a.sameNumber b
  | .text a, .text b => a = b
  | _, _ => false

def elementName? (t : Tree) : Option Tree := (t.field? "name").filter isScalar

def keyedByName (items : List Tree) : Bool := items.all fun t => t.elementName?.isSome

def sameName (t u : Tree) : Bool :=
  match t.elementName?, u.elementName? with
  | some a, some b => a.sameScalar b
  | _, _ => false

def modifyFirst (p : Tree → Bool) (f : Tree → Tree) (new : Tree) : List Tree → List Tree
  | [] => [new]
  | t :: ts => if p t then f t :: ts else t :: modifyFirst p f new ts

mutual

def merge (patch target : Tree) : Tree :=
  match patch with
  | .map es =>
    match target with
    | .map target => .map (mergeEntries es target)
    | _ => .map es
  | .list items =>
    match target with
    | .list target =>
      if items ≠ [] ∧ keyedByName target ∧ keyedByName items then .list (mergeItems items target)
      else .list items
    | _ => .list items
  | patch => patch

def mergeEntries (patch : List (String × Tree)) (target : List (String × Tree)) :
    List (String × Tree) :=
  match patch with
  | [] => target
  | (key, value) :: es =>
    mergeEntries es
      (if value.isNull then Entries.erase key target
      else if Entries.has key target then Entries.modify key (merge value) target
      else target ++ [(key, value)])

def mergeItems (patch : List Tree) (target : List Tree) : List Tree :=
  match patch with
  | [] => target
  | item :: items => mergeItems items (modifyFirst (sameName item) (merge item) item target)

end

def withoutIdentity : Tree → Tree
  | .map es =>
    let es := Entries.erase "kind" (Entries.erase "apiVersion" es)
    match Entries.find? "metadata" es with
    | some (.map metadata) =>
      match Entries.erase "namespace" (Entries.erase "name" metadata) with
      | [] => .map (Entries.erase "metadata" es)
      | rest => .map (Entries.modify "metadata" (fun _ => .map rest) es)
    | _ => .map es
  | t => t

end Tree

structure Patch where
  target : Selector
  tree : Tree

namespace Patch

/-- The patch of a document; without a target it is for the document of the same identity. -/
def ofDocument (target : Option Selector) (d : Document) : Patch where
  target := target.getD { type := d.type, ns := d.ns, name := d.name }
  tree := d.tree.withoutIdentity

def apply (p : Patch) (s : Store) : Except Error Store := do
  let accepts ← p.target.matcher
  s.mapM fun d => if accepts d then d.replaceTree (p.tree.merge d.tree) else .ok d

end Patch

structure SelectivePatch where
  enabled : Bool
  patches : List Patch

namespace SelectivePatch

open Config

def kind : String := "SelectivePatch"

structure Source where
  path : String
  text : String
  target : Option Selector

def Source.ofFields? (es : Entries Tree) : Option Source := do
  let path ← textField "path" es
  let text ← textField "patch" es
  let target ← withDefault "target"
    (Decoder.optional (Decoder.record Selector.ofFields?)) none es
  some { path, text, target }

def fields? (es : Entries Tree) : Option (Bool × List Source) := do
  let enabled ← withDefault "enabled" .boolean false es
  let sources ← withDefault "patches" (Decoder.list (Decoder.record Source.ofFields?)) [] es
  some (enabled, sources)

def Source.read (w : Workspace) (src : Source) : Except Error String :=
  if src.path ≠ "" ∧ src.text = "" then w.load src.path
  else if src.path = "" ∧ src.text ≠ "" then .ok src.text
  else .error (.configuration kind "every patch needs exactly one of path or patch")

def Source.patches (w : Workspace) (src : Source) : Except Error (List Patch) := do
  let store ← Store.parse (← src.read w)
  return store.documents.map (Patch.ofDocument src.target)

def configure (w : Workspace) (config : Tree) : Except Error SelectivePatch :=
  match Decoder.record fields? config with
  | none => .error (.undecodable kind)
  | some (enabled, sources) => do
    return { enabled, patches := (← sources.mapM (Source.patches w)).flatten }

def transform (c : SelectivePatch) (s : Store) : Except Error Store :=
  if c.enabled then c.patches.foldlM (fun s p => p.apply s) s else .ok s

end SelectivePatch

end Manifest
