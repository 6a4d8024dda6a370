import Manifest.Config.Selection
import Manifest.FieldEdits
import Manifest.Store

/-! An image reference is a name, followed by `@` and a digest or by `:` and a tag.  The images with
one name get another name, tag or digest: in all lists of containers, and then in the fields that
are named. -/

namespace Manifest

structure ImageTag where
  name : String
  newName : String := ""
  newTag : String := ""
  digest : String := ""

namespace ImageTag

def spanBefore (c : Char) (cs : List Char) : List Char × List Char := cs.span (· ≠ c)

/-- Cuts a reference behind its name.  A colon counts only behind the last slash. -/
def split (image : List Char) : List Char × List Char :=
  if image.contains '@' then spanBefore '@' image
  else
    match Text.splitLast? '/' image with
    | none => spanBefore ':' image
    | some (directory, last) =>
      let (name, rest) := spanBefore ':' last
      (directory ++ '/' :: name, rest)

def render (t : ImageTag) (name rest : String) : String :=
  (if t.newName = "" then name else t.newName)
    ++ if t.digest ≠ "" then "@" ++ t.digest
      else if t.newTag ≠ "" then ":" ++ t.newTag
      else rest

def update? (t : ImageTag) (image : String) : Option String :=
  let (name, rest) := split image.toList
  if String.ofList name = t.name then some (t.render t.name (String.ofList rest)) else none

/-- Updates a field.  One that was just added gets the complete reference. -/
def updateNode (t : ImageTag) : Tree → Tree
  | .text image => .text ((t.update? image).getD image)
  | .null => .text (t.render t.name "")
  | node => node

def containerLists : List String := ["containers", "initContainers"]

def updateContainer (t : ImageTag) (node : Tree) : Tree × Nat :=
  match node with
  | .map es =>
    match Entries.find? "image" es with
    | some (.text image) =>
      match t.update? image with
      | some new => (.map (Entries.modify "image" (fun _ => .text new) es), 1)
      | none => (node, 0)
    | _ => (node, 0)
  | _ => (node, 0)

mutual

def updateContainers (t : ImageTag) : Tree → Tree × Nat
  | .list items =>
    let (items, n) := updateItems t false items
    (.list items, n)
  | .map es =>
    let (es, n) := updateEntries t es
    (.map es, n)
  | node => (node, 0)

def updateItems (t : ImageTag) (containers : Bool) : List Tree → List Tree × Nat
  | [] => ([], 0)
  | node :: nodes =>
    let (node, k) := updateContainers t node
    let (node, m) := if containers then t.updateContainer node else (node, 0)
    let (nodes, n) := updateItems t containers nodes
    (node :: nodes, k + m + n)

def updateEntries (t : ImageTag) : List (String × Tree) → List (String × Tree) × Nat
  | [] => ([], 0)
  | (key, node) :: es =>
    let (node, m) := match node with
      | .list items =>
        let (items, m) := updateItems t (containerLists.contains key) items
        (.list items, m)
      | node => updateContainers t node
    let (es, n) := updateEntries t es
    ((key, node) :: es, m + n)

end

end ImageTag

structure ImageUpdate where
  image : ImageTag
  specs : List FieldSpec

namespace ImageUpdate

open Config

def kind : String := "ImageTagTransformer"

def image? (es : Entries Tree) : Option ImageTag := do
  let name ← textField "name" es
  let newName ← textField "newName" es
  let newTag ← textField "newTag" es
  let digest ← textField "digest" es
  some { name, newName, newTag, digest }

def fields? (es : Entries Tree) : Option ImageUpdate := do
  let image ← withDefault "imageTag" (Decoder.record image?) { name := "" } es
  let specs ← withDefault "fieldSpecs" (Decoder.list (Decoder.record FieldSpec.ofFields?)) [] es
  some { image, specs }

def configure (config : Tree) : Except Error ImageUpdate :=
  match Decoder.record fields? config with
  | none => .error (.undecodable kind)
  | some c =>
    if c.image.name = "" then .error (.configuration kind "imageTag.name is required") else .ok c

def transform (c : ImageUpdate) (s : Store) : Except Error Store :=
  s.mapM fun d =>
    Document.editFields c.specs (fun t => .ok (c.image.updateNode t))
      { d with tree := (c.image.updateContainers d.tree).1 }

end ImageUpdate

end Manifest
