import Manifest.FileTree
import Manifest.Store
import Manifest.Yaml.Writer
import Manifest.Yaml.Value

namespace Manifest.Store

def parse (s : String) : Except Error Store :=
  (Yaml.stream s).foldlM (fun store t =>
    match t with
    | none => .error .yaml
    | some .null => .ok store
    | some t => do store.appended (← Document.ofTree t)) empty

def toYaml (s : Store) : String := Yaml.renderAll (s.documents.map Document.tree)

def loadFile (files : FileTree) (path : String) : InPlace Store Id Unit := do
  match files.read? path with
  | none => throw (.load path)
  | some text => appendAll (← parse text).documents

def loadFiles (files : FileTree) (paths : List String) : InPlace Store Id Unit :=
  paths.forM (loadFile files)

def isManifestName (name : String) : Bool :=
  match FilePath.extension? name.toList with
  | some ext => ext = "yaml".toList || ext = "yml".toList
  | none => false

/-- Adds the documents of all manifests in a directory, one file after the other in the order of
their names. -/
def loadDirectory (files : FileTree) (path : String) : InPlace Store Id Unit := do
  match files.resolve? path with
  | none => throw (.load path)
  | some place =>
    if files.isDirectory place then
      let names := (files.filesIn place).filter isManifestName
      let paths := names.map fun n => String.ofList (FilePath.join path.toList n.toList)
      loadFiles files paths
    else throw (.load path)

def loadPath (files : FileTree) (path : String) : InPlace Store Id Unit :=
  if files.isDirectoryPath path then loadDirectory files path else loadFile files path

end Manifest.Store
