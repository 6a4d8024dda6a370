import Manifest.Config.Selection
import Manifest.FieldEdits
import Manifest.FileTree
import Manifest.Store

namespace Manifest

structure FullPath where
  specs : List FieldSpec

namespace FullPath

open Config

def kind : String := "FullPath"

def configure (config : Tree) : Except Error FullPath :=
  match Decoder.record (withDefault "fieldSpecs"
      (Decoder.list (Decoder.record FieldSpec.ofFields?)) []) config with
  | none => .error (.undecodable kind)
  | some specs => .ok { specs }

def resolveNode (w : Workspace) : Tree → Tree
  | .text path =>
    if path = "" ∨ FilePath.isAbsolute path.toList then .text path else .text (w.resolve path)
  | t => t

def transform (w : Workspace) (c : FullPath) (s : Store) : Except Error Store :=
  s.mapM (Document.editFields c.specs fun t => .ok (resolveNode w t))

end FullPath

end Manifest
