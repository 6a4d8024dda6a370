import Manifest.Plugin.FullPath
import Manifest.Plugin.ImageTag
import Manifest.Plugin.LayeredMap
import Manifest.Plugin.SearchReplace
import Manifest.Plugin.SelectivePatch
import Manifest.Plugin.Variables

namespace Manifest

inductive Generator where
  | map (r : MapRecipe)
  | layeredMap (m : LayeredMap)

inductive Transformer where
  | layeredMap (m : LayeredMap)
  | searchReplace (c : SearchReplace)
  | fullPath (c : FullPath)
  | expansion (c : VariableExpansion)
  | patches (c : SelectivePatch)
  | images (c : ImageUpdate)

namespace Generator

def catalog : Entries (Workspace → Tree → Except Error Generator) :=
  [("ConfigMapGenerator", fun _ c => (MapRecipe.configure .configMap c).map .map),
    ("SecretGenerator", fun _ c => (MapRecipe.configure .secret c).map .map),
    ("SuperConfigMap", fun w c => (LayeredMap.configure w .configMap c).map .layeredMap),
    ("SuperSecret", fun w c => (LayeredMap.configure w .secret c).map .layeredMap)]

def kinds : List String := Entries.keys catalog

def configure (w : Workspace) (kind : String) (config : Tree) : Except Error Generator :=
  match Entries.find? kind catalog with
  | some read => read w config
  | none => .error (.configuration kind "no generator registered for this kind")

def generate (w : Workspace) : Generator → Except Error Document
  | map r => r.generate w
  | layeredMap m => m.recipe.generate w

end Generator

namespace Transformer

def catalog : Entries (Workspace → Tree → Except Error Transformer) :=
  [("SuperConfigMap", fun w c => (LayeredMap.configure w .configMap c).map .layeredMap),
    ("SuperSecret", fun w c => (LayeredMap.configure w .secret c).map .layeredMap),
    (SearchReplace.kind, fun _ c => (SearchReplace.configure c).map .searchReplace),
    (FullPath.kind, fun _ c => (FullPath.configure c).map .fullPath),
    (VariableExpansion.kind, fun w c => (VariableExpansion.configure w c).map .expansion),
    (SelectivePatch.kind, fun w c => (SelectivePatch.configure w c).map .patches),
    (ImageUpdate.kind, fun _ c => (ImageUpdate.configure c).map .images)]

def kinds : List String := Entries.keys catalog

def configure (w : Workspace) (kind : String) (config : Tree) : Except Error Transformer :=
  match Entries.find? kind catalog with
  | some read => read w config
  | none => .error (.configuration kind "no transformer registered for this kind")

def transform (w : Workspace) : Transformer → Store → Except Error Store
  | layeredMap m => m.transform w
  | searchReplace c => c.transform w
  | fullPath c => c.transform w
  | expansion c => c.transform
  | patches c => c.transform
  | images c => c.transform

end Transformer

end Manifest
