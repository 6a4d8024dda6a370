import Manifest.FileTree
import Manifest.Tree.Basic

/-! A bundle is a map from relative paths to contents: a text, or a list of bytes.  A path that ends
in a slash is an empty directory. -/

namespace Manifest.FileTree

def placeBelow (directory : Place) (path : String) : Place :=
  directory ++ (FilePath.components path.toList).map String.ofList

def byte? : Tree → Option UInt8
  | .integer n => some (UInt8.ofNat n.toInt.toNat)
  | _ => none

def contents? : Tree → Option (List UInt8)
  | .text s => some s.toUTF8.toList
  | .list bytes => bytes.mapM byte?
  | _ => none

def addEntry (t : FileTree) (entry : String × Tree) : Option FileTree :=
  let place := placeBelow t.current entry.1
  if entry.1.toList.getLast? = some '/' then
    some { t with directories := t.directories ++ [place] }
  else do
    let bytes ← contents? entry.2
    some { t with files := t.files ++ [(place, bytes)] }

def ofBundle? (current : Place) (bundle : Tree) : Option FileTree := do
  let es ← bundle.entries?
  es.foldlM addEntry { directories := [current], current }

end Manifest.FileTree
