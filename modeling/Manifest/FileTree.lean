import Manifest.Error
import Manifest.FilePath

namespace Manifest

abbrev Place := List String

structure FileTree where
  files : List (Place × List UInt8) := []
  directories : List Place := []
  current : Place := []

namespace FileTree

def file? (place : Place) (t : FileTree) : Option (List UInt8) :=
  (t.files.find? fun f => f.1 = place).map Prod.snd

def isDirectory (place : Place) (t : FileTree) : Bool :=
  place.isPrefixOf t.current
    || t.directories.any (place.isPrefixOf ·)
    || t.files.any fun f => f.1 ≠ place && place.isPrefixOf f.1

def enter (t : FileTree) (place : Place) (component : String) : Option Place :=
  if !t.isDirectory place then none
  else if component = ".." then some place.dropLast
  else
    let next := place ++ [component]
    if t.isDirectory next || (t.file? next).isSome then some next else none

/-- The place of a path, if there is a file or a directory.  A path that ends
in a slash or in `.` asks for a directory. -/
def resolve? (path : String) (t : FileTree) : Option Place :=
  let cs := path.toList
  if cs = [] then none
  else do
    let start := if FilePath.isAbsolute cs then [] else t.current
    let place ← ((FilePath.components cs).map String.ofList).foldlM t.enter start
    let last := (Text.splitAll '/' cs).getLast?
    let needsDirectory := last = some [] || last = some ['.']
    if needsDirectory && !t.isDirectory place then none else some place

def read? (path : String) (t : FileTree) : Option String := do
  let place ← t.resolve? path
  let bytes ← t.file? place
  String.fromUTF8? ⟨bytes.toArray⟩

def isDirectoryPath (path : String) (t : FileTree) : Bool :=
  ((t.resolve? path).map fun place => t.isDirectory place).getD false

def filesIn (place : Place) (t : FileTree) : List String :=
  let names := t.files.filterMap fun f =>
    if f.1.dropLast = place ∧ f.1 ≠ [] then f.1.getLast? else none
  names.mergeSort fun a b => decide (a ≤ b)

def changeDirectory (place : Place) (t : FileTree) : FileTree := { t with current := place }

end FileTree

structure Workspace where
  root : String
  files : FileTree
  environment : List (String × String) := []

namespace Workspace

def resolve (w : Workspace) (path : String) : String :=
  String.ofList (FilePath.clean (FilePath.join w.root.toList path.toList))

def load (w : Workspace) (path : String) : Except Error String :=
  match w.files.read? (w.resolve path) with
  | some text => .ok text
  | none => .error (.load (w.resolve path))

def environmentValue (w : Workspace) (name : String) : String :=
  ((w.environment.find? fun v => v.1 = name).map Prod.snd).getD ""

end Workspace

end Manifest
