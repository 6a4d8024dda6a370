import Manifest.Text.Split

/-! Paths are cleaned by their text alone: `.` is dropped, and `..` takes back the name before it.
Above the root there is nothing, and a relative path may start with `..`. -/

namespace Manifest.FilePath

def isAbsolute (path : List Char) : Bool := path.head? = some '/'

def components (path : List Char) : List (List Char) :=
  (Text.splitAll '/' path).filter fun c => c ≠ [] && c ≠ ['.']

def push (absolute : Bool) (stack : List (List Char)) (c : List Char) : List (List Char) :=
  if c = ['.', '.'] then
    match stack with
    | [] => if absolute then [] else [c]
    | top :: rest => if top = ['.', '.'] then c :: stack else rest
  else c :: stack

def cleanComponents (path : List Char) : List (List Char) :=
  ((components path).foldl (push (isAbsolute path)) []).reverse

def ofComponents (absolute : Bool) (cs : List (List Char)) : List Char :=
  if absolute then '/' :: Text.joinWith ['/'] cs
  else if cs = [] then ['.']
  else Text.joinWith ['/'] cs

/-- The path without `.` and without a `..` that has something to take back. -/
def clean (path : List Char) : List Char := ofComponents (isAbsolute path) (cleanComponents path)

def join (directory path : List Char) : List Char :=
  if isAbsolute path ∨ directory = [] then path
  else if directory.getLast? = some '/' then directory ++ path
  else directory ++ '/' :: path

def fileName? (path : List Char) : Option (List Char) :=
  match (components path).getLast? with
  | none => none
  | some c => if c = ['.', '.'] then none else some c

def extension? (name : List Char) : Option (List Char) :=
  match Text.splitLast? '.' name with
  | none => none
  | some (stem, ext) => if stem = [] then none else some ext

end Manifest.FilePath
