import Manifest.Build
import Manifest.Json.Writer

namespace Manifest.CommandLine

inductive OutputFormat where
  | yaml
  | json
  deriving DecidableEq

inductive Command where
  | build (directory : Option String) (format : OutputFormat)
  | plugins

structure Invocation where
  directories : List String
  command : Command

inductive OptionName where
  | directory
  | outputFormat
  deriving DecidableEq

inductive Argument where
  | option (name : OptionName) (value : Option String)
  | separator
  | word (text : String)
  | unknown

def attached? : List Char → Option String
  | [] => none
  | '=' :: cs => some (String.ofList cs)
  | cs => some (String.ofList cs)

def longOption (cs : List Char) : Argument :=
  let (name, value) := cs.span (· ≠ '=')
  if name = "directory".toList then .option .directory (attached? value)
  else if name = "output-format".toList then .option .outputFormat (attached? value)
  else .unknown

def shortOption : List Char → Argument
  | 'C' :: cs => .option .directory (attached? cs)
  | 'F' :: cs => .option .outputFormat (attached? cs)
  | _ => .unknown

def Argument.ofString (s : String) : Argument :=
  match s.toList with
  | ['-', '-'] => .separator
  | '-' :: '-' :: cs => longOption cs
  | ['-'] => .word s
  | '-' :: cs => shortOption cs
  | _ => .word s

def optionValue (value : Option String) (rest : List String) : Option (String × List String) :=
  match value, rest with
  | some v, rest => some (v, rest)
  | none, next :: rest =>
    match Argument.ofString next with
    | .word v => some (v, rest)
    | _ => none
  | none, [] => none

structure Level where
  directories : List String := []
  format : Option OutputFormat := none
  words : List String := []

namespace Level

def format? (value : String) : Option OutputFormat :=
  if value = "json" then some .json else if value = "yaml" then some .yaml else none

def addOption (l : Level) (name : OptionName) (value : String) : Option Level :=
  match name with
  | .directory =>
    if value = "" then none else some { l with directories := l.directories ++ [value] }
  | .outputFormat => do
    let format ← format? value
    if l.format.isSome then none else some { l with format := some format }

def addWord (l : Level) (word : String) : Level := { l with words := l.words ++ [word] }

/-- Reads the arguments of a command.  With `nested`, the first word names a command inside it, and
the arguments from there on are left. -/
def read (nested : Bool) : Nat → Level → List String → Option (Level × List String)
  | 0, _, _ => none
  | _, l, [] => some (l, [])
  | fuel + 1, l, arg :: rest =>
    match Argument.ofString arg with
    | .option name value => do
      let (value, rest) ← optionValue value rest
      read nested fuel (← l.addOption name value) rest
    | .separator => if nested then none else some (rest.foldl addWord l, [])
    | .word text => if nested then some (l, arg :: rest) else read nested fuel (l.addWord text) rest
    | .unknown => none

def withoutFormat (l : Level) : Option Level := if l.format.isSome then none else some l

end Level

def innermost (levels : List Level) : List String :=
  ((levels.reverse.map Level.directories).find? (· ≠ [])).getD []

def readBuild (outer : Level) (args : List String) : Option Invocation := do
  let (l, _) ← Level.read false (args.length + 1) {} args
  let directory ← match l.words with
    | [] => some none
    | [""] => none
    | [word] => some (some word)
    | _ => none
  some { directories := innermost [outer, l]
         command := .build directory (l.format.getD .yaml) }

def readDev (outer : Level) (args : List String) : Option Invocation := do
  let (dev, rest) ← Level.read true (args.length + 1) {} args
  let dev ← dev.withoutFormat
  match rest with
  | "plugins" :: args => do
    let (l, _) ← Level.read false (args.length + 1) {} args
    let l ← l.withoutFormat
    if l.words = [] then some { directories := innermost [outer, dev, l], command := .plugins }
    else none
  | _ => none

def readArguments (args : List String) : Option Invocation := do
  let (outer, rest) ← Level.read true (args.length + 1) {} args
  let outer ← outer.withoutFormat
  match rest with
  | "build" :: args => readBuild outer args
  | "dev" :: args => readDev outer args
  | _ => none

structure Outcome where
  exit : Nat := 0
  output : String := ""
  errors : String := ""

def failed (message : String) : Outcome := { exit := 1, errors := message ++ "\n" }

def refused : Outcome := { exit := 2 }

def absolutePath (place : Place) : String := "/" ++ "/".intercalate place

def changeDirectory (files : FileTree) (path : String) : Except String FileTree :=
  match files.resolve? path with
  | none => .error ("Failed to resolve path for -C/--directory " ++ path)
  | some place =>
    if files.isDirectory place then .ok (files.changeDirectory place)
    else .error ("Failed to set work directory to " ++ absolutePath place)

def write (format : OutputFormat) (s : Store) : String :=
  match format with
  | .yaml => s.toYaml
  | .json => String.ofList (Json.writeIndented 0 s.toTree ++ ['\n'])

def pluginList : String :=
  String.join (Generator.kinds.map (fun k => "generator   " ++ k ++ "\n")
    ++ Transformer.kinds.map fun k => "transformer " ++ k ++ "\n")

def runCommand (files : FileTree) (environment : List (String × String)) : Command → Outcome
  | .plugins => { output := pluginList }
  | .build directory format =>
    let root := directory.getD (absolutePath files.current)
    match BuildPlan.run { root, files, environment } with
    | .ok s => { output := write format s }
    | .error e => failed e.message

def run (files : FileTree) (environment : List (String × String)) (args : List String) : Outcome :=
  match readArguments args with
  | none => refused
  | some invocation =>
    match invocation.directories.foldlM changeDirectory files with
    | .error message => failed message
    | .ok files => runCommand files environment invocation.command

end Manifest.CommandLine
