import Manifest.CommandLine
import Manifest.FileBundle
import Manifest.Json.Reader

/-! The files of a build come as one bundle on standard input, in JSON, and the program reads
nothing else.  They stand below the root directory, which is also the work directory. -/

open Manifest

def main (args : List String) : IO UInt32 := do
  let input ← (← IO.getStdin).readToEnd
  match (Json.parse? input).bind (FileTree.ofBundle? []) with
  | none =>
    (← IO.getStderr).putStr "no bundle of files on standard input\n"
    return 1
  | some files =>
    let outcome := CommandLine.run files [] args
    (← IO.getStdout).putStr outcome.output
    (← IO.getStderr).putStr outcome.errors
    return UInt32.ofNat outcome.exit
