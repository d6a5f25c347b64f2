/-
The command line.

The options are those of `Arguments`.  The files that the run may look at are named on standard
input, one a line; the run itself is `Arguments.outputs`, and here its results are written.
-/

import GoApiDoc.CommandLine.Run

set_option autoImplicit false

namespace GoApiDoc

/-- The lines of a stream. -/
partial def streamLines (stream : IO.FS.Stream) : IO (List String) := do
  let line ← stream.getLine
  if line.isEmpty then return []
  return Text.trim line :: (← streamLines stream)

def readDisk (names : List String) : IO Disk :=
  names.foldlM (fun (disk : Disk) (name : String) => do
    try return disk.addFile name (← IO.FS.readFile name)
    catch _ => return disk) {}

def writeOutput (path text : String) : IO Unit := do
  IO.FS.createDirAll (Path.dirText path)
  IO.FS.writeFile path text

/-- Runs the program; the result is the exit code. -/
def runProgram (arguments : List String) : IO UInt32 := do
  match Arguments.parse arguments with
  | .error .help => IO.println UsageError.help.message; return 0
  | .error .version => IO.println UsageError.version.message; return 0
  | .error e => IO.eprintln ("error: " ++ e.message); return 2
  | .ok a =>
    let disk ← readDisk (← streamLines (← IO.getStdin))
    match a.outputs disk (← IO.getEnv "GOROOT") with
    | .error e => IO.eprintln ("Error: " ++ e.message); return 1
    | .ok files =>
      files.forM fun (path, text) => writeOutput path text
      return 0

end GoApiDoc

def main (arguments : List String) : IO UInt32 := GoApiDoc.runProgram arguments
