import DialectBuild.CommandLine.Run
import DialectBuild.Shell.Tools

/-!
# The Program

Runs the program on what is below the working directory. The files are read first, the command
is run on them, and what has changed is written back. Tools are run by the shell of this
library, and the clock stands still.

## Main definitions

* `Disk.load`: What is below the working directory.
* `Disk.store`: Writing back what has changed.
* `main`: The program.
-/

namespace DialectBuild

namespace Disk

/-- The place that an absolute path names. -/
def placeOf (path : String) : Place :=
  (Path.ofText (Text.ofString path)).parts

/-- The absolute path of a place. -/
def pathOf (place : Place) : String :=
  let symbols := (Files.absolutePath place).text
  String.ofList (symbols.filterMap fun s => match s with
    | .char c => some c
    | .byte _ => none)

/-- A tree with directories that lead to a place. -/
def treeTo (place : Place) : Tree :=
  (List.range place.length).foldl (fun t n => t.insert (place.take (n + 1)) .dir) Tree.empty

/-- What is below the working directory. -/
def load : IO Files := do
  let here ← IO.FS.realPath "."
  let home := placeOf here.toString
  let mut tree := treeTo home
  for p in ← here.walkDir do
    let entry ← if ← p.isDir then
        pure Entry.dir
      else do
        pure (Entry.file (← IO.FS.readBinFile p).toList)
    tree := tree.insert (placeOf p.toString) entry
  return ⟨tree, home⟩

/-- Writes an entry back. -/
def storeEntry (place : Place) : Entry → IO Unit
  | .dir => IO.FS.createDirAll (pathOf place)
  | .file content => IO.FS.writeBinFile (pathOf place) ⟨content.toArray⟩
  | .link _ => pure ()

/-- Writes back what has changed, directories before what is in them. -/
def store (old new : Files) : IO Unit := do
  for place in Tree.removals old.tree new.tree old.home do
    IO.FS.removeFile (pathOf place)
  let changes := Tree.changes old.tree new.tree old.home
  for (place, entry) in changes.mergeSort fun a b => a.1.length ≤ b.1.length do
    storeEntry place entry

end Disk

/-- The variables that a build looks at. -/
def relevantVariables : List String :=
  ["CC", "CFLAGS", "LDFLAGS", "CZ_BIN"]

/-- The values of the variables that a build looks at. -/
def currentEnvironment : IO Environment := do
  let values ← relevantVariables.mapM fun name => do
    return (← IO.getEnv name).map fun v => (Text.ofString name, Text.ofString v)
  return values.filterMap id

/-- Prints a text as the bytes that it stands for. -/
def printText (stream : IO.FS.Stream) (t : Text) : IO Unit :=
  stream.write ⟨(Encoding.encode t).toArray⟩

end DialectBuild

open DialectBuild in
/-- Runs the program on its command line. -/
def main (arguments : List String) : IO UInt32 := do
  let files ← Disk.load
  let environment ← currentEnvironment
  let workspace : Workspace := { files := files, tools := Tools.shell }
  match runProgram environment (arguments.map Text.ofString) workspace with
  | .ok outcome after =>
      Disk.store files after.files
      printText (← IO.getStdout) outcome.stdout
      printText (← IO.getStderr) outcome.stderr
      return UInt32.ofNat outcome.exitCode.number
  | .error e after =>
      Disk.store files after.files
      printText (← IO.getStderr) (e.className ++ ": " ++ e.message ++ "\n")
      return UInt32.ofNat ExitCode.unexpected.number
