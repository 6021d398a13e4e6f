import DialectBuild.Clock
import DialectBuild.Path

/-!
# Console

The log that a build writes for the person at the terminal. Each line starts with the time
since the log was started, which happens at the latest when the first line is written. Some
lines are only for those who want details. What the log is written to takes every text, so writing
to it never fails.

## Main definitions

* `Console`: What has been written, and what decides how the next line looks.
* `Console.print`: Writing one line.
* `Console.write`: Writing without a time stamp.
* `Console.log`, `Console.phase`, `Console.detail`, `Console.unit`: The kinds of lines.
* `Activity`: An operation whose start and duration are shown.
-/

namespace DialectBuild

/-- The log of a build. -/
structure Console where
  /-- When the log was started. -/
  started : Option Rat := none
  /-- What the clock shows. -/
  now : Rat := 0
  /-- Whether lines with details are written. -/
  verbose : Bool := true
  /-- What has been written. -/
  written : Text := []
  deriving DecidableEq, Inhabited

namespace Console

/-- Starts the log anew. -/
def restart (c : Console) : Console :=
  { c with started := some c.now }

/-- Starts the log unless it is started. -/
def ensureStarted (c : Console) : Console :=
  match c.started with
  | some _ => c
  | none => c.restart

/-- The time stamp of a line written now. -/
def stamp (c : Console) : Text :=
  Clock.stamp (Clock.elapsed (c.started.getD c.now) c.now)

/-- Writes a line. -/
def print (c : Console) (message : Text) : Console :=
  let c := c.ensureStarted
  { c with written := c.written ++ c.stamp ++ " " ++ message ++ "\n" }

/-- Writes a text as it is, without a time stamp. -/
def write (c : Console) (t : Text) : Console :=
  { c with written := c.written ++ t }

/-- Writes a line, which is a detail if `detailed` says so. -/
def log (c : Console) (message : Text) (detailed : Bool := false) : Console :=
  if detailed && !c.verbose then c else c.print message

/-- Writes which phase of how many starts. -/
def phase (c : Console) (number total : Int) (message : Text) (detailed : Bool := false) :
    Console :=
  c.log ("[" ++ Text.ofInt number ++ "/" ++ Text.ofInt total ++ "] " ++ message) detailed

/-- Writes an indented line. -/
def detail (c : Console) (message : Text) (indent : Int := 6) (detailed : Bool := false) :
    Console :=
  c.log (List.replicate indent.toNat (.char ' ') ++ message) detailed

/-- Writes that a unit passes a stage. -/
def unit (c : Console) (stage name note : Text) (detailed : Bool := true) : Console :=
  let note : Text := if note.isEmpty then [] else " " ++ note
  c.log ("      [" ++ stage ++ "] " ++ name ++ note) detailed

/-- Writes the name and the version of a program. -/
def title (c : Console) (name version : Text) : Console :=
  c.print (name ++ " v" ++ version)

/-- Writes an error. -/
def error (c : Console) (message : Text) : Console :=
  c.print ("ERROR: " ++ message)

/-- Writes a warning. -/
def warning (c : Console) (message : Text) : Console :=
  c.print ("WARNING: " ++ message)

/-- Writes where the program is that was built. -/
def binary (c : Console) (p : Path) (detailed : Bool := false) : Console :=
  c.detail ("Binary: " ++ p.text) 6 detailed

/-- Writes how long the build took. -/
def complete (c : Console) (seconds : Rat) (detailed : Bool := false) : Console :=
  c.log ("Build time: " ++ Clock.fixed seconds ++ "s") detailed

end Console

/-- An operation whose start and duration the log shows. -/
structure Activity where
  /-- What is done. -/
  label : Text
  /-- Which phase of how many it is. -/
  phase : Option (Int × Int) := none
  /-- Whether its start is a detail. -/
  detailed : Bool := false
  /-- When it started. -/
  started : Rat := 0
  deriving DecidableEq, Inhabited

namespace Activity

/-- Starts an operation. -/
def enter (a : Activity) (c : Console) : Activity × Console :=
  let message := a.label ++ "..."
  let c' := match a.phase with
    | some (number, total) => c.phase number total message a.detailed
    | none => c.log message a.detailed
  ({ a with started := c.now }, c')

/-- Ends an operation. Its duration is only shown if it succeeded. -/
def leave (a : Activity) (failed : Bool) (c : Console) : Console :=
  if failed then c
  else c.detail ("Done (" ++ Clock.fixed (Clock.elapsed a.started c.now) ++ "s)") 6 true

end Activity

end DialectBuild
