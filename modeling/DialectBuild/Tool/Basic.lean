import DialectBuild.Files.Walk
import DialectBuild.Text.ShellWords

/-!
# Tools

The programs that a build runs: the transpiler, the compiler and the linker. What they do is
given from outside, as a function of the call and of the files it finds. A tool ends with a
status and with what it printed, or it cannot be run at all.

## Main definitions

* `ToolRole`: What a tool is run for.
* `ToolCall`: A command to run.
* `ToolExit`: How a tool ended.
* `Tools`: What happens when a tool is run.
* `ToolRun`: A tool that was run, with the files it found.
* `ToolReport`: A command and how it ended.
-/

namespace DialectBuild

/-- What a tool is run for. -/
inductive ToolRole where
  | transpile
  | compile
  | link
  deriving DecidableEq, Inhabited, Repr

/-- A command to run. -/
structure ToolCall where
  /-- What it is run for. -/
  role : ToolRole
  /-- The program and its arguments. -/
  command : List Text
  /-- How many seconds it may take. -/
  limit : Option Nat := none
  deriving DecidableEq, Inhabited, Repr

/-- How a tool ended. -/
structure ToolExit where
  /-- Its status, which is zero if all went well. -/
  status : Int
  /-- What it printed as its result. -/
  stdout : Text
  /-- What it printed as messages. -/
  stderr : Text
  deriving DecidableEq, Inhabited, Repr

/-- What happens when a tool is run: how it ends, or why it cannot be run, and the files it
    leaves. -/
structure Tools where
  /-- Runs a tool. -/
  run : ToolCall → Files → Except Failure ToolExit × Files
  /-- Whether a notice is given of each run. -/
  announced : Bool := false

instance : Inhabited Tools := ⟨⟨fun _ f => (.ok ⟨0, [], []⟩, f), false⟩⟩

/-- A tool that was run: the call, the files it found, and how it ended, or why it could not be
    run. -/
structure ToolRun where
  /-- The call. -/
  call : ToolCall
  /-- The files before the run. -/
  found : Files
  /-- How the run ended. -/
  outcome : Except Failure ToolExit

/-- Whether a run came to an end with the status of success. -/
def ToolRun.isOk (r : ToolRun) : Bool :=
  match r.outcome with
  | .ok e => e.status == 0
  | .error _ => false

/-- A command and how it ended. -/
structure ToolReport extends ToolExit where
  /-- The program and its arguments. -/
  command : List Text
  deriving DecidableEq, Inhabited, Repr

namespace ToolReport

/-- Whether all went well. -/
def isOk (r : ToolReport) : Bool :=
  r.status == 0

/-- What the tool printed, messages first. -/
def output (r : ToolReport) : Text :=
  r.stderr ++ r.stdout

/-- The command as a line. -/
def commandText (r : ToolReport) : Text :=
  ShellWords.join r.command

end ToolReport

end DialectBuild
