import DialectBuild.Console
import DialectBuild.Notice
import DialectBuild.Tool.Basic
import DialectBuild.Unit.Artifact
import DialectBuild.Files.Operations

/-!
# Workspace

Everything that a build acts on: the files, the tools, the console, the notices given and the
tools run so far. An action may fail, and what it did before it failed stays done. Nothing else
acts on the files meanwhile.

## Main definitions

* `Workspace`: What a build acts on.
* `writeAtomic`: Writing a file so that it is never seen half written.
* `Workspace.notify`, `Workspace.say`: Giving a notice and writing to the console.
* `Workspace.enter`, `Workspace.leave`: Showing an activity.
* `Workspace.callTool`: Running a tool.
-/

namespace DialectBuild

/-- Writes a file by way of a temporary one next to it. If the file system fails, the temporary
    one is removed. -/
def writeAtomic (p : Path) (t : Text) : FileAction Unit := do
  let temporary ← Action.ofExcept (temporaryFor p)
  let move : FileAction Unit := do
    FileAction.change (·.write temporary (Encoding.encode t))
    FileAction.change (·.rename temporary p)
  move.onOsError fun e => do
    FileAction.change (·.unlinkIfPresent temporary)
    throw (.os e)

/-- What a build acts on. -/
structure Workspace where
  /-- What is on disk. -/
  files : Files
  /-- What happens when a tool is run. -/
  tools : Tools
  /-- The log for the person at the terminal. -/
  console : Console := {}
  /-- The notices given so far. -/
  notices : List Notice := []
  /-- The tools run so far. -/
  runs : List ToolRun := []
  deriving Inhabited

namespace Workspace

/-- An action on the files of a workspace. -/
def onFiles {α : Type} (a : FileAction α) : Action Workspace α := fun w =>
  match a w.files with
  | .ok x f => .ok x { w with files := f }
  | .error e f => .error e { w with files := f }

instance : MonadLift (EStateM Failure Files) (EStateM Failure Workspace) := ⟨onFiles⟩

/-- Gives a notice. -/
def notify (n : Notice) : Action Workspace Unit :=
  modify fun w => { w with notices := w.notices ++ [n] }

/-- Gives several notices. -/
def notifyAll (ns : List Notice) : Action Workspace Unit :=
  modify fun w => { w with notices := w.notices ++ ns }

/-- Writes to the console. -/
def say (f : Console → Console) : Action Workspace Unit :=
  modify fun w => { w with console := f w.console }

/-- Starts an activity that the console shows. -/
def enter (a : Activity) : Action Workspace Activity := do
  let (a, console) := a.enter (← get).console
  say fun _ => console
  return a

/-- Ends an activity that went well. -/
def leave (a : Activity) : Action Workspace Unit :=
  say (a.leave false)

/-- Runs a tool. -/
def callTool (call : ToolCall) : Action Workspace ToolReport := do
  let w ← get
  if w.tools.announced then
    notify (.debug .tools ("Running: " ++ ShellWords.join call.command))
  let (outcome, files) := w.tools.run call w.files
  -- The run is recorded before its outcome is looked at, so failed ones count, too.
  modify fun v => { v with files := files, runs := v.runs ++ [⟨call, w.files, outcome⟩] }
  let toolExit ← Action.ofExcept outcome
  return { toolExit with command := call.command }

end Workspace

end DialectBuild
