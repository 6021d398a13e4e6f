import DialectBuild.Shell.Run
import DialectBuild.Text.Line
import DialectBuild.Tool.Basic

/-!
# Tools in a Shell

Tools that are run by what their commands say: a utility, or a shell with a script. No file of
a project is a program by itself, so a command that names one is refused, and any other
command is not there.

What a tool prints is read as text. Bytes that are no text become the replacement character,
and every line end becomes a line feed.

## Main definitions

* `Shell.printedText`: What was printed, as text.
* `Shell.execute`: Running a command.
* `Shell.launch`: Running a command in a directory.
* `Tools.shell`: The tools that are run in this way.
-/

namespace DialectBuild

namespace Shell

/-- What was printed, as text. -/
def printedText (bytes : Bytes) : Text :=
  (Encoding.decodeReplacing bytes).withLineFeeds

/-- How many steps a script may do. -/
def stepLimit : Nat := 100000

/-- Why a command that is not a utility cannot be run. -/
def refusal (name : Text) (f : Files) : Failure :=
  let p := Path.ofText name
  let refuse (errno : Errno) : Failure := .os { errno := errno, path := name }
  if name.contains (.char '/') then
    match f.spot true p with
    | .ok (.present _ _) => refuse .permission
    | .ok (.absent _) => refuse .noEntry
    | .error (.os e) => refuse e.errno
    | .error e => e
  else
    refuse .noEntry

/-- How a job ended that ran a command. -/
def exitOf (command : List Text) (limit : Option Nat) (j : Job) : Except Failure ToolExit :=
  match j.flow with
  | .exhausted => .error (.timeout command limit)
  | .killed signal => .ok ⟨-(signal : Int), printedText j.output, printedText j.message⟩
  | _ => .ok ⟨j.status, printedText j.output, printedText j.message⟩

/-- Runs a command. -/
def execute (command : List Text) (limit : Option Nat) (f : Files) :
    Except Failure ToolExit × Files :=
  if command.any (·.contains (.char '\x00')) then
    (.error .embeddedNull, f)
  else
    let name := command.headD []
    if name = "sh" then
      let j := start stepLimit {} command.tail { files := f }
      (exitOf command limit j, j.files)
    else
      match utilities.lookup name with
      | some u =>
          let j := runUtility {} u command.tail { files := f }
          (exitOf command limit j, j.files)
      | none => (.error (refusal name f), f)

/-- The files seen from another directory. -/
def enterDirectory (p : Path) (f : Files) : Except Failure Files :=
  match f.spot true p with
  | .ok (.present place .dir) => .ok { f with home := place }
  | .ok (.present _ _) => .error (.directory .notDirectory p)
  | .ok (.absent _) => .error (.directory .noEntry p)
  | .error (.os e) => .error (.directory e.errno p)
  | .error e => .error e

/-- Runs a command in a directory, or where the files are seen from. -/
def launch (directory : Option Path) (command : List Text) (limit : Option Nat) (f : Files) :
    Except Failure ToolExit × Files :=
  match directory with
  | none => execute command limit f
  | some p =>
      match enterDirectory p f with
      | .error e => (.error e, f)
      | .ok g =>
          let (outcome, g) := execute command limit g
          (outcome, { g with home := f.home })

end Shell

/-- The tools that are run by what their commands say. -/
def Tools.shell : Tools where
  run call f := Shell.launch none call.command call.limit f
  announced := true

end DialectBuild
