import DialectBuild.Build.Run
import DialectBuild.CommandLine.Command
import DialectBuild.CommandLine.Table

/-!
# Running Commands

What the program does with a command line, and what it prints. The console gets everything
that is meant for the terminal, log lines among it. Notices are printed apart, all of them if
details are asked for and the warnings otherwise.

Every failure of a command ends in a report and an exit code.

## Main definitions

* `Outcome`: What a run of the program gives.
* `Table.ofUnits`: The table of units that a build with details shows.
* `Command.run`: Running a command.
* `Command.runReporting`: Running a command and reporting its failure.
* `runProgram`: Running the program on a command line.
-/

namespace DialectBuild

/-- What a run of the program gives. -/
structure Outcome where
  /-- The exit code. -/
  exitCode : ExitCode
  /-- What is printed as its result. -/
  stdout : Text := []
  /-- What is printed as messages. -/
  stderr : Text := []
  deriving DecidableEq, Inhabited, Repr

/-- An import as the table of units shows it. -/
def importCell (i : Text × Import) : Text :=
  if i.2.isResolved then i.1 else i.1 ++ " (unresolved)"

/-- The row of a unit. -/
def unitRow (root : Path) (u : TranslationUnit) : List Text :=
  let imports := Text.join ", " (u.imports.map importCell)
  [Path.display root u.source,
    Text.ofNat u.declarations.length,
    if imports.isEmpty then "-" else imports,
    Text.ofNat u.siblings.length]

/-- The table of units that a build with details shows. -/
def Table.ofUnits (root : Path) (units : List TranslationUnit) : Table where
  title := "Translation units"
  columns := [⟨"Unit", false⟩, ⟨"Declarations", true⟩, ⟨"Imports", false⟩, ⟨"Siblings", true⟩]
  rows := units.map fun u => (unitRow root u).map Text.displayed

namespace Workspace

/-- Shows a line on the terminal. -/
def showLine (t : Text) : Action Workspace Unit :=
  say fun c => c.write (t.displayed ++ "\n")

/-- Shows lines on the terminal. -/
def showLines (ts : List Text) : Action Workspace Unit :=
  ts.forM showLine

/-- The lines about a build that succeeded. -/
def successLines (r : BuildReport) : List Text :=
  let warned : List Text :=
    if r.warnings.isEmpty then []
    else [Text.ofNat r.warnings.length ++ " unit(s) compiled with warnings"]
  let binary : List Text := [[], "✓ Build successful!", "Binary: " ++ (r.binary.getD default).text]
  binary ++ warned ++ ["Build time: " ++ Clock.fixed r.seconds ++ "s"]

/-- The lines about a build. -/
def resultLines (r : BuildReport) : List Text :=
  if r.isSuccess then successLines r else [[], "✗ Build failed!", r.message]

/-- Builds a project and shows what came of it. -/
def runBuild (env : Environment) (root : Path) (output : Option Path) (profile : ProfileName)
    (verbose : Bool) : Action Workspace ExitCode := do
  say fun c => c.title programName programVersion
  let result ← build (BuildRequest.make root output profile verbose env) verbose
  let units := result.units.getD []
  if verbose && !units.isEmpty then
    say fun c => c.write ((Table.ofUnits root units).render ++ "\n")
  showLines (resultLines result)
  return result.exitCode

/-- Removes what a build made and shows what was removed. -/
def runClean (root : Path) (output : Option Path) : Action Workspace ExitCode := do
  let removed ← clean root (some (BuildRequest.outputIn root output))
  for p in removed do
    say fun c => c.detail ("removed " ++ p.text) 2
  showLine ("Removed " ++ Text.ofNat removed.length ++ " file(s)")
  return .success

/-- Shows a file without its directives. -/
def showStripped (input : Path) : Action Workspace ExitCode := do
  let read : Action Workspace (Except OsError Text) := Action.onOsError
    (do return .ok (← FileAction.query (·.text input)))
    (fun e => return .error e)
  match ← read with
  | .ok t =>
      say fun c => c.write (Stripped.ofText BufferSize.default t).text
      return .success
  | .error e =>
      showLine ("✗ Error: Cannot read " ++ input.text ++ ": " ++ e.message)
      return .transpileFailure

end Workspace

namespace Command

/-- The directory that a command needs. -/
def root? : Command → Option Path
  | build root _ _ _ => some root
  | clean root _ => some root
  | strip _ _ => none

/-- Whether details are asked for. -/
def isVerbose : Command → Bool
  | build _ _ _ verbose => verbose
  | _ => false

/-- Runs a command. -/
def run (env : Environment) : Command → Action Workspace ExitCode
  | build root output profile verbose => Workspace.runBuild env root output profile verbose
  | clean root output => Workspace.runClean root output
  | strip input none => Workspace.showStripped input
  | strip input (some output) => do
      let _ ← copyStripped input output BufferSize.default.size
      return .success

/-- Reports a failure. Where details are asked for, a placeholder says that its place in the
    program is not shown. -/
def report (verbose : Bool) : Failure → Action Workspace ExitCode
  | .build e => do
      Workspace.showLines [[], "✗ Error", e.format]
      return e.kind.exitCode
  | .interrupted => do
      Workspace.showLines [[], "✗ Interrupted"]
      return .interrupted
  | e => do
      Workspace.showLines [[], "✗ Unexpected error", e.className ++ ": " ++ e.message]
      if verbose then
        Workspace.showLine "<traceback>"
      return .unexpected

/-- Runs a command and reports its failure. -/
def runReporting (env : Environment) (c : Command) : Action Workspace ExitCode :=
  tryCatch (c.run env) (report c.isVerbose)

/-- The notices that are printed. -/
def printed (c : Command) (ns : List Notice) : List Notice :=
  if c.isVerbose then ns else Notice.warnings ns

/-- Whether the directory is missing that a command needs. -/
def lacksRoot (c : Command) : FileAction (Option Path) := do
  match c.root? with
  | none => return none
  | some root => return if ← FileAction.query (·.isDir root) then none else some root

end Command

/-- Runs a command that was asked for. -/
def runCommand (env : Environment) (c : Command) : Action Workspace Outcome := do
  let lacking : Option Path ← c.lacksRoot
  let exitCode ← match lacking with
    | some root => do
        Workspace.showLine ("✗ Error: Not a directory: " ++ root.text)
        pure ExitCode.usage
    | none => c.runReporting env
  -- What a failed command printed until then is printed, too.
  let w ← get
  return {
    exitCode := exitCode
    stdout := w.console.written
    stderr := linesText ((c.printed w.notices).map Notice.line) }

/-- Runs the program on a command line. -/
def runProgram (env : Environment) (arguments : List Text) : Action Workspace Outcome :=
  match Command.read arguments with
  | .error (.shown t) => return { exitCode := .success, stdout := t }
  | .error (.misused t) => return { exitCode := .usage, stderr := t }
  | .ok none => return { exitCode := .usage, stdout := Grammar.forProgram.help }
  | .ok (some c) => runCommand env c

end DialectBuild
