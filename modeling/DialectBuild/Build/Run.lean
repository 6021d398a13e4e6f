import DialectBuild.Build.Discovery
import DialectBuild.Build.Link

/-!
# Building a Project

A build takes its units through four phases. In the first, every unit gets its C text and its
header. In the second, when all headers are there, imports and includes are settled. The
third compiles every unit and the fourth links the objects. Units are taken one after the
other in the order of discovery, and the first failure ends the build.

A build that fails for a reason of its own says so in its result. Other failures, such as an
interruption, pass through.

## Main definitions

* `Project`: A workspace and the units of a build.
* `Project.eachUnit`: Doing something to every unit.
* `Project.writeSources`, `Project.makeObjects`, `Project.makeProgram`: The phases.
* `BuildReport`: What came of a build.
* `build`: A whole build.
* `clean`: Removing what a build made.
-/

namespace DialectBuild

/-- A workspace and the units of a build. -/
structure Project where
  /-- The workspace. -/
  workspace : Workspace
  /-- The units in the order of discovery. -/
  units : List TranslationUnit
  deriving Inhabited

namespace Project

/-- An action on the workspace of a project. -/
def onWorkspace {α : Type} (a : Action Workspace α) : Action Project α := fun p =>
  match a p.workspace with
  | .ok x w => .ok x { p with workspace := w }
  | .error e w => .error e { p with workspace := w }

instance : MonadLift (EStateM Failure Workspace) (EStateM Failure Project) := ⟨onWorkspace⟩

/-- Does something to one unit after the other, up to the first failure. -/
def runUnits {α : Type} (act : Action Desk α) :
    List TranslationUnit → Workspace → EStateM.Result Failure Project (List α)
  | [], w => .ok [] ⟨w, []⟩
  | u :: us, w =>
      match act ⟨w, u⟩ with
      -- The unit keeps what it has learned; those after it are as they were.
      | .error e d => .error e ⟨d.workspace, d.unit :: us⟩
      | .ok x d =>
          match runUnits act us d.workspace with
          | .ok xs p => .ok (x :: xs) ⟨p.workspace, d.unit :: p.units⟩
          | .error e p => .error e ⟨p.workspace, d.unit :: p.units⟩

/-- Does something to every unit of a project. -/
def eachUnit {α : Type} (act : Action Desk α) : Action Project (List α) := fun p =>
  runUnits act p.units p.workspace

/-- The number of phases. -/
def phases : Int := 4

/-- Does a phase, which the console shows. -/
def phase {α : Type} (number : Int) (label : Text) (body : Action Project α) :
    Action Project α := do
  let a ← Workspace.enter { label := label, phase := some (number, phases) }
  let x ← body
  Workspace.leave a
  return x

/-- A number of units as the console shows it. -/
def counted (n : Nat) (noun : Text) : Text :=
  Text.ofNat n ++ " " ++ noun ++ "(s)"

/-- Prepares the unit on the desk and shows it. -/
def prepareShown (root : Path) (tools : Toolchain) : Action Desk Unit := do
  Desk.prepare root tools
  let u ← Desk.unitOf
  Workspace.say fun c => c.unit "cz" (Path.display root u.source)
    ("-> " ++ counted u.declarations.length "declaration")

/-- Finishes the unit on the desk and warns of imports that stand for nothing. -/
def finishShown (root : Path) (sources : List Path) : Action Desk Unit := do
  Desk.finish sources
  let u ← Desk.unitOf
  for i in u.unresolved do
    Workspace.say fun c => c.warning
      (Path.display root u.source ++ ": import \"" ++ i.modulePath ++ "\" resolved to no headers")

/-- Compiles the unit on the desk, shows it, and gives the warnings of the compiler. -/
def compileShown (root : Path) (tools : Toolchain) : Action Desk (Option Text) := do
  let result ← Desk.compile tools
  let name := Path.display root (← Desk.artifacts).code
  Workspace.say fun c => c.unit "cc" name []
  if result.output.isEmpty then
    return none
  let message := name ++ ":\n" ++ Text.trimEnd Symbol.isBlank result.output
  Workspace.say fun c => c.warning message
  return some message

/-- The first two phases: C text and headers, then imports and includes. -/
def writeSources (root : Path) (tools : Toolchain) : Action Project Unit := do
  let units := (← get).units
  let _ ← phase 1 ("Transpiling " ++ counted units.length "unit")
    (eachUnit (prepareShown root tools))
  let _ ← phase 2 "Resolving imports and same-directory includes"
    (eachUnit (finishShown root (units.map TranslationUnit.source)))

/-- The third phase: the objects. It gives the warnings of the compiler. -/
def makeObjects (root : Path) (tools : Toolchain) : Action Project (List Text) := do
  let warnings ← phase 3 ("Compiling " ++ counted (← get).units.length "unit")
    (eachUnit (compileShown root tools))
  return warnings.filterMap id

/-- The objects of the units in order. -/
def objects : Action Project (List Path) := do
  (← get).units.mapM fun u => do
    return (← Action.ofExcept (Artifacts.ofSource u.source)).object

/-- The fourth phase: the program. -/
def makeProgram (tools : Toolchain) (output : Path) : Action Project Unit := do
  let os ← objects
  phase 4 ("Linking " ++ counted os.length "object") do
    let result : ToolReport ← linkObjects tools os output
    if !result.output.isEmpty then
      Workspace.say fun c => c.warning (Text.trimEnd Symbol.isBlank result.output)

/-- All phases. The warnings of the compiler are given. -/
def phasesOf (r : BuildRequest) : Action Project (List Text) := do
  writeSources r.root r.toolchain
  let warnings ← makeObjects r.root r.toolchain
  makeProgram r.toolchain r.output
  return warnings

end Project

/-- What came of a build. -/
structure BuildReport where
  /-- What the command line reports. -/
  exitCode : ExitCode
  /-- What is to be said about it. -/
  message : Text
  /-- The program, if there is one. -/
  binary : Option Path := none
  /-- The units, unless none were discovered. -/
  units : Option (List TranslationUnit) := none
  /-- What the compiler warned of. -/
  warnings : List Text := []
  /-- How long it took. -/
  seconds : Rat := 0
  deriving Inhabited

namespace BuildReport

/-- Whether the build succeeded. -/
def isSuccess (r : BuildReport) : Bool :=
  r.exitCode = .success

end BuildReport

namespace Workspace

/-- The time since `start`. -/
def since (start : Rat) : Action Workspace Rat := do
  return Clock.elapsed start (← get).console.now

/-- Reports a build that failed. -/
def reportFailure (start : Rat) (units : Option (List TranslationUnit)) (e : BuildError) :
    Action Workspace BuildReport := do
  say fun c => c.error e.format
  return {
    exitCode := e.kind.exitCode
    message := e.format
    units := units
    seconds := ← since start }

/-- Reports a build that succeeded. -/
def reportSuccess (start : Rat) (output : Path) (units : List TranslationUnit)
    (warnings : List Text) : Action Workspace BuildReport := do
  let seconds ← since start
  say fun c => c.binary output
  say fun c => c.complete seconds
  return {
    exitCode := .success
    message := "Built " ++ output.text
    binary := some output
    units := some units
    warnings := warnings
    seconds := seconds }

/-- Takes units through all phases and reports what came of it. -/
def buildUnits (start : Rat) (r : BuildRequest) (units : List TranslationUnit) :
    Action Workspace BuildReport := fun w =>
  match Project.phasesOf r ⟨w, units⟩ with
  | .ok warnings p => reportSuccess start r.output p.units warnings p.workspace
  | .error (.build e) p => reportFailure start (some p.units) e p.workspace
  -- Not a failure of the build itself, so there is no report.
  | .error e p => .error e p.workspace

end Workspace

/-- A whole build. The console shows details if the request or `verbose` asks for them. -/
def build (r : BuildRequest) (verbose : Bool := false) : Action Workspace BuildReport := do
  let start := (← get).console.now
  Workspace.say fun c => { c with verbose := r.verbose || verbose }
  Workspace.say fun c => c.log (banner r.profile r.toolchain.compilerLine)
  -- Only discovery is guarded here: `buildUnits` reports the failures of the phases.
  let discovered ← Action.onBuildError
    (do return Except.ok (← discover r.root))
    (fun e => return Except.error e)
  match discovered with
  | .error e => Workspace.reportFailure start none e
  | .ok units =>
      Workspace.say fun c => c.detail
        ("Root: " ++ r.root.text ++ " (" ++ Project.counted units.length "unit" ++ ")")
      Workspace.buildUnits start r units

/-- Removes a generated file if it is there, and gives it. -/
def removeIfPresent (p : Path) : FileAction (Option Path) := do
  if ← FileAction.query (·.doesExist p) then
    FileAction.change (·.unlink p)
    return some p
  return none

/-- Removes everything that a build of `root` made, and the program. It gives what was removed,
    unit by unit. -/
def clean (root : Path) (output : Option Path) : Action Workspace (List Path) := do
  let sources : List Path ← FileAction.query (·.sources root)
  let removed : List (List (Option Path)) ← sources.mapM fun s => do
    let a ← Action.ofExcept (Artifacts.ofSource s)
    a.toList.mapM fun p => (removeIfPresent p : Action Workspace (Option Path))
  let program ← match output with
    | none => pure none
    | some p =>
        -- Unlike an artifact, the program is passed over if it is no file.
        if ← FileAction.query (·.isFile p) then
          FileAction.change (·.unlink p)
          pure (some p)
        else
          pure none
  let all := removed.flatten.filterMap id ++ program.toList
  Workspace.notify (.debug .building
    ("Removed " ++ Text.ofNat all.length ++ " artifact(s) under " ++ root.text))
  return all

end DialectBuild
