import DialectBuild.Directive.Reading
import DialectBuild.Header
import DialectBuild.Include.Injection
import DialectBuild.Toolchain
import DialectBuild.Workspace

/-!
# Stages of a Unit

What is done to one unit at a time. First it is read and transpiled, and its header is
written. Once every unit has a header, its imports are expanded and its includes are added,
and its C text is written anew. Then it is compiled.

A stage that fails reports the unit and itself, and the unit's artifacts are removed. What
the unit had learned until then stays with it.

## Main definitions

* `Desk`: A workspace and the unit that is being worked on.
* `copyStripped`: Removing the directives of a file.
* `storeHeader`: Writing a header.
* `Desk.transpile`: Reading and transpiling the unit.
* `Desk.prepare`: The first stage: C text and header.
* `Desk.expandMarkers`, `Desk.inject`: Amending the C text.
* `Desk.finish`: The second stage: the C text that is compiled.
* `Desk.compile`: The third stage: the object.
-/

namespace DialectBuild

/-- A transpile error of a stage. -/
def transpileError (stage message : Text) (unit : Option Path) (output : Text := []) : Failure :=
  .build { kind := .transpile, message := message, unit := unit, stage := some stage,
           output := output }

/-- Copies a file to another one without its directives, by way of a temporary file, and gives
    the directives. The buffer has `size` symbols. -/
def copyStrippedVia (temporary source output : Path) (size : Int) : FileAction (List Text) := do
  let place ← FileAction.query (·.openRead source)
  FileAction.change (·.write temporary [])
  match BufferSize.ofInt? size with
  | none => throw (.bufferSize size)
  | some n =>
      -- The temporary file may be the source, which is then empty by now.
      let s := Stripped.ofText n (Encoding.decode ((← get).contentAt place))
      FileAction.change (·.write temporary (Encoding.encode s.text))
      FileAction.change (·.rename temporary output)
      return s.removed

/-- Copies a file to another one without its directives and gives the directives. -/
def copyStripped (source output : Path) (size : Int) : Action Workspace (List Text) := do
  let temporary ← Action.ofExcept (temporaryFor output)
  let copy := (copyStrippedVia temporary source output size).onOsError fun e => do
    FileAction.change (·.unlinkIfPresent temporary)
    throw (transpileError "strip" ("Failed to strip directives: " ++ e.message) source)
  let removed ← copy
  Workspace.notify (.debug .directives
    ("Stripped " ++ Text.ofNat removed.length ++ " directive(s) from " ++ source.text))
  return removed

/-- The functions that a text exports, with a notice. -/
def exportedNoted (t : Text) : Action Workspace (List Declaration) := do
  let ds := exported t
  Workspace.notify (.debug .declarations
    ("Extracted " ++ Text.ofNat ds.length ++ " declaration(s): " ++
      Text.join ", " (ds.map Declaration.name)))
  return ds

/-- Writes the header for some functions and gives its text. -/
def storeHeader (p : Path) (ds : List Declaration) (key : Text) : Action Workspace Text := do
  let content := Header.text ds p.name key
  let write : Action Workspace Unit := writeAtomic p content
  write.onOsError fun e =>
    throw (transpileError "header" ("Failed to write header " ++ p.text ++ ": " ++ e.message) none)
  Workspace.notify (.debug .headers
    ("Wrote " ++ p.text ++ " (" ++ Text.ofNat ds.length ++ " prototype(s))"))
  return content

/-- A workspace and the unit that is being worked on. -/
structure Desk where
  /-- The workspace. -/
  workspace : Workspace
  /-- The unit. -/
  unit : TranslationUnit
  deriving Inhabited

namespace Desk

/-- An action on the workspace of a desk. -/
def onWorkspace {α : Type} (a : Action Workspace α) : Action Desk α := fun d =>
  match a d.workspace with
  | .ok x w => .ok x { d with workspace := w }
  | .error e w => .error e { d with workspace := w }

instance : MonadLift (EStateM Failure Workspace) (EStateM Failure Desk) := ⟨onWorkspace⟩

/-- The unit on the desk. -/
def unitOf : Action Desk TranslationUnit := do
  return (← get).unit

/-- Amends the unit. -/
def amend (f : TranslationUnit → TranslationUnit) : Action Desk Unit :=
  modify fun d => { d with unit := f d.unit }

/-- Where the artifacts of the unit are. -/
def artifacts : Action Desk Artifacts := do
  Action.ofExcept (Artifacts.ofSource (← unitOf).source)

/-- Reads the source. -/
def readSource : Action Desk Text := do
  let source := (← unitOf).source
  let read : Action Desk Text := FileAction.query (·.text source)
  read.onOsError fun e => throw (transpileError "read" ("Cannot read source: " ++ e.message) source)

/-- Has an external transpiler make the C text and reads it. -/
def runTranspiler (transpiler : List Text) : Action Desk Text := do
  let source := (← unitOf).source
  let code := (← artifacts).code
  let command := transpiler ++ [source.text, code.text]
  let run : Action Desk ToolReport := Workspace.callTool { role := .transpile, command := command }
  let result ← run.onOsError fun e =>
    throw (transpileError "transpile"
      ("Cannot run transpiler " ++ command.headD [] ++ ": " ++ e.message) source)
  if !result.isOk then
    -- What a failed transpiler wrote is not kept.
    FileAction.change (·.unlinkIfPresent code)
    throw (transpileError "transpile"
      ("Transpiler exited with status " ++ Text.ofInt result.status) source result.output)
  let read : Action Desk Text := FileAction.query (·.text code)
  read.onOsError fun e =>
    throw (transpileError "transpile" ("Transpiler produced no output: " ++ e.message) source)

/-- Writes the C text of the unit. -/
def writeCode (stage : Text) : Action Desk Unit := do
  let u ← unitOf
  let code := (← artifacts).code
  let write : Action Desk Unit := writeAtomic code u.text
  write.onOsError fun e =>
    throw (transpileError stage ("Cannot write " ++ code.name ++ ": " ++ e.message) u.source)

/-- Reads and transpiles the unit and gives its C text. What its directives set is read from
    the source; no directive is left in the C text. -/
def transpile (tools : Toolchain) : Action Desk Text := do
  let raw ← readSource
  -- Settings are those of the source, whatever the transpiler makes of its directives.
  let directives := (Stripped.ofText BufferSize.default raw).removed
  amend fun u => { u with rawText := raw, settings := Settings.ofLines directives }
  let staged ← match tools.transpiler with
    | some command => runTranspiler command
    | none => pure raw
  amend fun u => { u with text := (Stripped.ofText BufferSize.default staged).text }
  writeCode "write"
  let u ← unitOf
  Workspace.notify (.debug .transpiling
    (u.source.text ++ ": removed " ++ Text.ofNat directives.length ++ " directive(s), settings=" ++
      u.settings.shown))
  return u.text

/-- Removes one artifact, or gives a notice if that fails. -/
def discardArtifact (p : Path) : Action Workspace Unit :=
  let remove : Action Workspace Unit := FileAction.change (·.unlinkIfPresent p)
  remove.onOsError fun e =>
    Workspace.notify (.warning .building ("Could not remove " ++ p.text ++ ": " ++ e.message))

/-- Removes the artifacts of the unit. -/
def discardArtifacts : Action Desk Unit := do
  for p in (← artifacts).toList do
    discardArtifact p

/-- Finds the functions that the unit exports and writes its header. -/
def exportHeader (root : Path) : Action Desk Unit := do
  let ds ← exportedNoted (← unitOf).text
  amend fun u => { u with declarations := ds }
  let header := (← artifacts).header
  let _ ← storeHeader header ds (Path.display root header)

/-- The first stage: C text and header. If it fails, the unit's artifacts are removed. -/
def prepare (root : Path) (tools : Toolchain) : Action Desk Unit := do
  let stage : Action Desk Unit := do
    let _ ← transpile tools
    exportHeader root
  stage.onBuildError fun e => do
    discardArtifacts
    let source := (← unitOf).source
    -- A header that cannot be written does not say whose it is.
    throw (.build { e with unit := some (e.unit.getD source) })

/-- Expands the imports of the unit unless that has been done, and gives them. -/
def expandMarkers : Action Desk (List (Text × Import)) := do
  let u ← unitOf
  if u.importsResolved then
    return u.imports
  let x := Expansion.ofText (← get).workspace.files u.directory u.text
  -- Also if the expansion failed: the lines before the failure have been read.
  Workspace.notifyAll x.notices
  match x.failure with
  | some (.os e) =>
      throw (transpileError "imports" ("Cannot read import directory: " ++ e.message) u.source)
  | some e => throw e
  | none =>
      amend (·.withExpansion x)
      Workspace.notifyAll (x.imports.map fun i => .debug .imports
        (u.source.text ++ ": import \"" ++ i.modulePath ++ "\" -> " ++
          Text.ofNat i.headers.length ++ " header(s)"))
      return (← unitOf).imports

/-- Adds the includes that the unit lacks unless that has been done, and gives their headers. -/
def inject (sources : List Path) : Action Desk (List Path) := do
  let u ← unitOf
  if u.siblingsInjected then
    return []
  let siblings ← Action.ofExcept (headersBeside u.source sources)
  amend fun u => { u with siblings := siblings }
  let own := (← artifacts).header
  let i ← Action.ofExcept
    (Injection.ofText (← get).workspace.files u.directory own siblings u.text)
  -- Only then has the place for includes been searched, by the functions of the text.
  if i.added.contains own then
    let _ ← exportedNoted u.text
  amend fun u => { u with text := i.text, siblingsInjected := true }
  Workspace.notify (.debug .siblings
    (u.source.text ++ ": injected " ++ Text.ofNat i.added.length ++ " include(s)"))
  return i.added

/-- The second stage: the C text that is compiled. If it fails, the unit's artifacts are
    removed. -/
def finish (sources : List Path) : Action Desk Unit := do
  let stage : Action Desk Unit := do
    let _ ← expandMarkers
    let _ ← inject sources
    writeCode "includes"
  stage.onBuildError fun e => do
    discardArtifacts
    throw (.build e)

end Desk

/-- How many seconds a compiler or a linker may take. -/
def toolLimit : Nat := 300

/-- The command that compiles a unit with the given artifacts. -/
def Toolchain.commandToCompile (tools : Toolchain) (settings : Settings) (a : Artifacts) :
    List Text :=
  let noDebug : List Text := if settings.isDebug then [] else ["-DNDEBUG"]
  let files : List Text := ["-c", a.code.text, "-o", a.object.text]
  tools.compiler ++ tools.compileFlags ++ noDebug ++ files

namespace Desk

/-- A compile error of the unit. -/
def compileError (source : Path) (message : Text) (output : Text := []) : Failure :=
  .build { kind := .compile, message := message, unit := source, stage := some "compile",
           output := output }

/-- The third stage: the object. What a compiler prints that succeeds are warnings. -/
def compile (tools : Toolchain) : Action Desk ToolReport := do
  let u ← unitOf
  let a ← artifacts
  let command := Toolchain.commandToCompile tools u.settings a
  let call : ToolCall := { role := .compile, command := command, limit := some toolLimit }
  let run : Action Desk ToolReport := Workspace.callTool call
  -- Failures other than these two are not about the compiler, and pass.
  let result ← tryCatch run fun e => match e with
    | .timeout _ _ =>
        throw (compileError u.source
          ("Compiler timed out after " ++ Text.ofNat toolLimit ++ "s"))
    | .os e =>
        throw (compileError u.source
          ("Cannot run compiler " ++ command.headD [] ++ ": " ++ e.message))
    | e => throw e
  if !result.isOk then
    throw (compileError u.source
      ("Compilation failed (exit " ++ Text.ofInt result.status ++ "): " ++ result.commandText)
      result.output)
  Workspace.notify (.debug .compiling ("Compiled " ++ a.code.text ++ " -> " ++ a.object.text))
  return result

end Desk

end DialectBuild
