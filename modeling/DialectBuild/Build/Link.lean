import DialectBuild.Unit.Stage

/-!
# Linking

The last stage of a build: all objects, in order, into one program.

## Main definitions

* `Toolchain.commandToLink`: The command that links objects.
* `linkObjects`: Linking objects into a program.
-/

namespace DialectBuild

/-- The command that links objects into a program. -/
def Toolchain.commandToLink (tools : Toolchain) (objects : List Path) (output : Path) : List Text :=
  let target : List Text := ["-o", output.text]
  tools.compiler ++ objects.map Path.text ++ tools.linkFlags ++ target

/-- A link error. -/
def linkError (message : Text) (output : Text := []) : Failure :=
  .build { kind := .link, message := message, stage := some "link", output := output }

/-- Links objects into a program, whose directory is created if need be. -/
def linkObjects (tools : Toolchain) (objects : List Path) (output : Path) :
    Action Workspace ToolReport := do
  if objects.isEmpty then
    throw (linkError "No object files to link")
  let mkdirs : Action Workspace Unit := FileAction.mkdirs output.parent
  mkdirs.onOsError fun e =>
    throw (linkError
      ("Cannot create output directory " ++ output.parent.text ++ ": " ++ e.message))
  let command := Toolchain.commandToLink tools objects output
  let call : ToolCall := { role := .link, command := command, limit := some toolLimit }
  let result ← tryCatch (Workspace.callTool call) fun e => match e with
    | .timeout _ _ => throw (linkError ("Linker timed out after " ++ Text.ofNat toolLimit ++ "s"))
    | .os e => throw (linkError ("Cannot run linker " ++ command.headD [] ++ ": " ++ e.message))
    | e => throw e
  if !result.isOk then
    throw (linkError
      ("Linking failed (exit " ++ Text.ofInt result.status ++ "): " ++ result.commandText)
      result.output)
  Workspace.notify (.debug .linking
    ("Linked " ++ Text.ofNat objects.length ++ " object(s) -> " ++ output.text))
  return result

end DialectBuild
