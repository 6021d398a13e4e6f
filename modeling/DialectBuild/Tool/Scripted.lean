import DialectBuild.Files.Operations
import DialectBuild.Tool.Basic

/-!
# Scripted Tools

Tools that follow a list of rules instead of being programs. The first rule that fits a call
decides what the tool does: fail to start, write its output file, print something, and end
with some status. Without a rule a call succeeds and writes what a tool of its kind would:
the transpiler a copy of its source, the others a placeholder.

## Main definitions

* `Mishap`: Ways in which a tool does not come to an end of its own.
* `ToolRule`: What a tool does.
* `ToolRule.fits`: Whether a rule is for a call.
* `ToolRule.respond`: What happens when a rule is followed.
* `Tools.scripted`: The tools that follow a list of rules.
-/

namespace DialectBuild

/-- Ways in which a tool does not come to an end of its own. -/
inductive Mishap where
  /-- It takes too long. -/
  | timeout
  /-- There is no such program. -/
  | missing
  /-- The program may not be run. -/
  | denied
  /-- Someone asks the build to stop. -/
  | interrupt
  deriving DecidableEq, Inhabited, Repr

/-- What a tool writes to the file named by its last argument. -/
inductive ToolOutput where
  /-- What a tool of its kind would write, if it succeeds. -/
  | usual
  /-- Nothing. -/
  | nothing
  /-- The given bytes. -/
  | content (bytes : Bytes)
  deriving DecidableEq, Inhabited, Repr

/-- What a tool does. -/
structure ToolRule where
  /-- The kind of tool that the rule is for. -/
  role : ToolRole
  /-- An argument that the command must have. -/
  argument : Option Text := none
  /-- Whether it comes to an end. -/
  mishap : Option Mishap := none
  /-- What it writes. -/
  output : ToolOutput := .usual
  /-- How it ends. -/
  outcome : ToolExit := ⟨0, [], []⟩
  deriving DecidableEq, Inhabited, Repr

namespace ToolRule

/-- Whether the rule is for a call. -/
def fits (r : ToolRule) (c : ToolCall) : Bool :=
  r.role == c.role && r.argument.all c.command.contains

/-- The failure that a mishap is. -/
def failure (c : ToolCall) : Mishap → Failure
  | .timeout => .timeout c.command c.limit
  | .missing => .os { errno := .noEntry, path := c.command.headD [] }
  | .denied => .os { errno := .permission, path := c.command.headD [] }
  | .interrupt => .interrupted

/-- What a tool of this kind writes when it succeeds. -/
def usualContent (c : ToolCall) (f : Files) : Except Failure Bytes :=
  match c.role with
  | .transpile => f.read (Path.ofText ((c.command.dropLast.getLast?).getD []))
  | .compile => .ok (Encoding.encode "object")
  | .link => .ok (Encoding.encode "binary")

/-- What the tool writes, if anything. -/
def written (r : ToolRule) (c : ToolCall) (f : Files) : Except Failure (Option Bytes) :=
  match r.output with
  | .nothing => .ok none
  | .content bytes => .ok (some bytes)
  | .usual => if r.outcome.status ≠ 0 then .ok none else some <$> usualContent c f

/-- The files after the tool has written. -/
def filesAfter (r : ToolRule) (c : ToolCall) (f : Files) : Except Failure Files := do
  match ← r.written c f with
  | none => return f
  | some bytes => f.write (Path.ofText (c.command.getLast?.getD [])) bytes

/-- What happens when the rule is followed. -/
def respond (r : ToolRule) (c : ToolCall) (f : Files) : Except Failure ToolExit × Files :=
  match r.mishap with
  | some m => (.error (failure c m), f)
  | none =>
      match r.filesAfter c f with
      | .ok g => (.ok r.outcome, g)
      | .error e => (.error e, f)

end ToolRule

/-- The tools that follow a list of rules. -/
def Tools.scripted (rules : List ToolRule) : Tools where
  run c f := ((rules.find? (·.fits c)).getD { role := c.role }).respond c f

end DialectBuild
