import DialectBuild.Text.Basic

/-!
# Notices

Messages for those who look into how a build went, kept apart from the console. Each has a
level and the part of the build that it comes from.

## Main definitions

* `Level`: How much a notice matters.
* `Topic`: The part of the build that a notice comes from.
* `Notice`: A message.
* `Notice.line`: How a notice is shown.
-/

namespace DialectBuild

/-- How much a notice matters. -/
inductive Level where
  | debug
  | warning
  deriving DecidableEq, Inhabited, Repr

/-- The part of the build that a notice comes from. -/
inductive Topic where
  | declarations
  | directives
  | headers
  | imports
  | siblings
  | discovery
  | transpiling
  | compiling
  | linking
  | building
  | tools
  deriving DecidableEq, Inhabited, Repr

/-- The name under which notices of a topic are shown. -/
def Topic.name : Topic → Text
  | declarations => "czbuild.pipeline.declarations"
  | directives => "czbuild.pipeline.directives"
  | headers => "czbuild.pipeline.headers"
  | imports => "czbuild.pipeline.imports"
  | siblings => "czbuild.pipeline.siblings"
  | discovery => "czbuild.build.scanner"
  | transpiling => "czbuild.build.transpiler"
  | compiling => "czbuild.build.compiler"
  | linking => "czbuild.build.linker"
  | building => "czbuild.build.orchestrator"
  | tools => "czbuild.subprocess_utils"

/-- The name of a level. -/
def Level.name : Level → Text
  | debug => "DEBUG"
  | warning => "WARNING"

/-- A message about how a build goes. -/
structure Notice where
  /-- How much it matters. -/
  level : Level
  /-- Where it comes from. -/
  topic : Topic
  /-- What it says. -/
  message : Text
  deriving DecidableEq, Inhabited, Repr

namespace Notice

/-- A notice as it is shown. -/
def line (n : Notice) : Text :=
  n.level.name ++ " " ++ n.topic.name ++ ": " ++ n.message

/-- A notice for those who follow every step. -/
def debug (topic : Topic) (message : Text) : Notice :=
  ⟨.debug, topic, message⟩

/-- A notice that everyone should see. -/
def warning (topic : Topic) (message : Text) : Notice :=
  ⟨.warning, topic, message⟩

/-- The warnings among some notices. -/
def warnings (ns : List Notice) : List Notice :=
  ns.filter (·.level == .warning)

end Notice

end DialectBuild
