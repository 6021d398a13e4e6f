import DialectBuild.CommandLine.Arguments
import DialectBuild.Toolchain

/-!
# Commands

What the program can be asked to do, and the grammars by which it is asked: one for the
program, whose operand is a command with all that follows it, and one for each command.

Arguments that a command does not take are reported by the program, after those that the
program itself did not take.

## Main definitions

* `Command`: What the program is asked to do.
* `Grammar.forProgram`, `Grammar.forBuild`, `Grammar.forClean`, `Grammar.forStrip`: The grammars.
* `Ending`: What is printed instead of doing anything.
* `Command.read`: The command that a command line asks for.
-/

namespace DialectBuild

/-- What the program is asked to do. -/
inductive Command where
  /-- Build a project. -/
  | build (root : Path) (output : Option Path) (profile : ProfileName) (verbose : Bool)
  /-- Remove what a build made. -/
  | clean (root : Path) (output : Option Path)
  /-- Copy a file without its directives, to another one or to the terminal. -/
  | strip (input : Path) (output : Option Path)
  deriving DecidableEq, Inhabited, Repr

/-- The name of the program. -/
def programName : Text := "czbuild"

/-- The version of the program. -/
def programVersion : Text := "0.1.0"

/-- Lines as a text, each with its end. -/
def linesText (lines : List Text) : Text :=
  lines.flatMap (· ++ "\n")

namespace OptionSpec

/-- Asks for help. -/
def help : OptionSpec :=
  ⟨["-h", "--help"], .help⟩

/-- Asks for the version. -/
def version : OptionSpec :=
  ⟨["--version"], .version⟩

/-- Names the program that is built. -/
def output : OptionSpec :=
  ⟨["-o", "--output"], .value []⟩

/-- Names the profile. -/
def profile : OptionSpec :=
  ⟨["--profile"], .value (ProfileName.all.map ProfileName.text)⟩

/-- Asks for details. -/
def verbose : OptionSpec :=
  ⟨["-v", "--verbose"], .flag⟩

end OptionSpec

namespace Operand

/-- The command and its arguments. -/
def command : Operand :=
  ⟨"command", .rest⟩

/-- The directory of a project. -/
def root : Operand :=
  ⟨"root", .one⟩

/-- The file that is read. -/
def input : Operand :=
  ⟨"input", .one⟩

/-- The file that is written. -/
def output : Operand :=
  ⟨"output", .optional⟩

end Operand

namespace Grammar

/-- The command lines of the program. -/
def forProgram : Grammar where
  program := programName
  options := [.help, .version]
  operands := [.command]
  usage := "usage: czbuild [-h] [--version] \x7bbuild,clean,strip\x7d ..."
  explanation := linesText (List.map Text.ofString [
    "Transpile .cz sources to C and build them into one binary",
    "",
    "positional arguments:",
    "  \x7bbuild,clean,strip\x7d  Command to run",
    "    build              Transpile, compile and link a project",
    "    clean              Remove generated artifacts",
    "    strip              Strip #pragma czar directives from a file",
    "",
    "options:",
    "  -h, --help           show this help message and exit",
    "  --version            show program's version number and exit"])

/-- The command lines of building. -/
def forBuild : Grammar where
  program := "czbuild build"
  options := [.help, .output, .profile, .verbose]
  operands := [.root]
  usage := "usage: czbuild build [-h] [-o OUTPUT] [--profile \x7brelease,debug\x7d] [-v] root"
  explanation := linesText (List.map Text.ofString [
    "positional arguments:",
    "  root                  Project root directory scanned for .cz units",
    "",
    "options:",
    "  -h, --help            show this help message and exit",
    "  -o OUTPUT, --output OUTPUT",
    "                        Output binary (default: a.out, relative to ROOT)",
    "  --profile \x7brelease,debug\x7d",
    "                        Build profile (default: release); ignored when CFLAGS is set",
    "  -v, --verbose         Show per-unit output"])

/-- The command lines of cleaning. -/
def forClean : Grammar where
  program := "czbuild clean"
  options := [.help, .output]
  operands := [.root]
  usage := "usage: czbuild clean [-h] [-o OUTPUT] root"
  explanation := linesText (List.map Text.ofString [
    "positional arguments:",
    "  root                  Project root directory",
    "",
    "options:",
    "  -h, --help            show this help message and exit",
    "  -o OUTPUT, --output OUTPUT",
    "                        Output binary to remove"])

/-- The command lines of stripping. -/
def forStrip : Grammar where
  program := "czbuild strip"
  options := [.help]
  operands := [.input, .output]
  usage := "usage: czbuild strip [-h] input [output]"
  explanation := linesText (List.map Text.ofString [
    "positional arguments:",
    "  input       Source file",
    "  output      Output file (default: stdout)",
    "",
    "options:",
    "  -h, --help  show this help message and exit"])

/-- The help of a grammar. -/
def help (g : Grammar) : Text :=
  g.usage ++ "\n\n" ++ g.explanation

/-- The report about a command line that is wrong. -/
def misuseReport (g : Grammar) (message : Text) : Text :=
  g.usage ++ "\n" ++ g.program ++ ": error: " ++ message ++ "\n"

end Grammar

/-- What is printed instead of doing anything. -/
inductive Ending where
  /-- What was asked for. -/
  | shown (text : Text)
  /-- What is wrong with the command line. -/
  | misused (report : Text)
  deriving DecidableEq, Inhabited, Repr

/-- What is printed when reading ends early. -/
def Stop.ending (g : Grammar) : Stop → Ending
  | .help => .shown g.help
  | .version => .shown (programName ++ " " ++ programVersion ++ "\n")
  | .misuse message => .misused (g.misuseReport message)

/-- A command that can be asked for: its name, its grammar, and how its arguments are
    understood. -/
structure CommandSpec where
  /-- The name of the command. -/
  name : Text
  /-- Its command lines. -/
  grammar : Grammar
  /-- The command with the arguments that were read. -/
  command : Invocation → Command

namespace CommandSpec

/-- The argument of an operand as a path. -/
def pathOf (i : Invocation) (o : Operand) : Path :=
  Path.ofText ((i.operand? o).getD [])

/-- The commands there are, in the order in which they are listed. -/
def all : List CommandSpec :=
  [{ name := "build"
     grammar := .forBuild
     command := fun i =>
       .build (pathOf i .root) ((i.value? .output).map Path.ofText)
         (((i.value? .profile).bind ProfileName.ofText?).getD .release) (i.hasFlag .verbose) },
   { name := "clean"
     grammar := .forClean
     command := fun i => .clean (pathOf i .root) ((i.value? .output).map Path.ofText) },
   { name := "strip"
     grammar := .forStrip
     command := fun i => .strip (pathOf i .input) ((i.operand? .output).map Path.ofText) }]

end CommandSpec

namespace Command

/-- Refuses arguments that are left over. -/
def refuseLeftover : List Text → Except Ending Unit
  | [] => .ok ()
  | ts =>
      .error (Stop.ending .forProgram
        (.misuse ("unrecognized arguments: " ++ Text.join " " ts)))

/-- The command that a command line asks for, or nothing if it asks for none. -/
def read (ts : List Text) : Except Ending (Option Command) := do
  let i ← (Grammar.forProgram.read ts).mapError (Stop.ending .forProgram)
  match (i.operands.lookup Operand.command).getD [] with
  | [] =>
      refuseLeftover i.leftover
      return none
  | name :: arguments =>
      match CommandSpec.all.find? (·.name == name) with
      | none =>
          throw (Stop.ending .forProgram (misuseOf Operand.command.name
            (invalidChoice name (CommandSpec.all.map CommandSpec.name))))
      | some c => do
          let j ← (c.grammar.read arguments).mapError (Stop.ending c.grammar)
          -- What either grammar left over is refused by the program, not by the command.
          refuseLeftover (i.leftover ++ j.leftover)
          return some (c.command j)

end Command

end DialectBuild
