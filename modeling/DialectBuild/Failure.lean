import DialectBuild.Path
import DialectBuild.Text.Quoted

/-!
# Failures

Everything that can stop a step of the build, as causes with their wording. A build error is
one that the build reports by itself, with the stage and the unit it arose in. Other failures
come from the file system, from a request that makes no sense, from a tool that does not end,
or from someone at the keyboard.

## Main definitions

* `ExitCode`: What the command line reports.
* `BuildError`: An error that the build reports, and `BuildError.format`, its wording.
* `Errno`: The reasons that a file system gives.
* `OsError`: A reason and the paths it concerns.
* `Failure`: Any of these causes.
* `Failure.message`, `Failure.className`: The wording and the class of a failure.
-/

namespace DialectBuild

/-- What the command line reports when it ends. -/
inductive ExitCode where
  | success
  | unexpected
  | usage
  | noSources
  | transpileFailure
  | compileFailure
  | linkFailure
  | interrupted
  deriving DecidableEq, Inhabited, Repr

namespace ExitCode

/-- The number of an exit code. -/
def number : ExitCode → Nat
  | success => 0
  | unexpected => 1
  | usage => 2
  | noSources => 3
  | transpileFailure => 4
  | compileFailure => 5
  | linkFailure => 6
  | interrupted => 130

/-- The name of an exit code. -/
def name : ExitCode → Text
  | success => "SUCCESS"
  | unexpected => "UNEXPECTED"
  | usage => "USAGE"
  | noSources => "NO_SOURCES"
  | transpileFailure => "TRANSPILE_FAILURE"
  | compileFailure => "COMPILE_FAILURE"
  | linkFailure => "LINK_FAILURE"
  | interrupted => "INTERRUPTED"

end ExitCode

/-- The kinds of errors that a build reports. -/
inductive ErrorKind where
  /-- An error of no particular stage. -/
  | general
  /-- There is nothing to build. -/
  | noSources
  /-- A unit could not be read, transpiled or written. -/
  | transpile
  /-- The compiler refused a unit. -/
  | compile
  /-- The objects could not be linked. -/
  | link
  deriving DecidableEq, Inhabited, Repr

namespace ErrorKind

/-- What the command line reports for an error of this kind. -/
def exitCode : ErrorKind → ExitCode
  | general => .unexpected
  | noSources => .noSources
  | transpile => .transpileFailure
  | compile => .compileFailure
  | link => .linkFailure

/-- The class of an error of this kind. -/
def className : ErrorKind → Text
  | general => "CzBuildError"
  | noSources => "NoSourcesError"
  | transpile => "TranspileError"
  | compile => "CompileError"
  | link => "LinkError"

end ErrorKind

/-- An error that a build reports. -/
structure BuildError where
  /-- What kind of error it is. -/
  kind : ErrorKind
  /-- What went wrong. -/
  message : Text
  /-- The source of the unit it arose in. -/
  unit : Option Path := none
  /-- The stage it arose in. -/
  stage : Option Text := none
  /-- What the tool printed. -/
  output : Text := []
  deriving DecidableEq, Inhabited, Repr

namespace BuildError

/-- The first line of the report: the stage, then the unit, then what went wrong. The unit is
    named only together with the stage. -/
def headline (e : BuildError) : Text :=
  match e.stage.filter (!·.isEmpty), e.unit with
  | some stage, some unit => "[" ++ stage ++ "] " ++ unit.text ++ ": " ++ e.message
  | some stage, none => "[" ++ stage ++ "] " ++ e.message
  | none, _ => e.message

/-- The whole report: the headline, then what the tool printed without its last line ends. -/
def format (e : BuildError) : Text :=
  if e.output.isEmpty then
    e.headline
  else
    e.headline ++ "\n" ++ Text.trimEnd (· == .char '\n') e.output

end BuildError

/-- The reasons that a file system gives for refusing something. -/
inductive Errno where
  | noEntry
  | execFormat
  | permission
  | busy
  | alreadyExists
  | notDirectory
  | isDirectory
  | invalid
  | nameTooLong
  | notEmpty
  | loop
  deriving DecidableEq, Inhabited, Repr

namespace Errno

/-- The number of a reason. -/
def number : Errno → Nat
  | noEntry => 2
  | execFormat => 8
  | permission => 13
  | busy => 16
  | alreadyExists => 17
  | notDirectory => 20
  | isDirectory => 21
  | invalid => 22
  | nameTooLong => 36
  | notEmpty => 39
  | loop => 40

/-- The wording of a reason. -/
def text : Errno → Text
  | noEntry => "No such file or directory"
  | execFormat => "Exec format error"
  | permission => "Permission denied"
  | busy => "Device or resource busy"
  | alreadyExists => "File exists"
  | notDirectory => "Not a directory"
  | isDirectory => "Is a directory"
  | invalid => "Invalid argument"
  | nameTooLong => "File name too long"
  | notEmpty => "Directory not empty"
  | loop => "Too many levels of symbolic links"

/-- The class of an error with this reason. -/
def className : Errno → Text
  | noEntry => "FileNotFoundError"
  | permission => "PermissionError"
  | alreadyExists => "FileExistsError"
  | notDirectory => "NotADirectoryError"
  | isDirectory => "IsADirectoryError"
  | _ => "OSError"

end Errno

/-- An error of the file system: the reason and the path it concerns, or the two paths of a
    move. -/
structure OsError where
  /-- The reason. -/
  errno : Errno
  /-- The path, or the first of two. -/
  path : Text
  /-- The second path of a move. -/
  target : Option Text := none
  deriving DecidableEq, Inhabited, Repr

namespace OsError

/-- The wording of an error of the file system. -/
def message (e : OsError) : Text :=
  let reason := "[Errno " ++ Text.ofNat e.errno.number ++ "] " ++ e.errno.text ++ ": "
  match e.target with
  | none => reason ++ e.path.quoted
  | some t => reason ++ e.path.quoted ++ " -> " ++ t.quoted

end OsError

/-- Whatever can stop a step of the build. -/
inductive Failure where
  /-- The build reports an error. -/
  | build (e : BuildError)
  /-- The file system refuses something. -/
  | os (e : OsError)
  /-- A path has a NUL in it. -/
  | embeddedNull
  /-- A path without a last part is asked for a sibling. -/
  | emptyName (p : Path)
  /-- A buffer is asked to hold no symbol. -/
  | bufferSize (n : Int)
  /-- A link leads back to itself. -/
  | symlinkLoop (path : Text)
  /-- Directories are too deep for a walk that enters one from within the other. -/
  | tooDeep
  /-- A tool cannot be started in a directory. -/
  | directory (errno : Errno) (p : Path)
  /-- A tool did not end in time. -/
  | timeout (command : List Text) (seconds : Option Nat)
  /-- Someone asked the build to stop. -/
  | interrupted
  deriving DecidableEq, Inhabited, Repr

namespace Failure

/-- The wording of a failure. -/
def message : Failure → Text
  | build e => e.message
  | os e => e.message
  | embeddedNull => "embedded null byte"
  | emptyName p => "PosixPath(" ++ p.text.quoted ++ ") has an empty name"
  | bufferSize n => "chunk_size must be positive, got " ++ Text.ofInt n
  | symlinkLoop path => "Symlink loop from " ++ path.quoted
  | tooDeep => "maximum recursion depth exceeded"
  | directory errno p =>
      "[Errno " ++ Text.ofNat errno.number ++ "] " ++ errno.text ++ ": PosixPath(" ++
        p.text.quoted ++ ")"
  | timeout command seconds =>
      let limit : Text := match seconds with
        | some n => Text.ofNat n
        | none => "None"
      "Command '[" ++ Text.join ", " (command.map Text.quoted) ++ "]' timed out after " ++
        limit ++ " seconds"
  | interrupted => []

/-- The class of a failure. -/
def className : Failure → Text
  | build e => e.kind.className
  | os e => e.errno.className
  | embeddedNull => "ValueError"
  | emptyName _ => "ValueError"
  | bufferSize _ => "ValueError"
  | symlinkLoop _ => "RuntimeError"
  | tooDeep => "RecursionError"
  | directory errno _ => errno.className
  | timeout _ _ => "TimeoutExpired"
  | interrupted => "KeyboardInterrupt"

end Failure

end DialectBuild
