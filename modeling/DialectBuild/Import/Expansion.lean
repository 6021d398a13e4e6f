import DialectBuild.Files.Operations
import DialectBuild.Files.Resolve
import DialectBuild.Import.Marker
import DialectBuild.Notice
import DialectBuild.Text.Line

/-!
# Import Expansion

Each marker of a text is replaced by one include for every generated header in the directory
it names, in the order of their names. A marker that finds none becomes a comment that says
so, and a directory that was named before is not included again. All other lines stay as they
are.

Expansion goes line by line and keeps what each line became, so that the text, the imports
and the warnings are three views of one result. If the file system fails at a line, the lines
before it are still known, and with them the warnings they gave.

## Main definitions

* `Import`: A marker and the headers it stands for.
* `Files.headersIn`: The generated headers in a directory.
* `ExpandedLine`: What one line became.
* `Expansion`: What the lines of a text became, up to the first failure.
* `ExpandedLine.ofLine`, `Expansion.ofLines`: Expanding one line and several.
* `Expansion.ofText`: Expanding a text.
-/

namespace DialectBuild

/-- A marker and the headers that it stands for. Without headers it is unresolved. -/
structure Import where
  /-- The directory, as written. -/
  modulePath : Text
  /-- The line of the marker. -/
  line : Nat
  /-- The headers found there. -/
  headers : List Path := []
  deriving DecidableEq, Inhabited, Repr

/-- Whether an import stands for any header. -/
def Import.isResolved (i : Import) : Bool :=
  !i.headers.isEmpty

/-- How the names of generated headers end. -/
def headerEnding : Text := ".cz.h"

/-- The generated headers directly in a directory, in the order of their names. -/
def Files.headersIn (f : Files) (dir : Path) : Except Failure (List Path) := do
  let names ← f.list dir
  -- Every name is asked about, whatever its ending, and each of them may fail.
  let files ← names.filterM fun name => f.isFile (dir.child name)
  return (files.filter (·.endsWith headerEnding)).map dir.child

/-- What one line of a text became. -/
structure ExpandedLine where
  /-- The lines that stand in its place. -/
  text : Text
  /-- The import that it was, unless its directory was named before. -/
  request : Option Import := none
  /-- The directory that it names for the first time. -/
  directory : Option Place := none
  /-- What is to be said about it. -/
  notice : Option Notice := none
  deriving DecidableEq, Inhabited, Repr

/-- A comment in place of a marker. -/
def remark (indent path reason : Text) : Text :=
  indent ++ "/* czbuild: #import \"" ++ path ++ "\" - " ++ reason ++ " */"

/-- A warning about an import. -/
def importWarning (i : Import) (reason : Text) : Notice :=
  .warning .imports
    ("Import \"" ++ i.modulePath ++ "\" (line " ++ Text.ofNat i.line ++ "): " ++ reason)

/-- The include lines of an import, every one but the last with a line end of its own. -/
def includeLines (indent path ending : Text) (headers : List Path) : Text :=
  let stem := Text.trimEnd (· == .char '/') path
  let lines := headers.map fun h => indent ++ "#include \"" ++ stem ++ "/" ++ h.name ++ "\""
  -- A marker without a line end is the last line of its text.
  let between : Text := if ending.isEmpty then "\n" else ending
  Text.join between lines

/-- What a marker becomes whose directory is named for the first time. -/
def Marker.expand (f : Files) (base : Path) (m : Marker) (line : Nat) (ending : Text) :
    Except Failure ExpandedLine := do
  let request : Import := { modulePath := m.modulePath, line := line }
  let target := base.join (Path.ofText m.modulePath)
  if !(← f.isDir target) then
    return {
      text := remark m.indent m.modulePath "directory not found" ++ ending
      request := some request
      notice := some (importWarning request ("directory not found: " ++ target.text)) }
  let headers ← f.headersIn target
  if headers.isEmpty then
    return {
      text := remark m.indent m.modulePath "no headers found" ++ ending
      request := some request
      notice := some (importWarning request ("no headers found in " ++ target.text)) }
  return {
    text := includeLines m.indent m.modulePath ending headers ++ ending
    request := some { request with headers := headers } }

/-- What a line becomes when the directories in `known` have been named before it. -/
def ExpandedLine.ofLine (f : Files) (base : Path) (known : List Place) (line : Nat)
    (source : Text) : Except Failure ExpandedLine := do
  let (body, ending) := source.splitEnding
  match Marker.ofLine? body with
  | none => return { text := source }
  | some m =>
      -- A blank path names no directory, so nothing is known by it later.
      if m.modulePath.all Symbol.isBlank then
        return {
          text := remark m.indent [] "empty module path" ++ ending
          request := some { modulePath := m.modulePath, line := line } }
      -- Directories are compared by place, so another spelling is the same directory.
      let place ← f.resolve (base.join (Path.ofText m.modulePath))
      if known.contains place then
        return { text := remark m.indent m.modulePath "already imported" ++ ending }
      let expanded ← Marker.expand f base m line ending
      return { expanded with directory := some place }

/-- What the lines of a text became, and the failure that ended it, if any. -/
structure Expansion where
  /-- The lines in order. -/
  lines : List ExpandedLine
  /-- Why the lines after them are missing. -/
  failure : Option Failure := none
  deriving DecidableEq, Inhabited, Repr

namespace Expansion

/-- The text that the lines became. -/
def text (x : Expansion) : Text :=
  (x.lines.map ExpandedLine.text).flatten

/-- The imports in order. -/
def imports (x : Expansion) : List Import :=
  x.lines.filterMap ExpandedLine.request

/-- What is to be said about the lines. -/
def notices (x : Expansion) : List Notice :=
  x.lines.filterMap ExpandedLine.notice

end Expansion

/-- Expands lines from the given number on. -/
def Expansion.ofLines (f : Files) (base : Path) : List Place → Nat → List Text → Expansion
  | _, _, [] => { lines := [] }
  | known, n, source :: rest =>
      match ExpandedLine.ofLine f base known n source with
      | .error e => { lines := [], failure := some e }
      | .ok l =>
          let more := Expansion.ofLines f base (l.directory.toList ++ known) (n + 1) rest
          { more with lines := l :: more.lines }

/-- Expands the import markers of a text whose module paths are seen from `base`. -/
def Expansion.ofText (f : Files) (base : Path) (t : Text) : Expansion :=
  Expansion.ofLines f base [] 1 t.codeLines

end DialectBuild
