import DialectBuild.Include.Position
import DialectBuild.Unit.Basic

/-!
# Include Injection

Every unit sees what the other units of its directory export. For this its text includes its
own header and those of its siblings. An include that is already there, however its path is
written, is not added again: what counts is the canonical place it leads to.

New includes go right after the unit's own header if that is included already, and otherwise
to the place that `Position.includes` gives.

## Main definitions

* `includePath?`: The path that an include line names.
* `Include.targets`: Where the include lines of a text lead.
* `Injection`: A text with its new includes.
* `insertLines`: A text with lines put before one of its lines.
* `Injection.ofText`: The text of a unit with the includes it lacks.
-/

namespace DialectBuild

/-- The path that an include line names between double quotes. -/
def includePath? (line : Text) : Option Text := do
  let t ← Text.skip? "#" line.skipBlanks
  let t ← Text.skip? "include" t.skipBlanks
  let t ← t.skipSomeBlanks?
  let t ← Text.skip? "\"" t
  let path := t.takeWhile Marker.isPathSymbol
  let _ ← Text.skip? "\"" (t.dropWhile Marker.isPathSymbol)
  guard (!path.isEmpty)
  return path

namespace Include

/-- Where a line leads if it is an include line, its path being seen from `base`. -/
def target (f : Files) (base : Path) (line : Text) : Except Failure (Option Place) :=
  match includePath? line with
  | none => .ok none
  | some path => do return some (← f.resolve (base.join (Path.ofText path)))

/-- For each line, where it leads if it is an include line. -/
def targets (f : Files) (base : Path) (lines : List Text) : Except Failure (List (Option Place)) :=
  lines.mapM (target f base)

/-- An include line for a header in the same directory. -/
def line (header : Path) (ending : Text) : Text :=
  "#include \"" ++ header.name ++ "\"" ++ ending

end Include

/-- A text with its new includes. -/
structure Injection where
  /-- The text. -/
  text : Text
  /-- The headers that were added, in order. -/
  added : List Path
  deriving DecidableEq, Inhabited, Repr

/-- A line with a line end, which it is given if it has none. -/
def closed (ending line : Text) : Text :=
  if line.endsWith "\n" then line else line ++ ending

/-- The lines with others put before the line with index `n`. The line before them is given a
    line end if it has none. -/
def insertLines (ending : Text) (lines : List Text) (n : Nat) (new : List Text) : List Text :=
  let before := lines.take n
  let before := match before.getLast? with
    | none => before
    | some l => before.dropLast ++ [closed ending l]
  before ++ new ++ lines.drop n

/-- The text of a unit with the includes it lacks, given the unit's own header and those of its
    siblings. -/
def Injection.ofText (f : Files) (base own : Path) (siblings : List Path) (t : Text) :
    Except Failure Injection := do
  let lines := t.codeLines
  let ending := Text.endingInUse lines
  let ownPlace ← f.resolve own
  let targets ← Include.targets f base lines
  let missing ← siblings.filterM fun h => do
    return !targets.contains (some (← f.resolve h))
  let anchor := targets.findIdx? (· == some ownPlace)
  -- Without a line for it the own header is added, before those of the siblings.
  let (position, added) := match anchor with
    | some i => (i + 1, missing)
    | none => (Position.includes lines (exported t), own :: missing)
  if added.isEmpty then
    return ⟨t, []⟩
  else
    let new := added.map (Include.line · ending)
    return ⟨(insertLines ending lines position new).flatten, added⟩

end DialectBuild
