import DialectBuild.Code.Declaration
import DialectBuild.Directive.Basic
import DialectBuild.Import.Expansion
import DialectBuild.Unit.Artifact

/-!
# Translation Units

A source and what is known of it so far. A unit starts with nothing but the path of its
source. Each stage of the build adds to it, and two marks tell which of the stages that amend
its text have been passed, so that none is passed twice.

## Main definitions

* `TranslationUnit`: A source and what is known of it.
* `TranslationUnit.ofSource`: A unit of which nothing is known yet.
* `headersBeside`: The headers of the other units in a unit's directory.
-/

namespace DialectBuild

/-- A source and what is known of it so far. -/
structure TranslationUnit where
  /-- The path of the source. -/
  source : Path
  /-- The source as it was read. -/
  rawText : Text := []
  /-- The C text made from it so far. -/
  text : Text := []
  /-- The functions it exports. -/
  declarations : List Declaration := []
  /-- Its imports by module path, in order of first mention. -/
  imports : List (Text × Import) := []
  /-- The headers of the other units in its directory, in order. -/
  siblings : List Path := []
  /-- What its directives set. -/
  settings : Settings := {}
  /-- Whether its imports have been expanded. -/
  importsResolved : Bool := false
  /-- Whether its includes have been added. -/
  siblingsInjected : Bool := false
  deriving DecidableEq, Inhabited, Repr

namespace TranslationUnit

/-- A unit of which nothing but the source is known. -/
def ofSource (source : Path) : TranslationUnit :=
  { source := source }

/-- The directory of the unit, from which its imports are seen. -/
def directory (u : TranslationUnit) : Path :=
  u.source.parent

/-- Adds an import unless its module path is known already. -/
def addImport (imports : List (Text × Import)) (i : Import) : List (Text × Import) :=
  if imports.any (·.1 == i.modulePath) then imports else imports ++ [(i.modulePath, i)]

/-- The unit with its imports expanded. -/
def withExpansion (u : TranslationUnit) (x : Expansion) : TranslationUnit :=
  { u with
    text := x.text
    imports := x.imports.foldl addImport u.imports
    importsResolved := true }

/-- The imports that stand for no header. -/
def unresolved (u : TranslationUnit) : List Import :=
  (u.imports.map (·.2)).filter (!·.isResolved)

end TranslationUnit

/-- The headers of the other sources in the directory of `source`, in order, each once. -/
def headersBeside (source : Path) (sources : List Path) : Except Failure (List Path) := do
  let others := sources.filter fun s => s.parent = source.parent ∧ s ≠ source
  let headers ← others.mapM fun s => sibling s (s.name ++ ".h")
  return headers.eraseDups.mergeSort Path.le

end DialectBuild
