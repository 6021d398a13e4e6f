import DialectBuild.Failure

/-!
# Artifacts

The files that are generated from a source, and where they are put: next to it, with names
made from its name.

## Main definitions

* `sibling`: A path with its last part replaced.
* `temporaryFor`: Where a file is written before it is moved into place.
* `Artifacts`: The C text, the header and the object of a source.
* `Artifacts.ofSource`: Where the artifacts of a source are.

## Theorems

* `sibling_eq_ok_iff`: Exactly the paths with a last part have siblings.
-/

namespace DialectBuild

/-- How the names of sources end. -/
def sourceEnding : Text := ".cz"

/-- The path with its last part replaced. -/
def sibling (p : Path) (name : Text) : Except Failure Path :=
  match p.withName? name with
  | some q => .ok q
  | none => .error (.emptyName p)

theorem sibling_eq_ok_iff {p q : Path} {name : Text} :
    sibling p name = .ok q ↔
      p.parts ≠ [] ∧ q = { p with parts := p.parts.dropLast ++ [name] } := by
  unfold sibling Path.withName?
  by_cases h : p.parts = []
  · simp only [h, if_true, ne_eq, not_true_eq_false, false_and, reduceCtorEq]
  · simp only [h, if_false, Except.ok.injEq, ne_eq, not_false_eq_true, true_and]
    exact eq_comm

/-- Where a file is written before it is moved into place. -/
def temporaryFor (p : Path) : Except Failure Path :=
  sibling p (p.name ++ ".tmp")

/-- The name of a source without its ending. -/
def stem (source : Path) : Text :=
  source.name.take (source.name.length - sourceEnding.length)

/-- The files that are generated from a source. -/
structure Artifacts where
  /-- The C text. -/
  code : Path
  /-- The header. -/
  header : Path
  /-- The object. -/
  object : Path
  deriving DecidableEq, Inhabited, Repr

namespace Artifacts

/-- Where the artifacts of a source are. -/
def ofSource (source : Path) : Except Failure Artifacts := do
  let code ← sibling source (source.name ++ ".c")
  let header ← sibling source (source.name ++ ".h")
  let object ← sibling source (stem source ++ ".o")
  return ⟨code, header, object⟩

/-- The artifacts in the order in which they are made. -/
def toList (a : Artifacts) : List Path :=
  [a.code, a.header, a.object]

end Artifacts

end DialectBuild
