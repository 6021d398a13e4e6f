import DialectBuild.Unit.Basic
import DialectBuild.Workspace

/-!
# Discovery

The sources of a project: every file below its root whose name has the ending of sources and
something before it, except in hidden directories. They come in the order of their paths
below the root, whatever order the directories list their entries in.

All directories below the root are walked, hidden ones as well, and each is listed by its path from
the root. A directory that may not be listed is passed over. A path that is too long is an error,
and so are directories that are nested too deep: the walk enters each of them from within the one
above it, and there is room for a certain number of them only.

## Main definitions

* `Discovery.isHidden`: Whether a path leads through a hidden directory.
* `Discovery.collect`: The files that may be sources, directory by directory.
* `Files.sources`: The sources below a directory.
* `discover`: The units of a project.
-/

namespace DialectBuild

namespace Discovery

/-- Whether names lead through a hidden directory, the last one not counted. -/
def isHidden (names : List Text) : Bool :=
  names.dropLast.any (·.startsWith ".")

/-- Whether names lead to something that may be a source. -/
def isCandidate (names : List Text) : Bool :=
  names.getLast?.any fun name => name.endsWith sourceEnding

/-- Whether the names of a candidate are accepted: it has a name of its own and is not
    hidden. -/
def isAccepted (names : List Text) : Bool :=
  names.getLast? != some sourceEnding && !isHidden names

/-- Names as a path. -/
def pathText (names : List Text) : Text :=
  Path.text ⟨.relative, names⟩

/-- Names in the order of their paths. -/
def le (a b : List Text) : Bool :=
  Text.le (pathText a) (pathText b)

/-- A discovery error. -/
def error (message : Text) : Failure :=
  .build { kind := .noSources, message := message, stage := some "discover" }

end Discovery

/-- A path with more names after it. -/
def Path.descend (p : Path) (names : List Text) : Path :=
  { p with parts := p.parts ++ names }

namespace Discovery

/-- How many directories a walk can be in, one inside the other. Each takes a frame of a stack of a
    thousand, some of which are taken when the walk begins. -/
def maxDepth : Nat := 980

/-- Whether a failure says that something is not allowed. -/
def isDenied : Failure → Bool
  | .os e => e.errno = .permission
  | _ => false

/-- Those of some names that lead to files which may be sources. A link to a file counts as a
    file. -/
def filesAmong (f : Files) (root : Path) (listed : List (List Text)) :
    Except Failure (List (List Text)) :=
  (listed.filter isCandidate).filterM fun names => f.isFile (root.descend names)

/-- What an entry that names lead to adds to a walk, which goes on with `enter` in a directory. -/
def visit (f : Files) (root : Path) (enter : List Text → Except Failure (List (List Text)))
    (names : List Text) : Option Entry → Except Failure (List (List Text))
  | some .dir => enter names
  | some (.link _) => do
      -- What a link leads to is looked at, but not entered.
      let _ ← f.isDir (root.descend names)
      return []
  | _ => .ok []

/-- The files that may be sources in the directory that names lead to from the root, and in the
    directories below it. The number is how many directories can be entered. -/
def collect (f : Files) (root : Path) : Nat → List Text → Except Failure (List (List Text))
  | 0, _ => .error .tooDeep
  | depth + 1, names =>
      match f.openDir (root.descend names) with
      | .error e => if isDenied e then .ok [] else .error e
      | .ok place => do
          let listed := (f.tree.names place).mergeSort Text.le
          let own ← filesAmong f root (listed.map fun x => names ++ [x])
          let deeper ← listed.mapM fun x =>
            visit f root (collect f root depth) (names ++ [x]) (f.tree.find? (place ++ [x]))
          return own ++ deeper.flatten

end Discovery

/-- The sources below a directory, in order. The number is how many directories a walk can be in,
    one inside the other. -/
def Files.sources (f : Files) (root : Path) (depth : Nat := Discovery.maxDepth) :
    Except Failure (List Path) := do
  if !(← f.isDir root) then
    throw (Discovery.error ("Source root is not a directory: " ++ root.text))
  let found ← Discovery.collect f root depth []
  let accepted := found.filter Discovery.isAccepted
  return (accepted.mergeSort Discovery.le).map root.descend

/-- The units of a project, of which there must be one. -/
def discover (root : Path) : Action Workspace (List TranslationUnit) := do
  let sources : List Path ← FileAction.query (·.sources root)
  if sources.isEmpty then
    throw (Discovery.error ("No .cz source units found under " ++ root.text))
  Workspace.notify (.debug .discovery
    ("Discovered " ++ Text.ofNat sources.length ++ " unit(s) under " ++ root.text))
  return sources.map TranslationUnit.ofSource

end DialectBuild
