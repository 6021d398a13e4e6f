import DialectBuild.Failure
import DialectBuild.Files.Tree

/-!
# Finding Files by Path

How a path leads to a place: name by name from the working directory or from the root, up for
each parent part, and through each link on the way. The last name may lead nowhere, so that a
file can be created there; any name before it must lead to a directory.

A walk gives up where a name leads through something that is no directory, where a name is
longer than the file system allows, and after too many links.

## Main definitions

* `Files`: A tree and the directory from which relative paths are seen.
* `Spot`: Where a path leads.
* `Files.walk`: Following names.
* `Files.spot`: Following a path.
* `Files.isDir`, `Files.isFile`, `Files.doesExist`: Questions about a path.
-/

namespace DialectBuild

/-- A tree and the directory from which relative paths are seen. -/
structure Files where
  /-- What is on disk. -/
  tree : Tree
  /-- The working directory. -/
  home : Place
  deriving DecidableEq, Inhabited, Repr

/-- Where a path leads. -/
inductive Spot where
  /-- To an entry. -/
  | present (place : Place) (entry : Entry)
  /-- To a free name in a directory. -/
  | absent (place : Place)
  deriving DecidableEq, Inhabited, Repr

/-- The place that a path leads to, whether there is an entry or not. -/
def Spot.place : Spot → Place
  | present place _ => place
  | absent place => place

namespace Files

/-- The most bytes that a name may have. -/
def maxName : Nat := 255

/-- The number of bytes that a path must stay below. -/
def maxPath : Nat := 4096

/-- The most links that a walk follows. -/
def maxLinks : Nat := 40

/-- The names that a link's target is made of. A slash at the end asks for a directory, which
    the dot stands for here. -/
def targetNames (target : Text) : List Text :=
  let names := (Text.fields '/' target).filter (!·.isEmpty)
  if target.endsWith "/" then names ++ [Path.here] else names

/-- Where a walk along a link's target starts that stands in the directory `here`. -/
def targetStart (here : Place) (target : Text) : Place :=
  if target.startsWith "/" then [] else here

/-- Follows names from a place, with a number of links that may still be followed. `follow`
    says whether a link at the very end is followed, too. -/
def walk (t : Tree) (follow : Bool) (links : Nat) (here : Place) (names : List Text) :
    Except Errno Spot :=
  match names with
  | [] =>
      match t.find? here with
      | some e => .ok (.present here e)
      | none => .error .noEntry
  | x :: rest =>
      -- Checked before a parent part or a dot, too: neither leads on from a file.
      if t.find? here ≠ some .dir then
        .error .notDirectory
      else if x = Path.up then
        walk t follow links here.dropLast rest
      else if x = Path.here then
        walk t follow links here rest
      else if maxName < x.byteLength then
        .error .nameTooLong
      else
        match t.find? (here ++ [x]) with
        -- Only the last name may be free.
        | none => if rest = [] then .ok (.absent (here ++ [x])) else .error .noEntry
        | some (.link target) =>
            if rest = [] ∧ !follow then
              .ok (.present (here ++ [x]) (.link target))
            else
              -- The target's names come first, and a relative target starts beside the link.
              match links with
              | 0 => .error .loop
              | n + 1 => walk t follow n (targetStart here target) (targetNames target ++ rest)
        | some _ => walk t follow links (here ++ [x]) rest
termination_by (links, names.length)

/-- Where a walk along a path starts. -/
def start (f : Files) (p : Path) : Place :=
  if p.isAbsolute then [] else f.home

/-- An error of the file system at a path. -/
def refuse (errno : Errno) (p : Path) : Failure :=
  .os { errno := errno, path := p.text }

/-- Where a path leads. `follow` says whether a link at its end is followed. -/
def spot (f : Files) (follow : Bool) (p : Path) : Except Failure Spot :=
  -- A path with a null byte is refused before the file system is asked.
  if p.text.contains (.char '\x00') then
    .error .embeddedNull
  else if maxPath ≤ p.text.byteLength then
    .error (refuse .nameTooLong p)
  else
    (walk f.tree follow maxLinks (f.start p) p.parts).mapError (refuse · p)

/-- Whether a failed question about a path is answered with no. A path that leads nowhere is,
    and one that cannot be a path; a name that is too long is an error. -/
def meansNo : Failure → Bool
  | .embeddedNull => true
  | .os e => e.errno = .noEntry || e.errno = .notDirectory || e.errno = .loop
  | _ => false

/-- Asks about the entry that a path leads to. -/
def ask (f : Files) (p : Path) (question : Entry → Bool) : Except Failure Bool :=
  match f.spot true p with
  | .ok (.present _ e) => .ok (question e)
  | .ok (.absent _) => .ok false
  | .error e => if meansNo e then .ok false else .error e

/-- Whether a path leads to a directory. -/
def isDir (f : Files) (p : Path) : Except Failure Bool :=
  f.ask p (· == .dir)

/-- Whether an entry is a regular file. -/
def isRegular : Entry → Bool
  | .file _ => true
  | _ => false

/-- Whether a path leads to a regular file. -/
def isFile (f : Files) (p : Path) : Except Failure Bool :=
  f.ask p isRegular

/-- Whether a path leads to anything. -/
def doesExist (f : Files) (p : Path) : Except Failure Bool :=
  f.ask p fun _ => true

end Files

end DialectBuild
