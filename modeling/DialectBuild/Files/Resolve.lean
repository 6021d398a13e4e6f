import DialectBuild.Files.Walk

/-!
# Canonical Places

The one place that a path stands for, whether or not there is anything. Two paths that lead
to the same file have the same canonical place, and this is how the build tells whether a
header is included or a directory imported already.

Names that lead nowhere are taken as they are, and a parent part after them takes the last
one back. Links are followed as far as there are any. A link that leads back to itself has no
place.

## Main definitions

* `Files.Resolution`: The place reached, and whether all links on the way could be followed.
* `Files.resolveNames`: Following names as far as they lead.
* `Files.resolve`: The canonical place of a path.

## Theorems

* `Files.resolveNames_nil`: No names lead to where one stands.
-/

namespace DialectBuild

namespace Files

/-- The place that names lead to. -/
inductive Resolution where
  /-- All links were followed. -/
  | complete (place : Place)
  /-- A link led back to itself; the place is as far as was come. -/
  | cyclic (place : Place)
  deriving DecidableEq, Inhabited, Repr

/-- A place with more names after it, parent parts taken back. -/
def extendPlace (here : Place) (names : List Text) : Place :=
  names.foldl
    (fun p x => if x = Path.up then p.dropLast else if x = Path.here then p else p ++ [x]) here

/-- Follows names from a place. `active` are the links that are being followed, and `links`
    bounds how many more of them there can be. -/
def resolveNames (t : Tree) (active : List Place) (links : Nat) (here : Place)
    (names : List Text) : Resolution :=
  match names with
  | [] => .complete here
  | x :: rest =>
      if x = Path.up then
        resolveNames t active links here.dropLast rest
      else if x = Path.here then
        resolveNames t active links here rest
      else
        let next := here ++ [x]
        match t.find? next with
        | some (.link target) =>
            match links with
            -- `links` starts above the number of links, so a cycle is seen before it runs out.
            | 0 => .cyclic (extendPlace next rest)
            | n + 1 =>
                if next ∈ active then
                  .cyclic (extendPlace next rest)
                else
                  match resolveNames t (next :: active) n (targetStart here target)
                      (targetNames target) with
                  -- The link has been followed to its end, so the rest may lead through it again.
                  | .complete place => resolveNames t active (n + 1) place rest
                  | .cyclic place => .cyclic (extendPlace place rest)
        | _ => resolveNames t active links next rest
termination_by (links, names.length)

theorem resolveNames_nil (t : Tree) (active : List Place) (links : Nat) (here : Place) :
    resolveNames t active links here [] = .complete here := by
  rw [resolveNames]

/-- The path that leads from the root to a place. -/
def absolutePath (place : Place) : Path :=
  ⟨.root, place⟩

/-- The canonical place of a path. A link that leads back to itself is a failure. -/
def resolve (f : Files) (p : Path) : Except Failure Place := do
  if p.text.contains (.char '\x00') then
    throw .embeddedNull
  let place := match resolveNames f.tree [] (f.tree.linkCount + 1) (f.start p) p.parts with
    | .complete place => place
    | .cyclic place => place
  -- A cycle matters only if the place itself cannot be reached because of it.
  match walk f.tree true maxLinks [] place with
  | .error .loop => .error (.symlinkLoop (absolutePath place).text)
  | _ => .ok place

end Files

end DialectBuild
