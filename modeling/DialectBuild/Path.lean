import DialectBuild.Text.Basic

/-!
# Paths

Path names as the build writes them: the parts between slashes, without empty parts and
without the part that names the directory it stands in. The part for a parent directory is
kept, because what it means depends on the links along the way.

## Main definitions

* `Anchor`: Where a path starts.
* `Path`: A start and a list of parts.
* `Path.ofText`, `Path.text`: Reading and writing a path.
* `Path.name?`, `Path.parent`, `Path.withName?`: The last part and what is before it.
* `Path.join`: A path taken relative to another one.
* `Path.relativeTo?`: What remains of a path below another one.
* `Path.le`: Paths ordered part by part.

## Theorems

* `Path.join_of_relative`: A relative path goes below the one it is joined to.
-/

namespace DialectBuild

/-- Where a path starts. A start of exactly two slashes is kept apart from the root. -/
inductive Anchor where
  | relative
  | root
  | doubleRoot
  deriving DecidableEq, Inhabited, Repr

namespace Anchor

/-- The slashes that stand for the start. -/
def text : Anchor → Text
  | relative => ""
  | root => "/"
  | doubleRoot => "//"

/-- The start that a number of leading slashes stands for. -/
def ofSlashes : Nat → Anchor
  | 0 => relative
  | 2 => doubleRoot
  | _ => root

end Anchor

/-- A path: its start and the parts between slashes. -/
structure Path where
  /-- Where the path starts. -/
  anchor : Anchor
  /-- The parts from first to last. -/
  parts : List Text
  deriving DecidableEq, Inhabited, Repr

namespace Path

/-- The part that names the directory it stands in. -/
def here : Text := "."

/-- The part that names the parent directory. -/
def up : Text := ".."

/-- A part that a path keeps: not empty and not the dot. -/
def isPart (t : Text) : Bool :=
  !t.isEmpty && t != here

/-- Reads a path. -/
def ofText (t : Text) : Path :=
  let slashes := (t.takeWhile (· == Symbol.char '/')).length
  ⟨Anchor.ofSlashes slashes, (Text.fields '/' t).filter isPart⟩

instance : Coe String Path := ⟨fun s => ofText (Text.ofString s)⟩

/-- Writes a path. A path without start and parts is the dot. -/
def text (p : Path) : Text :=
  if p.anchor = .relative ∧ p.parts = [] then here else p.anchor.text ++ Text.join "/" p.parts

/-- Whether the path starts at the root. -/
def isAbsolute (p : Path) : Bool :=
  p.anchor != .relative

/-- The last part. The root and the dot have none. -/
def name? (p : Path) : Option Text :=
  p.parts.getLast?

/-- The last part, or nothing for a path without parts. -/
def name (p : Path) : Text :=
  p.name?.getD []

/-- The path without its last part. -/
def parent (p : Path) : Path :=
  { p with parts := p.parts.dropLast }

/-- The path with its last part replaced, if it has one. -/
def withName? (p : Path) (name : Text) : Option Path :=
  if p.parts = [] then none else some { p with parts := p.parts.dropLast ++ [name] }

/-- The path with one more part. -/
def child (p : Path) (name : Text) : Path :=
  { p with parts := p.parts ++ [name] }

/-- The path `q` as seen from `p`. A path with a start of its own stays what it is. -/
def join (p q : Path) : Path :=
  if q.isAbsolute then q else { p with parts := p.parts ++ q.parts }

theorem join_of_relative {p q : Path} (h : q.anchor = .relative) :
    p.join q = { p with parts := p.parts ++ q.parts } := by
  simp only [join, isAbsolute, h, bne_self_eq_false, Bool.false_eq_true, if_false]

/-- What remains of `p` below `base`. -/
def relativeTo? (p base : Path) : Option Path :=
  if p.anchor = base.anchor ∧ base.parts.isPrefixOf p.parts then
    some ⟨.relative, p.parts.drop base.parts.length⟩
  else
    none

/-- The path as shown to someone standing in `base`. -/
def display (base p : Path) : Text :=
  ((p.relativeTo? base).getD p).text

/-- The start and the parts as codes, by which paths are ordered. -/
def codes (p : Path) : List (List Nat) :=
  (if p.isAbsolute then [p.anchor.text] else []) ++ p.parts |>.map Text.codes

/-- Paths ordered part by part: `q` does not come before `p`. -/
def le (p q : Path) : Bool :=
  !q.codes.lex p.codes fun a b => a.lex b (· < ·)

end Path

end DialectBuild
