import DialectBuild.Code.Declaration
import DialectBuild.Text.Scan

/-!
# Where Includes Go

The place at which a unit's new include lines are put. They come after the leading block of
blank lines, comments and preprocessor lines, so that what the unit itself includes comes
first, and right before the first exported function, so that the types declared above it are
known to the prototypes. Blank lines just above that function stay with it.

The leading block is found line by line, without reading the code as tokens.

## Main definitions

* `Position.Mode`: What an earlier line of the leading block says about the next one.
* `Position.leadingEnd`: Where the leading block ends.
* `Position.includes`: Where includes go.

## Theorems

* `Position.raise_le`: Blank lines above only move a position up.
-/

namespace DialectBuild

namespace Position

/-- What the lines of the leading block read so far say about the next one. -/
inductive Mode where
  /-- It stands for itself. -/
  | plain
  /-- It is inside a block comment. -/
  | comment
  /-- It goes on the preprocessor line above. -/
  | continued
  deriving DecidableEq, Repr

/-- What a preprocessor line says about the next one: a backslash at its end takes it along. -/
def modeAfter (stripped : Text) : Mode :=
  if stripped.endsWith "\\" then .continued else .plain

/-- Whether a line is a preprocessor line. -/
def isPreprocessor (line : Text) : Bool :=
  line.skipBlanks.head? == some (.char '#')

/-- A line without the white space around it. -/
def stripped (line : Text) : Text :=
  line.trim Symbol.isBlank

/-- The position just past the last preprocessor line, `after`, or the first line of code if
    there is none. -/
def settle (after index : Nat) : Nat :=
  if after = 0 then index else after

/-- Reads the leading block from the line with the given index on. `after` is the position
    just past the last preprocessor line, or zero. -/
def leadingEndFrom (index : Nat) (mode : Mode) (after : Nat) : List Text → Nat
  | [] => settle after index
  | line :: rest =>
      let s := stripped line
      match mode with
      -- Part of the line above, whatever it looks like by itself.
      | .continued => leadingEndFrom (index + 1) (modeAfter s) (index + 1) rest
      | .comment =>
          leadingEndFrom (index + 1) (if Text.hasPart "*/" s then .plain else .comment) after rest
      | .plain =>
          if s.isEmpty || s.startsWith "//" then
            leadingEndFrom (index + 1) .plain after rest
          else if s.startsWith "/*" then
            -- Without the opening mark, whose star does not close the comment.
            if !Text.hasPart "*/" (s.drop 2) then
              leadingEndFrom (index + 1) .comment after rest
            else if s.endsWith "*/" then
              leadingEndFrom (index + 1) .plain after rest
            else
              settle after index
          else if isPreprocessor line then
            leadingEndFrom (index + 1) (modeAfter s) (index + 1) rest
          else
            settle after index

/-- Where the leading block of a unit ends, as the index of the line after it. -/
def leadingEnd (lines : List Text) : Nat :=
  leadingEndFrom 0 .plain 0 lines

/-- The position moved up over blank lines, but not above `floor`. -/
def raise (lines : List Text) (floor : Nat) : Nat → Nat
  | 0 => 0
  | p + 1 =>
      if floor < p + 1 ∧ (lines[p]?.getD []).all Symbol.isBlank then raise lines floor p else p + 1

theorem raise_le (lines : List Text) (floor p : Nat) : raise lines floor p ≤ p := by
  induction p with
  | zero => exact Nat.le_refl _
  | succ p ih =>
      rw [raise]
      split
      · exact Nat.le_succ_of_le ih
      · exact Nat.le_refl _

/-- Where the include lines of a unit go that exports `ds`, as the index of the line they are
    put before. -/
def includes (lines : List Text) (ds : List Declaration) : Nat :=
  let floor := leadingEnd lines
  match ds with
  | [] => floor
  -- Lines are counted from one, and the function may start above the end of the block.
  | d :: _ => raise lines floor (max floor (d.line - 1))

end Position

end DialectBuild
