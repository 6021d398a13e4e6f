import DialectBuild.Text.Basic
import DialectBuild.Text.Property.Width

/-!
# Text in Columns

Text on a terminal, where characters take different numbers of columns. A tab goes to the
next multiple of eight columns, and controls that would move the cursor are left out.

## Main definitions

* `Text.columns`: How many columns a text takes.
* `Text.displayed`: A text as it is displayed.
* `Text.padEnd`, `Text.padStart`, `Text.padAround`: A text filled up to a number of columns.
-/

namespace DialectBuild

/-- The number of columns that a symbol takes. -/
def Symbol.columns : Symbol → Nat
  | .char c => Property.width c
  | .byte _ => 1

namespace Text

/-- The number of columns that a text takes. -/
def columns (t : Text) : Nat :=
  t.foldl (fun n x => n + x.columns) 0

/-- Whether a symbol is a control that moves the cursor: the bell, the backspace, the vertical
    tab, the form feed and the carriage return. -/
def isCursorControl : Symbol → Bool
  | .char c => c.toNat = 7 || c.toNat = 8 || (11 ≤ c.toNat && c.toNat ≤ 13)
  | .byte _ => false

/-- The columns between two tab stops. -/
def tabWidth : Nat := 8

/-- Spaces. -/
def spaces (n : Nat) : Text :=
  List.replicate n (.char ' ')

/-- Replaces tabs by spaces. The number is the column that is reached. -/
def expandTabsFrom : Nat → Text → Text
  | _, [] => []
  | column, x :: t =>
      if x = .char '\n' then
        x :: expandTabsFrom 0 t
      else if x = .char '\t' then
        let n := tabWidth - column % tabWidth
        spaces n ++ expandTabsFrom (column + n) t
      else
        x :: expandTabsFrom (column + x.columns) t

/-- A text as it is displayed. -/
def displayed (t : Text) : Text :=
  expandTabsFrom 0 (t.filter (!isCursorControl ·))

/-- A text with spaces after it that fills a number of columns. -/
def padEnd (n : Nat) (t : Text) : Text :=
  t ++ spaces (n - t.columns)

/-- A text with spaces before it that fills a number of columns. -/
def padStart (n : Nat) (t : Text) : Text :=
  spaces (n - t.columns) ++ t

/-- A text in the middle of a number of columns. An odd space goes after it. -/
def padAround (n : Nat) (t : Text) : Text :=
  padEnd n (spaces ((n - t.columns) / 2) ++ t)

end Text

end DialectBuild
