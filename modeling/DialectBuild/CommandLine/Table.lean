import DialectBuild.Text.Columns

/-!
# Tables

Tables drawn with lines: a title, a row of headings and rows of cells. A column is as wide as
its widest cell, with a space on either side.

## Main definitions

* `Column`: The heading of a column, and on which side its cells are.
* `Table`: A title, columns and rows.
* `Table.render`: The table as text.
-/

namespace DialectBuild

/-- The heading of a column, and on which side its cells are. -/
structure Column where
  /-- The heading. -/
  heading : Text
  /-- Whether the cells are on the right side. -/
  isRight : Bool := false
  deriving DecidableEq, Inhabited, Repr

/-- A title, columns and rows. -/
structure Table where
  /-- What stands above the table. -/
  title : Text
  /-- The columns. -/
  columns : List Column
  /-- The rows, each with a cell for every column. -/
  rows : List (List Text)
  deriving DecidableEq, Inhabited, Repr

namespace Table

/-- The signs of a line across the table: the first, the one within a column, the one between
    columns and the last. -/
structure Border where
  /-- The first sign. -/
  left : Symbol
  /-- The sign within a column. -/
  inner : Symbol
  /-- The sign between columns. -/
  cross : Symbol
  /-- The last sign. -/
  right : Symbol

/-- The line above the headings. -/
def top : Border :=
  ⟨'┏', '━', '┳', '┓'⟩

/-- The line between the headings and the rows. -/
def middle : Border :=
  ⟨'┡', '━', '╇', '┩'⟩

/-- The line below the rows. -/
def bottom : Border :=
  ⟨'└', '─', '┴', '┘'⟩

/-- The width of each column, without the spaces around its cells. -/
def widths (t : Table) : List Nat :=
  let rows := t.columns.map Column.heading :: t.rows
  (List.range t.columns.length).map fun i =>
    (rows.map fun row => (row.getD i []).columns).max?.getD 0

/-- A line across the table. -/
def borderLine (t : Table) (b : Border) : Text :=
  let inner := t.widths.map fun w => List.replicate (w + 2) b.inner
  b.left :: Text.join [b.cross] inner ++ [b.right]

/-- A cell with the spaces around it. -/
def cell (c : Column) (width : Nat) (t : Text) : Text :=
  " " ++ (if c.isRight then Text.padStart width t else Text.padEnd width t) ++ " "

/-- A row of cells between signs. -/
def rowLine (t : Table) (sign : Symbol) (cells : List Text) : Text :=
  let padded := (t.columns.zip (t.widths.zip cells)).map fun (c, w, x) => cell c w x
  sign :: Text.join [sign] padded ++ [sign]

/-- The width of the whole table. -/
def width (t : Table) : Nat :=
  (t.borderLine top).length

/-- The lines of the table. -/
def lines (t : Table) : List Text :=
  [t.title.padAround t.width,
    t.borderLine top,
    t.rowLine '┃' (t.columns.map Column.heading),
    t.borderLine middle] ++
  t.rows.map (t.rowLine '│') ++
  [t.borderLine bottom]

/-- The table as text. -/
def render (t : Table) : Text :=
  Text.join "\n" t.lines

end Table

end DialectBuild
