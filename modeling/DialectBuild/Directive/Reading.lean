import DialectBuild.Directive.Basic
import DialectBuild.Text.Line

/-!
# Reading through a Buffer

Text is read in chunks no longer than a buffer. A line that does not fit is read in several
chunks, which belong together; a carriage return that fills the buffer may leave its line
feed for the next chunk, and that belongs to it, too. Whether a line is a directive is
decided on the whole line, so the size of the buffer has no say in it.

## Main definitions

* `BufferSize`: A size of at least one symbol.
* `Reading.chunk`: The next chunk and what remains.
* `Reading.chunks`: All chunks in order.
* `Reading.line`: The chunks of one line and what remains.
* `Reading.lines`: The chunks of a text, line by line.
* `Stripped`, `Stripped.ofText`: A text without its directives, and the directives.

## Theorems

* `Reading.chunk_append`: A chunk is taken off the front.
* `Reading.chunk_ne_nil`: A chunk is not empty.
* `Reading.length_chunk_lt`: A chunk leaves less to read.
-/

namespace DialectBuild

/-- The size of a buffer, in symbols. -/
structure BufferSize where
  /-- The number of symbols. -/
  size : Nat
  /-- A buffer holds at least one. -/
  pos : 0 < size
  deriving DecidableEq

namespace BufferSize

/-- The size of the buffer unless another one is asked for. -/
def default : BufferSize :=
  ⟨4096, by decide⟩

instance : Inhabited BufferSize := ⟨default⟩

/-- A number as the size of a buffer. -/
def ofInt? (n : Int) : Option BufferSize :=
  if h : 0 < n.toNat then some ⟨n.toNat, h⟩ else none

end BufferSize

namespace Reading

/-- The next chunk of at most `n` symbols and what remains. A chunk ends after a line feed, a
    carriage return, or both together if both fit. -/
def chunk : Nat → Text → Text × Text
  | 0, s => ([], s)
  | _ + 1, [] => ([], [])
  | n + 1, x :: r =>
      if x = '\n' then
        ([x], r)
      else if x = '\r' then
        if 0 < n ∧ r.head? = some (.char '\n') then (x :: r.take 1, r.drop 1) else ([x], r)
      else
        (x :: (chunk n r).1, (chunk n r).2)

theorem chunk_append (n : Nat) (s : Text) : (chunk n s).1 ++ (chunk n s).2 = s := by
  fun_induction chunk n s with
  | case1 s => rfl
  | case2 n => rfl
  | case3 n r => rfl
  | case4 n r _ _ => rw [List.cons_append, List.take_append_drop]
  | case5 n r _ _ => rfl
  | case6 n x r _ _ ih => simp only [List.cons_append, ih]

theorem chunk_ne_nil {n : Nat} (hn : 0 < n) {s : Text} (hs : s ≠ []) : (chunk n s).1 ≠ [] := by
  fun_cases chunk n s with
  | case1 s => exact absurd hn (Nat.lt_irrefl 0)
  | case2 n => exact absurd rfl hs
  | case3 n r => exact List.cons_ne_nil _ _
  | case4 n r _ _ => exact List.cons_ne_nil _ _
  | case5 n r _ _ => exact List.cons_ne_nil _ _
  | case6 n x r _ _ => exact List.cons_ne_nil _ _

theorem length_chunk_lt {n : Nat} (hn : 0 < n) {s : Text} (hs : s ≠ []) :
    (chunk n s).2.length < s.length := by
  have happ := congrArg List.length (chunk_append n s)
  rw [List.length_append] at happ
  have := List.length_pos_iff.mpr (chunk_ne_nil hn hs)
  omega

/-- All chunks of a text, in order. -/
def chunks (n : BufferSize) (s : Text) : List Text :=
  if _h : s = [] then
    []
  else
    (chunk n.size s).1 :: chunks n (chunk n.size s).2
termination_by s.length
decreasing_by exact length_chunk_lt n.pos _h

/-- Whether a chunk fills the buffer without ending a line, so that its line goes on. -/
def isCut (n : BufferSize) (c : Text) : Bool :=
  n.size ≤ c.length && !(c.getLast?.any Symbol.isLineEnd)

/-- Whether a chunk fills the buffer with a carriage return at its end, so that a line feed
    may still belong to it. -/
def endsAtReturn (n : BufferSize) (c : Text) : Bool :=
  n.size ≤ c.length && c.getLast? == some (.char '\r')

/-- The chunks of the line that `c` starts, and the chunks that remain. -/
def line (n : BufferSize) (c : Text) : List Text → List Text × List Text
  | [] => ([c], [])
  | d :: ds =>
      if isCut n c then
        (c :: (line n d ds).1, (line n d ds).2)
      else if endsAtReturn n c && d == "\n" then
        -- The buffer was full at the return, so its line feed is a chunk of its own.
        ([c, d], ds)
      else
        ([c], d :: ds)

theorem length_line_le (n : BufferSize) (c : Text) (cs : List Text) :
    (line n c cs).2.length ≤ cs.length := by
  induction cs generalizing c with
  | nil => exact Nat.le_refl _
  | cons d ds ih =>
      rw [line]
      split
      · exact Nat.le_succ_of_le (ih d)
      · split
        · exact Nat.le_succ _
        · exact Nat.le_refl _

/-- Chunks put together line by line. -/
def group (n : BufferSize) : List Text → List (List Text)
  | [] => []
  | c :: cs => (line n c cs).1 :: group n (line n c cs).2
termination_by cs => cs.length
decreasing_by exact Nat.lt_succ_of_le (length_line_le n c cs)

/-- The chunks of a text, line by line. -/
def lines (n : BufferSize) (s : Text) : List (List Text) :=
  group n (chunks n s)

end Reading

/-- A text without its directives, and the directives in order. -/
structure Stripped where
  /-- The lines that remain. -/
  text : Text
  /-- The lines that were removed. -/
  removed : List Text
  deriving DecidableEq, Inhabited, Repr

/-- Removes the directives from a text that is read through a buffer. -/
def Stripped.ofText (n : BufferSize) (s : Text) : Stripped :=
  let lines := (Reading.lines n s).map List.flatten
  ⟨(lines.filter (!isDirective ·)).flatten, lines.filter isDirective⟩

end DialectBuild
