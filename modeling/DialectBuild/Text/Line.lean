import DialectBuild.Text.Basic

/-!
# Lines of a Text

Two ways of cutting a text into lines, neither of which loses a symbol. Code is cut after
each line feed only, since that is what line numbers count. Directives are looked for on
lines that end at a line feed, a carriage return, or the two together.

## Main definitions

* `Text.codeLines`: The lines that end at a line feed.
* `Text.logicalLines`: The lines that end at a line feed, a carriage return, or both.
* `Text.lineFeeds`: The number of line feeds.
* `Text.withLineFeeds`: The text with a line feed for every line end.
* `Text.splitEnding`: A line's body and the line end it has.
* `Text.endingInUse`: The line end in use.

## Theorems

* `Text.flatten_codeLines`: Code lines join to the text.
* `Text.flatten_logicalLines`: Logical lines join to the text.
-/

namespace DialectBuild

namespace Text

/-- Puts `x` at the front of the first line, or makes it a line if there is none. -/
def consToFirst (x : Symbol) : List Text → List Text
  | [] => [[x]]
  | l :: ls => (x :: l) :: ls

theorem flatten_consToFirst (x : Symbol) (ls : List Text) :
    (consToFirst x ls).flatten = x :: ls.flatten := by
  cases ls with
  | nil => rfl
  | cons l ls => rfl

/-- The text cut after each line feed. -/
def codeLines : Text → List Text
  | [] => []
  | x :: r => if x = '\n' then [x] :: codeLines r else consToFirst x (codeLines r)

theorem flatten_codeLines (t : Text) : t.codeLines.flatten = t := by
  induction t with
  | nil => rfl
  | cons x r ih =>
      rw [codeLines]
      split
      · simp only [List.flatten_cons, List.singleton_append, ih]
      · rw [flatten_consToFirst, ih]

/-- The text cut after each line feed, each carriage return, and each pair of the two. -/
def logicalLines : Text → List Text
  | [] => []
  | .char '\r' :: .char '\n' :: r => [.char '\r', .char '\n'] :: logicalLines r
  | x :: r => if x.isLineEnd then [x] :: logicalLines r else consToFirst x (logicalLines r)

theorem flatten_logicalLines (t : Text) : t.logicalLines.flatten = t := by
  fun_induction logicalLines t with
  | case1 => rfl
  | case2 r ih => simp only [List.flatten_cons, List.cons_append, List.nil_append, ih]
  | case3 x r _ _ ih => simp only [List.flatten_cons, List.singleton_append, ih]
  | case4 x r _ _ ih => rw [flatten_consToFirst, ih]

/-- The number of line feeds. -/
def lineFeeds (t : Text) : Nat :=
  t.count (.char '\n')

/-- The text with a line feed for every line end. -/
def withLineFeeds : Text → Text
  | .char '\r' :: .char '\n' :: t => .char '\n' :: withLineFeeds t
  | .char '\r' :: t => .char '\n' :: withLineFeeds t
  | x :: t => x :: withLineFeeds t
  | [] => []

/-- A line's body and the line end that follows it. -/
def splitEnding (line : Text) : Text × Text :=
  let body := trimEnd Symbol.isLineEnd line
  (body, line.drop body.length)

/-- The line end in use: that of the first line which has one. -/
def endingInUse (lines : List Text) : Text :=
  match lines.find? (·.endsWith "\n") with
  | some line => if line.endsWith "\r\n" then "\r\n" else "\n"
  | none => "\n"

end Text

end DialectBuild
