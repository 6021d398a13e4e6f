import DialectBuild.Text.Line

/-!
# Lexemes of C Text

C text cut into the pieces a compiler would see: words, literals and punctuation, and between
them blanks, line feeds, comments and preprocessor lines. Every piece keeps its text, so that
the pieces join to what was read.

Reading never fails on strange input. A literal that is not closed ends at its line, a block
comment that is not closed ends with the text, and any symbol that is no white space can
stand as punctuation. Only white space that C text does not use, such as a no-break space,
is no piece at all: reading ends there.

A `#` opens a preprocessor line only as the first piece of a line that is not a blank or a
comment, and the line then goes on through each backslash that escapes its line feed.

## Main definitions

* `LexemeKind`, `Lexeme`: A piece of text and what it is.
* `Tail`: How a piece goes on once its start is known.
* `LexemeRule`: How one kind of piece is read.
* `Lexeme.rules`: The rules of C text, in order.
* `Lexeme.next?`: The first piece of a text.
* `lexemesFrom`, `lexemes`: All pieces of a text.
* `unread`: What is left where reading ends.

## Theorems

* `Lexeme.next?_eq_some`: The first piece is not empty and the text goes on after it.
* `lexemesFrom_append`: The pieces and the unread rest join to the text.
-/

namespace DialectBuild

/-- What a token is. -/
inductive TokenKind where
  | ident
  | number
  | string
  | char
  | punct
  deriving DecidableEq, Inhabited, Repr

/-- What a piece of C text is. -/
inductive LexemeKind where
  /-- A line feed. -/
  | newline
  /-- Blanks inside a line, or an escaped line feed. -/
  | blank
  /-- A comment of either form. -/
  | comment
  /-- A preprocessor line, from its `#` up to its line feed. -/
  | directive
  /-- A piece that a compiler reads. -/
  | token (kind : TokenKind)
  deriving DecidableEq, Inhabited, Repr

/-- A piece of C text. -/
structure Lexeme where
  /-- What the piece is. -/
  kind : LexemeKind
  /-- The piece itself. -/
  text : Text
  deriving DecidableEq, Inhabited, Repr

/-- A way to go on with a piece once its start is known: what belongs to it, and the rest. -/
structure Tail where
  /-- The split itself. -/
  take : Text → Text × Text
  /-- Nothing is lost in between. -/
  append : ∀ s, (take s).1 ++ (take s).2 = s

namespace Tail

/-- Nothing more belongs to the piece. -/
def none : Tail :=
  ⟨fun s => ([], s), fun _ => rfl⟩

/-- All symbols of the class `p` that follow. -/
def run (p : Symbol → Bool) : Tail :=
  ⟨fun s => (s.takeWhile p, s.dropWhile p), fun _ => List.takeWhile_append_dropWhile⟩

/-- Everything up to the end of a block comment, or all there is. -/
def takeBlock : Text → Text × Text
  | [] => ([], [])
  | .char '*' :: .char '/' :: r => ([.char '*', .char '/'], r)
  | x :: r => (x :: (takeBlock r).1, (takeBlock r).2)

/-- Symbols up to a line feed or a symbol of the class `stop`. A backslash takes the symbol
    after it along, whatever that is. -/
def takeEscaped (stop : Symbol → Bool) : Text → Text × Text
  | [] => ([], [])
  | .char '\\' :: x :: r =>
      (.char '\\' :: x :: (takeEscaped stop r).1, (takeEscaped stop r).2)
  | x :: r =>
      -- A backslash is met here only at the end of the text, where it escapes nothing.
      if x = '\\' ∨ x = '\n' ∨ stop x then ([], x :: r)
      else (x :: (takeEscaped stop r).1, (takeEscaped stop r).2)

/-- The body of a literal and the quote `q` that closes it, if it is there. -/
def takeLiteral (q : Symbol) (s : Text) : Text × Text :=
  match takeEscaped (· = q) s with
  | (body, x :: r) => if x = q then (body ++ [x], r) else (body, x :: r)
  | (body, []) => (body, [])

/-- A symbol that goes on a number by itself. -/
def isNumberSymbol (x : Symbol) : Bool :=
  x.isWord || x = '.'

/-- A letter after which a sign belongs to the number. -/
def isExponent (x : Symbol) : Bool :=
  x = 'e' || x = 'E' || x = 'p' || x = 'P'

/-- A sign. -/
def isSign (x : Symbol) : Bool :=
  x = '+' || x = '-'

/-- The rest of a number after its first digit. -/
def takeNumber : Text → Text × Text
  | [] => ([], [])
  | [x] => if isNumberSymbol x then ([x], []) else ([], [x])
  | x :: y :: r =>
      -- Tried first: the letter alone goes on the number, too, and would leave its sign behind.
      if isExponent x && isSign y then
        (x :: y :: (takeNumber r).1, (takeNumber r).2)
      else if isNumberSymbol x then
        (x :: (takeNumber (y :: r)).1, (takeNumber (y :: r)).2)
      else
        ([], x :: y :: r)

theorem takeBlock_append (s : Text) : (takeBlock s).1 ++ (takeBlock s).2 = s := by
  fun_induction takeBlock s with
  | case1 => rfl
  | case2 r => rfl
  | case3 x r _ ih => simp only [List.cons_append, ih]

theorem takeEscaped_append (stop : Symbol → Bool) (s : Text) :
    (takeEscaped stop s).1 ++ (takeEscaped stop s).2 = s := by
  fun_induction takeEscaped stop s with
  | case1 => rfl
  | case2 x r ih => simp only [List.cons_append, ih]
  | case3 x r _ _ => rfl
  | case4 x r _ _ ih => simp only [List.cons_append, ih]

theorem takeLiteral_append (q : Symbol) (s : Text) :
    (takeLiteral q s).1 ++ (takeLiteral q s).2 = s := by
  have h := takeEscaped_append (· = q) s
  unfold takeLiteral
  split
  next body x r heq =>
    rw [heq] at h
    split <;> simp only [List.append_assoc, List.singleton_append] <;> exact h
  next body heq =>
    rw [heq] at h
    exact h

theorem takeNumber_append (s : Text) : (takeNumber s).1 ++ (takeNumber s).2 = s := by
  fun_induction takeNumber s with
  | case1 => rfl
  | case2 x _ => rfl
  | case3 x _ => rfl
  | case4 x y r _ ih => simp only [List.cons_append, ih]
  | case5 x y r _ _ ih => simp only [List.cons_append, ih]
  | case6 x y r _ _ => rfl

/-- The rest of a block comment. -/
def block : Tail :=
  ⟨takeBlock, takeBlock_append⟩

/-- The rest of a literal that the quote `q` closes. -/
def literal (q : Symbol) : Tail :=
  ⟨takeLiteral q, takeLiteral_append q⟩

/-- The rest of a number. -/
def number : Tail :=
  ⟨takeNumber, takeNumber_append⟩

/-- The rest of a preprocessor line. -/
def directive : Tail :=
  ⟨takeEscaped fun _ => false, takeEscaped_append _⟩

end Tail

/-- A rule for reading one kind of piece: how it starts and how it goes on. -/
structure LexemeRule where
  /-- What the piece is. -/
  kind : LexemeKind
  /-- How many symbols tell that such a piece starts here. -/
  width : Nat
  /-- Whether these symbols start such a piece. -/
  starts : Text → Bool
  /-- How the piece goes on after them. -/
  tail : Tail
  /-- At least one symbol does. -/
  width_pos : 0 < width

namespace LexemeRule

/-- Reads a piece off the front of the text if the rule applies there. -/
def read? (rule : LexemeRule) (s : Text) : Option (Lexeme × Text) :=
  -- A start that the end of the text cuts short does not count.
  if (s.take rule.width).length = rule.width ∧ rule.starts (s.take rule.width) then
    let taken := rule.tail.take (s.drop rule.width)
    some (⟨rule.kind, s.take rule.width ++ taken.1⟩, taken.2)
  else
    none

/-- A rule takes a piece off the front of the text and nothing else. -/
theorem read?_eq_some {rule : LexemeRule} {s : Text} {l : Lexeme} {rest : Text}
    (h : rule.read? s = some (l, rest)) : l.text ≠ [] ∧ l.text ++ rest = s := by
  unfold read? at h
  split at h
  next hs =>
    simp only [Option.some.injEq, Prod.mk.injEq] at h
    obtain ⟨rfl, rfl⟩ := h
    constructor
    · intro hnil
      have hlen := hs.1
      rw [(List.append_eq_nil_iff.mp hnil).1, List.length_nil] at hlen
      exact absurd hlen (Nat.ne_of_lt rule.width_pos)
    · rw [List.append_assoc, rule.tail.append, List.take_append_drop]
  next => simp only [reduceCtorEq] at h

end LexemeRule

namespace Lexeme

/-- Blanks that may stand inside a line. -/
def isInnerBlank (x : Symbol) : Bool :=
  x = ' ' || x = '\t' || x = '\r' || x = '\x0c' || x = '\x0b'

/-- A symbol that may start an identifier. -/
def isIdentStart : Symbol → Bool
  | .char c => c.isAlpha || c == '_'
  | .byte _ => false

/-- A point and a digit. -/
def isFraction : Text → Bool
  | [x, y] => x = '.' && y.isDigit
  | _ => false

/-- The rules in the order in which they are tried. `lineStart` says whether a `#` would open
    a preprocessor line. -/
def rules (lineStart : Bool) : List LexemeRule := [
  ⟨.newline, 1, (· == "\n"), .none, by decide⟩,
  ⟨.blank, 1, (·.all isInnerBlank), .run isInnerBlank, by decide⟩,
  -- A backslash anywhere else is punctuation.
  ⟨.blank, 2, (· == "\\\n"), .none, by decide⟩,
  ⟨.comment, 2, (· == "//"), .run (· != .char '\n'), by decide⟩,
  ⟨.comment, 2, (· == "/*"), .block, by decide⟩,
  ⟨.token .string, 1, (· == "\""), .literal '\x22', by decide⟩,
  ⟨.token .char, 1, (· == "'"), .literal '\x27', by decide⟩,
  ⟨.token .ident, 1, (·.all isIdentStart), .run Symbol.isWord, by decide⟩,
  ⟨.token .number, 1, (·.all Symbol.isDigit), .number, by decide⟩,
  -- Before punctuation, which would take the point alone.
  ⟨.token .number, 2, isFraction, .number, by decide⟩,
  -- Past the start of a line a `#` is punctuation.
  ⟨.directive, 1, fun s => lineStart && s == "#", .directive, by decide⟩,
  ⟨.token .punct, 3, (· == "..."), .none, by decide⟩,
  ⟨.token .punct, 2, (· == "->"), .none, by decide⟩,
  -- Whatever is left, except other white space: there reading ends.
  ⟨.token .punct, 1, fun s => !s.all Symbol.isBlank, .none, by decide⟩]

/-- The first piece of a text. -/
def next? (lineStart : Bool) (s : Text) : Option (Lexeme × Text) :=
  (rules lineStart).findSome? (·.read? s)

/-- The first piece of a text is not empty, and the text goes on right after it. -/
theorem next?_eq_some {lineStart : Bool} {s : Text} {l : Lexeme} {rest : Text}
    (h : next? lineStart s = some (l, rest)) : l.text ≠ [] ∧ l.text ++ rest = s := by
  obtain ⟨rule, _, hr⟩ := List.exists_of_findSome?_eq_some h
  exact LexemeRule.read?_eq_some hr

/-- What follows the first piece is shorter than the text. -/
theorem length_lt_of_next? {lineStart : Bool} {s : Text} {l : Lexeme} {rest : Text}
    (h : next? lineStart s = some (l, rest)) : rest.length < s.length := by
  obtain ⟨hne, hs⟩ := next?_eq_some h
  rw [← hs, List.length_append]
  have := List.length_pos_iff.mpr hne
  omega

/-- Whether a `#` right after this piece would open a preprocessor line. -/
def lineStartAfter (l : Lexeme) (lineStart : Bool) : Bool :=
  match l.kind with
  | .newline => true
  | .token _ => false
  -- A preprocessor line changes nothing: it stops before its line feed, which does.
  | _ => lineStart

end Lexeme

/-- The pieces of a text and the rest at which reading ends. -/
def lexemesFrom (lineStart : Bool) (s : Text) : List Lexeme × Text :=
  match _h : Lexeme.next? lineStart s with
  | none => ([], s)
  | some (l, rest) =>
      let more := lexemesFrom (l.lineStartAfter lineStart) rest
      (l :: more.1, more.2)
termination_by s.length
decreasing_by exact Lexeme.length_lt_of_next? _h

/-- The pieces of a text. -/
def lexemes (s : Text) : List Lexeme :=
  (lexemesFrom true s).1

/-- The rest of a text at which reading ends. -/
def unread (s : Text) : Text :=
  (lexemesFrom true s).2

theorem lexemesFrom_append (lineStart : Bool) (s : Text) :
    ((lexemesFrom lineStart s).1.map Lexeme.text).flatten ++ (lexemesFrom lineStart s).2 = s := by
  fun_induction lexemesFrom lineStart s with
  | case1 lineStart s h => rfl
  | case2 lineStart s l rest h more ih =>
      simp only [List.map_cons, List.flatten_cons, List.append_assoc]
      rw [ih]
      exact (Lexeme.next?_eq_some h).2

end DialectBuild
