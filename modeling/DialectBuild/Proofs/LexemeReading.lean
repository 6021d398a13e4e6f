import Mathlib
import DialectBuild.Code.Lexeme

/-!
# How Pieces Are Read

What the rules of C text amount to. The rules are tried in order, so a rule applies only where
none before it does, and what it then reads is hidden behind all the others. `Lexeme.Reads`
says it rule by rule instead: which symbols a piece of each sort starts with, and what goes
on with it. Only a single punctuation mark still has to say what it is not, since it is what
is left when nothing else applies.

Most symbols settle by themselves what starts with them. Five depend on what follows: a
slash may open a comment, a point a number or an ellipsis, a minus sign an arrow, a backslash
may hide a line feed, and a hash at the start of a line opens a preprocessor line.

## Main definitions

* `Lexeme.quoteKind?`: The literals by their quotes.
* `Lexeme.isOpener`: The symbols that never stand as punctuation.
* `Lexeme.joins`: A punctuation mark that is not read alone before what follows it.
* `Lexeme.Reads`: The piece that a text starts with.

## Theorems

* `Lexeme.next?_eq_some_iff`: The rules in their order read exactly these pieces.
-/

namespace DialectBuild

namespace LexemeRule

/-- A rule reads a start of its width and what its tail takes after it. -/
theorem read?_eq_some_iff {rule : LexemeRule} {s : Text} {l : Lexeme} {rest : Text} :
    rule.read? s = some (l, rest) ↔ ∃ start more b, s = start ++ more ∧
      start.length = rule.width ∧ rule.starts start = true ∧ rule.tail.take more = (b, rest) ∧
      l = ⟨rule.kind, start ++ b⟩ := by
  rw [read?]
  constructor
  · intro h
    split at h
    next hs =>
      simp only [Option.some.injEq, Prod.mk.injEq] at h
      exact ⟨s.take rule.width, s.drop rule.width, _, (List.take_append_drop _ _).symm, hs.1,
        hs.2, Prod.ext rfl h.2, h.1.symm⟩
    next => simp only [reduceCtorEq] at h
  · rintro ⟨start, more, b, rfl, hlen, hstart, htake, rfl⟩
    have hfront : (start ++ more).take rule.width = start := by rw [← hlen, List.take_left]
    have hback : (start ++ more).drop rule.width = more := by rw [← hlen, List.drop_left]
    rw [hfront, hback, if_pos ⟨hlen, hstart⟩, htake]

end LexemeRule

namespace Lexeme

/-- The literal that a quote opens. -/
def quoteKind? (x : Symbol) : Option TokenKind :=
  if x = '"' then some .string else if x = '\'' then some .char else none

/-- A symbol that opens a word, a number or a literal, whatever follows it. -/
def isOpener (x : Symbol) : Bool :=
  (quoteKind? x).isSome || isIdentStart x || x.isDigit

/-- Whether the punctuation mark `x` joins with what follows it: a slash to a comment, a point
    to a number or an ellipsis, a minus sign to an arrow. -/
def joins (x : Symbol) (r : Text) : Bool :=
  (x = '/' && (r.head? = some (.char '/') || r.head? = some (.char '*'))) ||
  (x = '.' && (r.head?.any Symbol.isDigit || r.startsWith "..")) ||
  (x = '-' && r.head? = some (.char '>'))

/-- The piece that a text starts with, and the rest after it. -/
inductive Reads (lineStart : Bool) : Text → Lexeme → Text → Prop
  | newline (r : Text) : Reads lineStart (.char '\n' :: r) ⟨.newline, "\n"⟩ r
  | blank {x : Symbol} {s b r : Text} (hx : isInnerBlank x = true)
      (hs : (Tail.run isInnerBlank).take s = (b, r)) :
      Reads lineStart (x :: s) ⟨.blank, x :: b⟩ r
  | splice (r : Text) : Reads lineStart (.char '\\' :: .char '\n' :: r) ⟨.blank, "\\\n"⟩ r
  | lineComment {s b r : Text} (hs : (Tail.run (· != .char '\n')).take s = (b, r)) :
      Reads lineStart (.char '/' :: .char '/' :: s) ⟨.comment, .char '/' :: .char '/' :: b⟩ r
  | blockComment {s b r : Text} (hs : Tail.takeBlock s = (b, r)) :
      Reads lineStart (.char '/' :: .char '*' :: s) ⟨.comment, .char '/' :: .char '*' :: b⟩ r
  | literal {q : Symbol} {kind : TokenKind} {s b r : Text} (hq : quoteKind? q = some kind)
      (hs : Tail.takeLiteral q s = (b, r)) :
      Reads lineStart (q :: s) ⟨.token kind, q :: b⟩ r
  | ident {x : Symbol} {s b r : Text} (hx : isIdentStart x = true)
      (hs : (Tail.run Symbol.isWord).take s = (b, r)) :
      Reads lineStart (x :: s) ⟨.token .ident, x :: b⟩ r
  | number {x : Symbol} {s b r : Text} (hx : x.isDigit = true)
      (hs : Tail.takeNumber s = (b, r)) :
      Reads lineStart (x :: s) ⟨.token .number, x :: b⟩ r
  | fraction {x : Symbol} {s b r : Text} (hx : x.isDigit = true)
      (hs : Tail.takeNumber s = (b, r)) :
      Reads lineStart (.char '.' :: x :: s) ⟨.token .number, .char '.' :: x :: b⟩ r
  | directive {s b r : Text} (hline : lineStart = true) (hs : Tail.directive.take s = (b, r)) :
      Reads lineStart (.char '#' :: s) ⟨.directive, .char '#' :: b⟩ r
  | ellipsis (r : Text) :
      Reads lineStart (.char '.' :: .char '.' :: .char '.' :: r) ⟨.token .punct, "..."⟩ r
  | arrow (r : Text) : Reads lineStart (.char '-' :: .char '>' :: r) ⟨.token .punct, "->"⟩ r
  | mark {x : Symbol} {r : Text} (hopen : isOpener x = false) (hblank : x.isBlank = false)
      (hjoin : joins x r = false) (hsplice : ¬(x = '\\' ∧ r.head? = some (.char '\n')))
      (hhash : ¬(lineStart = true ∧ x = '#')) :
      Reads lineStart (x :: r) ⟨.token .punct, [x]⟩ r

theorem quoteKind?_eq_some_iff {q : Symbol} {kind : TokenKind} :
    quoteKind? q = some kind ↔ (q = '"' ∧ kind = .string) ∨ (q = '\'' ∧ kind = .char) := by
  rw [quoteKind?]
  constructor
  · intro h
    split at h
    next hq => exact Or.inl ⟨hq, (Option.some.inj h).symm⟩
    next =>
      split at h
      next hq => exact Or.inr ⟨hq, (Option.some.inj h).symm⟩
      next => simp only [reduceCtorEq] at h
  · rintro (⟨rfl, rfl⟩ | ⟨rfl, rfl⟩) <;> rfl

theorem quoteKind?_eq_none_iff {q : Symbol} : quoteKind? q = none ↔ q ≠ '"' ∧ q ≠ '\'' := by
  rw [quoteKind?]
  split <;> simp_all

/-- A symbol of a class differs from one that is not in it. -/
theorem ne_of_class {p : Symbol → Bool} {x y : Symbol} (hx : p x = true) (hy : p y = false) :
    x ≠ y := by
  rintro rfl
  rw [hx] at hy
  exact absurd hy (by decide)

/-- A symbol whose class leaves out the line feed and the blanks inside a line is none of
    them. -/
theorem visible_of_class {p : Symbol → Bool} {x : Symbol} (hx : p x = true)
    (hp : ∀ y ∈ ("\n \t\r\x0c\x0b" : Text), p y = false) :
    x ≠ '\n' ∧ isInnerBlank x = false := by
  refine ⟨ne_of_class hx (hp _ List.mem_cons_self), ?_⟩
  rcases hblank : isInnerBlank x with _ | _
  · rfl
  · have hmem : x ∈ (" \t\r\x0c\x0b" : Text) := by
      simpa [isInnerBlank, Text.ofString, or_assoc] using hblank
    rw [hp x (List.mem_cons_of_mem _ hmem)] at hx
    exact absurd hx (by decide)

theorem visible_of_isBlank {x : Symbol} (hx : x.isBlank = false) :
    x ≠ '\n' ∧ isInnerBlank x = false := by
  refine visible_of_class (p := fun y => !y.isBlank) ?_ (by decide)
  rw [hx]
  rfl

/-- Letters and the underscore lie in ASCII, above the digits. -/
theorem toNat_of_isIdentStart {c : Char} (h : isIdentStart (.char c) = true) :
    65 ≤ c.toNat ∧ c.toNat ≤ 122 := by
  have hcode : (65 ≤ c.toNat ∧ c.toNat ≤ 90 ∨ 97 ≤ c.toNat ∧ c.toNat ≤ 122) ∨ c = '_' := by
    simp only [isIdentStart, Char.isAlpha, Char.isUpper, Char.isLower, Bool.or_eq_true,
      Bool.and_eq_true, decide_eq_true_eq, beq_iff_eq, ge_iff_le, UInt32.le_iff_toNat_le] at h
    exact h
  rcases hcode with hcode | rfl
  · omega
  · decide

/-- A digit of any script starts no identifier, which only letters of ASCII do. -/
theorem isIdentStart_eq_false {x : Symbol} (h : x.isDigit = true) : isIdentStart x = false := by
  rcases x with c | b
  · rcases hstart : isIdentStart (.char c) with _ | _
    · rfl
    · have hcode := toNat_of_isIdentStart hstart
      rw [Symbol.isDigit, Property.isDecimal, if_pos (by omega)] at h
      have hdigit : c.toNat ≤ 57 := by
        simp only [Char.isDigit, Bool.and_eq_true, decide_eq_true_eq, UInt32.le_iff_toNat_le] at h
        exact h.2
      omega
  · rfl

/-- Rules that do not apply can be passed over. -/
theorem next?_eq_drop {lineStart : Bool} {s : Text} (n : Nat)
    (h : ∀ rule ∈ (rules lineStart).take n, rule.read? s = none) :
    Lexeme.next? lineStart s = ((rules lineStart).drop n).findSome? (·.read? s) := by
  have hsplit : Lexeme.next? lineStart s =
      ((rules lineStart).take n ++ (rules lineStart).drop n).findSome? (·.read? s) := by
    rw [List.take_append_drop, Lexeme.next?]
  rw [hsplit, List.findSome?_append, List.findSome?_eq_none_iff.mpr h, Option.none_or]

/-- A symbol whose class leaves out what starts a blank, a comment or a literal is left to the
    rules after those. -/
theorem next?_of_class {p : Symbol → Bool} {lineStart : Bool} {x : Symbol} {s : Text}
    (hx : p x = true) (hp : ∀ y ∈ ("\n \t\r\x0c\x0b\\/\"'" : Text), p y = false) :
    Lexeme.next? lineStart (x :: s) =
      ((rules lineStart).drop 7).findSome? (·.read? (x :: s)) := by
  rcases visible_of_class hx fun y hy => hp y (List.mem_append_left "\\/\"'" hy) with
    ⟨hfeed, hblank⟩
  have hback : x ≠ '\\' := ne_of_class hx (hp _ (by decide))
  have hslash : x ≠ '/' := ne_of_class hx (hp _ (by decide))
  have hdouble : x ≠ '"' := ne_of_class hx (hp _ (by decide))
  have hsingle : x ≠ '\'' := ne_of_class hx (hp _ (by decide))
  refine next?_eq_drop 7 ?_
  -- Two of these rules look at a second symbol, if there is one.
  rcases s with _ | ⟨y, s⟩
  · simp [rules, LexemeRule.read?, Text.ofString, hfeed, hblank, hdouble, hsingle]
  · simp [rules, LexemeRule.read?, Text.ofString, hfeed, hblank, hback, hslash, hdouble, hsingle]

/-- All rules but the last pass over a symbol exactly if it can stand as a punctuation mark, or
    is a blank that C text does not use. -/
theorem forall_read?_eq_none_iff {lineStart : Bool} {x : Symbol} {r : Text} :
    (∀ rule ∈ (rules lineStart).take 13, rule.read? (x :: r) = none) ↔
      x ≠ '\n' ∧ isInnerBlank x = false ∧ isOpener x = false ∧ joins x r = false ∧
      ¬(x = '\\' ∧ r.head? = some (.char '\n')) ∧ ¬(lineStart = true ∧ x = '#') := by
  -- A rule looks at three symbols at most, and what it asks of them is written out.
  rcases r with _ | ⟨y, _ | ⟨z, r⟩⟩ <;>
  simp [rules, LexemeRule.read?, Text.ofString, isFraction, joins, isOpener,
    quoteKind?_eq_none_iff, Text.startsWith] <;>
  grind

/-- Each piece is read by the first rule that applies to its start. -/
theorem Reads.next? {lineStart : Bool} {s rest : Text} {l : Lexeme}
    (h : Reads lineStart s l rest) : Lexeme.next? lineStart s = some (l, rest) := by
  -- The first symbol refutes the rules before the one that reads the lexeme.
  cases h with
  | newline r => rfl
  | blank hx hs =>
      have hfeed := ne_of_class (y := '\n') hx (by decide)
      simp [Lexeme.next?, rules, LexemeRule.read?, Text.ofString, hfeed, hx, hs]
  | splice r => rfl
  | lineComment hs =>
      simp [Lexeme.next?, rules, LexemeRule.read?, Text.ofString, isInnerBlank, hs]
  | blockComment hs =>
      simp [Lexeme.next?, rules, LexemeRule.read?, Text.ofString, isInnerBlank, Tail.block, hs]
  | @literal q kind s b r hq hs =>
      rcases quoteKind?_eq_some_iff.mp hq with ⟨rfl, rfl⟩ | ⟨rfl, rfl⟩
      · rcases s with _ | ⟨y, s⟩ <;>
        simp [Lexeme.next?, rules, LexemeRule.read?, Text.ofString, isInnerBlank, Tail.literal, hs]
      · rcases s with _ | ⟨y, s⟩ <;>
        simp [Lexeme.next?, rules, LexemeRule.read?, Text.ofString, isInnerBlank, Tail.literal, hs]
  | ident hx hs =>
      rw [next?_of_class hx (by decide)]
      simp [rules, LexemeRule.read?, hx, hs]
  | number hx hs =>
      rw [next?_of_class hx (by decide)]
      simp [rules, LexemeRule.read?, Tail.number, isIdentStart_eq_false hx, hx, hs]
  | fraction hx hs =>
      have hpoint : Symbol.isDigit '.' = false := by decide
      rw [next?_of_class (p := (· == .char '.')) rfl (by decide)]
      simp [rules, LexemeRule.read?, Tail.number, isIdentStart, isFraction, hpoint, hx, hs]
  | @directive s b r hline hs =>
      rw [next?_of_class (p := (· == .char '#')) rfl (by decide), hline]
      have hhash : Symbol.isDigit '#' = false := by decide
      rcases s with _ | ⟨y, s⟩ <;>
      simp [rules, LexemeRule.read?, Text.ofString, isIdentStart, isFraction, hhash, hs]
  | ellipsis r =>
      rw [next?_of_class (p := (· == .char '.')) rfl (by decide)]
      rcases lineStart with _ | _ <;> rfl
  | arrow r =>
      rw [next?_of_class (p := (· == .char '-')) rfl (by decide)]
      rcases lineStart with _ | _ <;> rcases rest with _ | ⟨y, r⟩ <;> rfl
  | mark hopen hblank hjoin hsplice hhash =>
      rcases visible_of_isBlank hblank with ⟨hfeed, hinner⟩
      -- A mark is what all thirteen rules before its own refuse.
      have hnone := forall_read?_eq_none_iff.mpr ⟨hfeed, hinner, hopen, hjoin, hsplice, hhash⟩
      rw [next?_eq_drop 13 hnone]
      simp [rules, LexemeRule.read?, Tail.none, hblank]

theorem eq_of_isFraction {s : Text} (h : isFraction s = true) :
    ∃ y : Symbol, s = [.char '.', y] ∧ y.isDigit = true := by
  unfold isFraction at h
  split at h
  next x y =>
    simp only [Bool.and_eq_true, decide_eq_true_eq] at h
    exact ⟨y, by rw [h.1], h.2⟩
  next => exact absurd h (by decide)

/-- A rule other than the last reads a piece of its sort wherever it applies. The order of the
    rules does not matter here, as no two of them know the same start. -/
theorem reads_of_read? {lineStart : Bool} {s rest : Text} {l : Lexeme} {rule : LexemeRule}
    (hrule : rule ∈ (rules lineStart).take 13) (h : rule.read? s = some (l, rest)) :
    Reads lineStart s l rest := by
  rcases LexemeRule.read?_eq_some_iff.mp h with ⟨start, more, b, rfl, hlen, hstart, htake, rfl⟩
  simp only [rules, List.take_succ_cons, List.take_zero, List.mem_cons, List.not_mem_nil,
    or_false] at hrule
  -- The thirteen rules in their order, each with the kind of lexeme that it reads.
  rcases hrule with rfl | rfl | rfl | rfl | rfl | rfl | rfl | rfl | rfl | rfl | rfl | rfl | rfl
  · rcases eq_of_beq hstart with rfl
    cases htake
    exact .newline _
  · rcases List.length_eq_one_iff.mp hlen with ⟨x, rfl⟩
    exact .blank (by simpa using hstart) htake
  · rcases eq_of_beq hstart with rfl
    cases htake
    exact .splice _
  · rcases eq_of_beq hstart with rfl
    exact .lineComment htake
  · rcases eq_of_beq hstart with rfl
    exact .blockComment htake
  · rcases eq_of_beq hstart with rfl
    exact .literal rfl htake
  · rcases eq_of_beq hstart with rfl
    exact .literal rfl htake
  · rcases List.length_eq_one_iff.mp hlen with ⟨x, rfl⟩
    exact .ident (by simpa using hstart) htake
  · rcases List.length_eq_one_iff.mp hlen with ⟨x, rfl⟩
    exact .number (by simpa using hstart) htake
  · rcases eq_of_isFraction hstart with ⟨y, rfl, hy⟩
    exact .fraction hy htake
  · simp only [Bool.and_eq_true] at hstart
    rcases eq_of_beq hstart.2 with rfl
    exact .directive hstart.1 htake
  · rcases eq_of_beq hstart with rfl
    cases htake
    exact .ellipsis _
  · rcases eq_of_beq hstart with rfl
    cases htake
    exact .arrow _

/-- The rules in their order read exactly the pieces that each rule describes. -/
theorem next?_eq_some_iff {lineStart : Bool} {s rest : Text} {l : Lexeme} :
    Lexeme.next? lineStart s = some (l, rest) ↔ Reads lineStart s l rest := by
  refine ⟨fun h => ?_, Reads.next?⟩
  rcases hearly : ((rules lineStart).take 13).findSome? (·.read? s) with _ | found
  · -- Only the last rule is left, and that no other applies is what a mark has to say.
    have hnone := List.findSome?_eq_none_iff.mp hearly
    rw [next?_eq_drop 13 hnone] at h
    rcases List.exists_of_findSome?_eq_some h with ⟨rule, hrule, hread⟩
    rcases List.mem_singleton.mp hrule with rfl
    rcases LexemeRule.read?_eq_some_iff.mp hread with ⟨start, r, b, rfl, hlen, hstart, htake, rfl⟩
    rcases List.length_eq_one_iff.mp hlen with ⟨x, rfl⟩
    cases htake
    rcases forall_read?_eq_none_iff.mp hnone with ⟨_, _, hopen, hjoin, hsplice, hhash⟩
    exact .mark hopen (by simpa using hstart) hjoin hsplice hhash
  · have hfirst : Lexeme.next? lineStart s = some found := by
      rw [Lexeme.next?, ← List.take_append_drop 13 (rules lineStart), List.findSome?_append,
        hearly, Option.some_or]
    rw [hfirst] at h
    cases h
    rcases List.exists_of_findSome?_eq_some hearly with ⟨rule, hrule, hread⟩
    exact reads_of_read? hrule hread

end Lexeme

end DialectBuild
