import DialectBuild.Proofs.CarriageReturns
import DialectBuild.Proofs.JoinedTexts

/-!
# Tokens Before Carriage Returns

The tokens of a text whose lines end with carriage returns. They are the same tokens on the same
lines, but for literals without a closing quote, which end with their line and take the carriage
return along.

This needs that no line goes on behind a backslash. A backslash takes one symbol along, and that
is then the carriage return: the line feed ends the line. There is one more exception. A text may
end with an open literal, and then it ends without a line feed, or with a lone backslash behind
the literal. Nothing gets a carriage return there, so that the literal stays as it is.

The proof reads both texts piece by piece. `Lexeme.Reads.goesOn` is one step: the same piece is
read in both, and what is left is again a text and the same with carriage returns, up to a
carriage return that the piece may have taken.

## Main definitions

* `Token.isOpen`: A literal without a closing quote.
* `Token.returned`: A token at the end of a line with a carriage return.
* `tokensFrom`: The tokens of a text that starts on some line.
* `Lexeme.StaysInLine`: A piece that does not go over a line end.
* `Lexeme.GoesOn`: A piece after which reading goes on in step.

## Theorems

* `tokensFrom_of_reads`, `tokensFrom_blank_cons`: How tokens are read.
* `Lexeme.Reads.goesOn`: Reading one piece.
* `Lexeme.Reads.ends_open`: An open literal with which the text ends.
* `exists_tokensFrom_withReturns`: The tokens of a text with carriage returns.
-/

namespace DialectBuild

open Text

namespace Token

/-- Whether the token is a literal without its closing quote. -/
def isOpen (t : Token) : Bool :=
  match t.text with
  | [] => false
  | q :: b => decide (Lexeme.quoteKind? q = some t.kind) && Tail.isUnclosed q b

/-- The token at a line end that gets a carriage return, which an open literal takes along. -/
def returned (t : Token) : Token :=
  if t.isOpen then { t with text := t.text ++ [.char '\r'] } else t

theorem returned_of_closed {t : Token} (h : t.isOpen = false) : t.returned = t := by
  rw [returned, h]
  rfl

theorem isQuoted_of_isOpen {t : Token} (h : t.isOpen = true) : t.isQuoted = true := by
  rcases t with ⟨kind, _ | ⟨q, b⟩, line⟩
  · cases h
  · exact (Bool.and_eq_true_iff.mp h).1

theorem isOpen_of_not_isQuoted {t : Token} (h : t.isQuoted = false) : t.isOpen = false := by
  refine Bool.eq_false_iff.mpr fun hopen => ?_
  rw [isQuoted_of_isOpen hopen] at h
  cases h

theorem isOpen_of_kind {t : Token} (hstring : t.kind ≠ .string) (hchar : t.kind ≠ .char) :
    t.isOpen = false :=
  isOpen_of_not_isQuoted (isQuoted_of_kind hstring hchar)

theorem isOpen_literal {q : Symbol} {kind : TokenKind} (hq : Lexeme.quoteKind? q = some kind)
    (b : Text) (n : Nat) : isOpen ⟨kind, q :: b, n⟩ = Tail.isUnclosed q b := by
  rw [isOpen]
  simp [hq]

/-- A literal keeps its quote in front. -/
theorem isQuoted_returned (t : Token) : t.returned.isQuoted = t.isQuoted := by
  rw [returned]
  split
  next hopen =>
    have hquoted := isQuoted_of_isOpen hopen
    rw [hquoted]
    rcases t with ⟨kind, _ | ⟨q, b⟩, line⟩
    · cases hquoted
    · exact hquoted
  next => rfl

theorem keeps_returned : Keeps returned := by
  refine ⟨fun t => ?_, isQuoted_returned, fun t h => ?_⟩
  · rw [returned]
    split <;> rfl
  · rw [returned_of_closed (isOpen_of_not_isQuoted h)]

end Token

/-- The tokens of a text that starts on the given line. -/
def tokensFrom (n : Nat) (lineStart : Bool) (s : Text) : List Token :=
  tokensOf n (lexemesFrom lineStart s).1

section Tokens

variable {lineStart : Bool} {s rest : Text} {l : Lexeme}

/-- The tokens of a text are that of its first piece, if it is one, and those of the rest. -/
theorem tokensFrom_of_reads (n : Nat) (h : Lexeme.Reads lineStart s l rest) :
    tokensFrom n lineStart s = tokensOf n [l] ++
      tokensFrom (n + linesPassed [l]) (l.lineStartAfter lineStart) rest := by
  rw [tokensFrom, lexemesFrom_of_reads h]
  exact tokensOf_append_linesPassed n [l] _

theorem tokensFrom_of_none (n : Nat) (h : Lexeme.next? lineStart s = none) :
    tokensFrom n lineStart s = [] := by
  rw [tokensFrom, lexemesFrom_of_none h]
  rfl

theorem tokensFrom_nil (n : Nat) : tokensFrom n lineStart [] = [] :=
  tokensFrom_of_none n (by cases lineStart <;> rfl)

theorem noFeed_of_blanks {b : Text} (hb : ∀ x ∈ b, Lexeme.isInnerBlank x = true) :
    .char '\n' ∉ b :=
  fun hmem => absurd (hb _ hmem) (by decide)

/-- A blank inside a line changes nothing. -/
theorem tokensFrom_blank_cons (n : Nat) {x : Symbol} (hx : Lexeme.isInnerBlank x = true)
    (s : Text) : tokensFrom n lineStart (x :: s) = tokensFrom n lineStart s := by
  -- The piece that starts with the blank has the blanks after it too.
  have hread : ∀ {y}, Lexeme.isInnerBlank y = true → ∀ s : Text, tokensFrom n lineStart (y :: s) =
      tokensFrom n lineStart (s.dropWhile Lexeme.isInnerBlank) := by
    intro y hy s
    have hfeeds : lineFeeds (y :: s.takeWhile Lexeme.isInnerBlank) = 0 :=
      List.count_eq_zero.mpr (noFeed_of_blanks
        (List.forall_mem_cons.mpr ⟨hy, Tail.forall_of_run rfl⟩))
    rw [tokensFrom_of_reads n (.blank hy rfl), linesPassed_other (fun kind h => by cases h), hfeeds]
    rfl
  rw [hread hx]
  rcases s with _ | ⟨y, s⟩
  · rfl
  · by_cases hy : Lexeme.isInnerBlank y = true
    · rw [hread hy, List.dropWhile_cons_of_pos hy]
    · rw [List.dropWhile_cons_of_neg hy]

theorem tokensFrom_blanks_append (n : Nat) {b : Text}
    (hb : ∀ x ∈ b, Lexeme.isInnerBlank x = true) (s : Text) :
    tokensFrom n lineStart (b ++ s) = tokensFrom n lineStart s := by
  induction b with
  | nil => rfl
  | cons x b ih =>
      rcases List.forall_mem_cons.mp hb with ⟨hx, hb⟩
      rw [List.cons_append, tokensFrom_blank_cons n hx, ih hb]

/-- The carriage return of a line end is no token. -/
theorem tokensFrom_feed (n : Nat) (r : Text) :
    tokensFrom n lineStart (.char '\n' :: withReturns r) =
      tokensFrom n lineStart (withReturns (.char '\n' :: r)) := by
  rw [withReturns_feed]
  exact (tokensFrom_blank_cons n (by decide) _).symm

end Tokens

namespace Tail

/-- A piece that ends with its line may take the carriage return along, and what is left gives the
    same tokens. -/
theorem exists_take_withReturns (tail : Tail) {s b r : Text} (h : tail.take s = (b, r))
    (hb : .char '\n' ∉ b) (hr : tail.TakesReturn s b r) :
    ∃ more rest, tail.take (withReturns s) = (b ++ more, rest) ∧ .char '\n' ∉ more ∧
      ∀ n lineStart, tokensFrom n lineStart rest = tokensFrom n lineStart (withReturns r) := by
  rcases hr with hr | ⟨r', rfl, htake⟩
  · have happend := tail.append s
    rw [h] at happend
    have hs : withReturns s = s :=
      withReturns_of_noFeed (by rw [← happend, List.mem_append, not_or]; exact ⟨hb, hr⟩)
    refine ⟨[], r, by rw [hs, h, List.append_nil], List.not_mem_nil, fun n lineStart => ?_⟩
    rw [withReturns_of_noFeed hr]
  · exact ⟨[.char '\r'], _, htake, by decide, fun n lineStart => tokensFrom_feed n r'⟩

end Tail

namespace Lexeme

/-- The piece goes over a line end only if it is one or is a comment. -/
def StaysInLine (l : Lexeme) : Prop :=
  .char '\n' ∈ l.text → l.kind = .newline ∨ l.kind = .comment

instance (l : Lexeme) : Decidable l.StaysInLine :=
  inferInstanceAs (Decidable (.char '\n' ∈ l.text → l.kind = .newline ∨ l.kind = .comment))

theorem StaysInLine.noFeed {l : Lexeme} (h : l.StaysInLine) (hnewline : l.kind ≠ .newline)
    (hcomment : l.kind ≠ .comment) : .char '\n' ∉ l.text :=
  fun hmem => (h hmem).elim hnewline hcomment

/-- When lines get carriage returns, reading the piece `l` of a text still gives what it gave, up
    to the carriage return in an open literal, and goes on with the rest. -/
def GoesOn (n : Nat) (lineStart : Bool) (s : Text) (l : Lexeme) (rest : Text) : Prop :=
  tokensFrom n lineStart (withReturns s) = (tokensOf n [l]).map Token.returned ++
    tokensFrom (n + linesPassed [l]) (l.lineStartAfter lineStart) (withReturns rest)

variable {n : Nat} {lineStart : Bool} {s rest : Text} {l : Lexeme}

theorem goesOn_of_closed {kind : TokenKind} {text : Text}
    (h : Reads lineStart (withReturns s) ⟨.token kind, text⟩ (withReturns rest))
    (hclosed : Token.isOpen ⟨kind, text, n⟩ = false) :
    GoesOn n lineStart s ⟨.token kind, text⟩ rest := by
  rw [GoesOn, tokensFrom_of_reads n h]
  simp only [tokensOf, List.map_cons, List.map_nil, Token.returned_of_closed hclosed]

theorem goesOn_of_token {kind : TokenKind} {text : Text}
    (h : Reads lineStart (withReturns s) ⟨.token kind, text⟩ (withReturns rest))
    (hstring : kind ≠ .string) (hchar : kind ≠ .char) :
    GoesOn n lineStart s ⟨.token kind, text⟩ rest :=
  goesOn_of_closed h (Token.isOpen_of_kind hstring hchar)

theorem ne_of_quoteKind? {q y : Symbol} {kind : TokenKind} (hq : quoteKind? q = some kind)
    (hy : quoteKind? y = none) : q ≠ y := by
  rintro rfl
  rw [hy] at hq
  cases hq

/-- A literal goes on if it is closed or ends with its line. -/
theorem goesOn_literal {q : Symbol} {kind : TokenKind} {b : Text} (hq : quoteKind? q = some kind)
    (hs : Tail.takeLiteral q s = (b, rest)) (hb : .char '\n' ∉ b)
    (hend : Token.isOpen ⟨kind, q :: b, n⟩ = true → rest.head? = some (.char '\n')) :
    GoesOn n lineStart (q :: s) ⟨.token kind, q :: b⟩ rest := by
  have hescape : q ≠ '\\' := ne_of_quoteKind? hq rfl
  have hreturn : q ≠ '\r' := ne_of_quoteKind? hq rfl
  have hfeed : q ≠ '\n' := ne_of_quoteKind? hq rfl
  have hopen := Token.isOpen_literal hq b n
  -- A closed literal is read as before; an open one takes the return before its line feed.
  rcases hunclosed : Tail.isUnclosed q b with _ | _
  · refine goesOn_of_closed ?_ (hopen.trans hunclosed)
    rw [withReturns_cons hfeed]
    exact .literal hq (Tail.takeLiteral_withReturns_of_closed hescape hs hb hunclosed)
  · rw [hunclosed] at hopen
    rcases List.head?_eq_some_iff.mp (hend hopen) with ⟨r, rfl⟩
    have htake := Tail.takeLiteral_withReturns_of_open hreturn hfeed
      (Tail.takeLiteral_snd_of_open hescape hs hunclosed).1 hb
    have hread : Reads lineStart (withReturns (q :: s))
        ⟨.token kind, q :: (b ++ [.char '\r'])⟩ (.char '\n' :: withReturns r) := by
      rw [withReturns_cons hfeed]
      exact .literal hq htake
    rw [GoesOn, tokensFrom_of_reads n hread, tokensFrom_feed]
    simp only [tokensOf, List.map_cons, List.map_nil, Token.returned, hopen, if_true]
    rfl

theorem goesOn_of_other {kind : LexemeKind} {text text' rest' : Text}
    (h : Reads lineStart (withReturns s) ⟨kind, text'⟩ rest') (hkind : ∀ k, kind ≠ .token k)
    (hfeeds : text'.lineFeeds = text.lineFeeds)
    (hrest : ∀ n lineStart, tokensFrom n lineStart rest' =
      tokensFrom n lineStart (withReturns rest)) :
    GoesOn n lineStart s ⟨kind, text⟩ rest := by
  rw [GoesOn, tokensFrom_of_reads n h, hrest, tokensOf_other hkind, tokensOf_other hkind,
    linesPassed_other hkind, linesPassed_other hkind, hfeeds]
  rfl

/-- A piece that stays in its line goes on, unless it is an open literal with which the text
    ends. -/
theorem Reads.goesOn (h : Reads lineStart s l rest) (hline : l.StaysInLine)
    (hend : ∀ kind, l.kind = .token kind → Token.isOpen ⟨kind, l.text, n⟩ = true →
      rest.head? = some (.char '\n')) : GoesOn n lineStart s l rest := by
  cases h with
  | newline =>
      -- The carriage return is a blank of its own.
      rw [GoesOn, ← tokensFrom_feed, tokensFrom_of_reads n (.newline _)]
      rfl
  | @blank x s b rest hx hs =>
      -- Blanks at the end of a line run into the carriage return, so the pieces differ here.
      have hblanks : ∀ y ∈ x :: b, isInnerBlank y = true :=
        List.forall_mem_cons.mpr ⟨hx, Tail.forall_of_run hs⟩
      have happend : x :: s = (x :: b) ++ rest := by
        rw [List.cons_append, ← (Tail.run isInnerBlank).append s, hs]
      have hnone := noFeed_of_blanks hblanks
      rw [GoesOn, happend, withReturns_append_of_noFeed hnone, tokensFrom_blanks_append n hblanks,
        linesPassed_other (fun kind h => by cases h)]
      rw [show lineFeeds (x :: b) = 0 from List.count_eq_zero.mpr hnone]
      rfl
  | splice =>
      -- The backslash would not be next to the line feed any more.
      exact absurd hline (by decide)
  | @lineComment s b rest hs =>
      rcases Tail.takesReturn_run hs with ⟨hb, hr⟩
      rcases Tail.exists_take_withReturns _ hs hb hr with ⟨more, rest', htake, hmore, hrest⟩
      refine goesOn_of_other (.lineComment htake) (fun kind h => by cases h) ?_ hrest
      exact lineFeeds_append_of_noFeed (.char '/' :: .char '/' :: b) hmore
  | @blockComment s b rest hs =>
      have htake := Tail.takeBlock_withReturns s
      rw [hs] at htake
      exact goesOn_of_other (.blockComment htake) (fun kind h => by cases h)
        (lineFeeds_withReturns (.char '/' :: .char '*' :: b)) (fun _ _ => rfl)
  | @literal q kind s b rest hq hs =>
      have hfeed := hline.noFeed (fun h => by cases h) (fun h => by cases h)
      exact goesOn_literal hq hs (List.not_mem_of_not_mem_cons hfeed) (hend kind rfl)
  | ident hx hs =>
      refine goesOn_of_token ?_ (by decide) (by decide)
      rw [withReturns_cons (ne_of_class hx (by decide))]
      exact .ident hx (Tail.run_withReturns (by decide) (by decide) hs)
  | number hx hs =>
      refine goesOn_of_token ?_ (by decide) (by decide)
      rw [withReturns_cons (ne_of_class hx (by decide))]
      exact .number hx (Tail.takeNumber_withReturns hs)
  | fraction hx hs =>
      refine goesOn_of_token ?_ (by decide) (by decide)
      rw [withReturns_cons (by decide), withReturns_cons (ne_of_class hx (by decide))]
      exact .fraction hx (Tail.takeNumber_withReturns hs)
  | @directive s b rest hstart hs =>
      have hfeed := hline.noFeed (fun h => by cases h) (fun h => by cases h)
      have hb := List.not_mem_of_not_mem_cons hfeed
      rcases Tail.exists_take_withReturns _ hs hb (Tail.takesReturn_directive hs hb) with
        ⟨more, rest', htake, hmore, hrest⟩
      refine goesOn_of_other (.directive hstart htake) (fun kind h => by cases h) ?_ hrest
      exact lineFeeds_append_of_noFeed (.char '#' :: b) hmore
  | ellipsis => exact goesOn_of_token (.ellipsis _) (by decide) (by decide)
  | arrow => exact goesOn_of_token (.arrow _) (by decide) (by decide)
  | @mark x rest hopen hblank hjoin hsplice hhash =>
      have hx : x ≠ '\n' := by
        rintro rfl
        cases hblank
      refine goesOn_of_token ?_ (by decide) (by decide)
      rw [withReturns_cons hx]
      -- A line feed never comes right behind a mark, so that no backslash can take it along.
      refine .mark hopen hblank ?_ (fun h => head?_withReturns_ne_feed rest h.2) hhash
      rw [joins_withReturns, hjoin]

/-- An open literal ends with the text, before a last backslash or with its line. -/
theorem Reads.rest_of_isOpen (h : Reads lineStart s l rest) {kind : TokenKind}
    (hkind : l.kind = .token kind) (hopen : Token.isOpen ⟨kind, l.text, n⟩ = true) :
    rest = [] ∨ rest = "\\" ∨ ∃ r, rest = .char '\n' :: r := by
  have hplain : kind ≠ .string → kind ≠ .char →
      rest = [] ∨ rest = "\\" ∨ ∃ r, rest = .char '\n' :: r := by
    intro hstring hchar
    rw [Token.isOpen_of_kind hstring hchar] at hopen
    cases hopen
  cases h with
  | literal hq hs =>
      cases hkind
      rw [Token.isOpen_literal hq] at hopen
      exact (Tail.takeLiteral_snd_of_open (ne_of_quoteKind? hq rfl) hs hopen).2
  | _ => cases hkind <;> exact hplain (by decide) (by decide)

end Lexeme

theorem tokensFrom_backslash (n : Nat) (lineStart : Bool) :
    tokensFrom n lineStart "\\" = [⟨.punct, "\\", n⟩] := by
  have hread : Lexeme.Reads lineStart "\\" ⟨.token .punct, "\\"⟩ [] :=
    .mark (by decide) (by decide) (by decide) (by decide) (fun h => absurd h.2 (by decide))
  rw [tokensFrom_of_reads n hread, tokensFrom_nil]
  rfl

/-- From an open literal on with which a text ends there are no line feeds and no braces. -/
theorem Lexeme.Reads.ends_open {n : Nat} {lineStart : Bool} {s rest : Text} {l : Lexeme}
    (h : Reads lineStart s l rest) (hline : l.StaysInLine) {kind : TokenKind}
    (hkind : l.kind = .token kind) (hopen : Token.isOpen ⟨kind, l.text, n⟩ = true)
    (hhead : rest.head? ≠ some (.char '\n')) :
    .char '\n' ∉ s ∧ ∀ t ∈ tokensFrom n lineStart s, t.spells "\x7b" = false := by
  -- An open literal is stopped by a line feed, by the end of the text or by a backslash that ends
  -- it.
  have hrest : rest = [] ∨ rest = "\\" := by
    rcases h.rest_of_isOpen hkind hopen with hrest | hrest | ⟨r, rfl⟩
    · exact Or.inl hrest
    · exact Or.inr hrest
    · exact absurd rfl hhead
  constructor
  · rw [← (next?_eq_some h.next?).2, List.mem_append, not_or]
    refine ⟨hline.noFeed (by rw [hkind]; simp) (by rw [hkind]; simp), ?_⟩
    rcases hrest with rfl | rfl <;> decide
  · rw [tokensFrom_of_reads n h, tokensOf_token hkind, List.forall_mem_append]
    refine ⟨List.forall_mem_singleton.mpr ?_, ?_⟩
    · exact Token.spells_of_isQuoted (Token.isQuoted_of_isOpen hopen) rfl
    · rcases hrest with rfl | rfl
      · rw [tokensFrom_nil]
        exact fun t ht => absurd ht List.not_mem_nil
      · rw [tokensFrom_backslash]
        exact List.forall_mem_singleton.mpr rfl

/-- Carriage returns at the line ends are not seen but by open literals, if no line goes on behind
    a backslash. From an open literal on with which the text ends nothing changes any more. -/
theorem exists_tokensFrom_withReturns (n : Nat) (lineStart : Bool) (s : Text)
    (h : ∀ l ∈ (lexemesFrom lineStart s).1, l.StaysInLine) :
    ∃ ts rest, tokensFrom n lineStart s = ts ++ rest ∧
      tokensFrom n lineStart (withReturns s) = ts.map Token.returned ++ rest ∧
      ∀ t ∈ rest, t.spells "\x7b" = false := by
  fun_induction lexemesFrom lineStart s generalizing n with
  | case1 lineStart s hnone =>
      have hnone' : Lexeme.next? lineStart (withReturns s) = none := by
        rcases s with _ | ⟨x, s⟩
        · exact hnone
        · have hx := Lexeme.next?_eq_none_iff.mp hnone
          rw [withReturns_cons hx.2.2]
          exact Lexeme.next?_eq_none_iff.mpr hx
      exact ⟨[], [], tokensFrom_of_none n hnone, tokensFrom_of_none n hnone',
        fun t ht => absurd ht List.not_mem_nil⟩
  | case2 lineStart s l rest hnext more ih =>
      have hread := Lexeme.next?_eq_some_iff.mp hnext
      rcases List.forall_mem_cons.mp h with ⟨hl, hmore⟩
      -- The readings stay in step up to an open literal at the end, if there is one.
      by_cases hend : ∀ kind, l.kind = .token kind → Token.isOpen ⟨kind, l.text, n⟩ = true →
          rest.head? = some (.char '\n')
      · rcases ih (n + linesPassed [l]) hmore with ⟨ts, last, hts, hts', hlast⟩
        refine ⟨tokensOf n [l] ++ ts, last, ?_, ?_, hlast⟩
        · rw [tokensFrom_of_reads n hread, hts, List.append_assoc]
        · rw [hread.goesOn hl hend, hts', List.map_append, List.append_assoc]
      · simp only [not_forall] at hend
        rcases hend with ⟨kind, hkind, hopen, hhead⟩
        rcases hread.ends_open hl hkind hopen hhead with ⟨hfeed, hbrace⟩
        refine ⟨[], tokensFrom n lineStart s, rfl, ?_, hbrace⟩
        rw [withReturns_of_noFeed hfeed]
        rfl

end DialectBuild
