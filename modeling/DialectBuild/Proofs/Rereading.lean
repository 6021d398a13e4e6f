import DialectBuild.Code.Token
import DialectBuild.Proofs.LexemeReading

/-!
# Reading Tokens Back

What becomes of a token when it is written before another text. A token that was once read
off some text is read again as it is, unless it runs on into what follows: a word takes in
symbols of words, a number also points and the sign after an exponent, a literal that was
never closed takes in all it can, and a few punctuation marks join with their neighbours to
a longer token or to a comment. Which of these happens depends on the token and on the next
two symbols only, and `Token.runsOn` tells it from them.

The tails of the pieces carry this. Each of them, when it is given what it took before and
then more text, takes the same again and stops, or goes on with the new text.

The last part looks at the tokens of a text without their lines. They are read one after the
other, so what stands before a place in the text matters only through whether a line starts
there.

## Main definitions

* `Tail.continues`: A number that goes on with a text.
* `Tail.isUnclosed`: A literal without its closing quote.
* `Token.IsRead`: A token that is read off some text.
* `Token.runsOn`: A token that goes on with what is written after it.
* `Token.Rereads`: What is read where a token stands.
* `Token.reading`: A token without its line.
* `readings`: The tokens of a text without their lines.

## Theorems

* `Tail.run_append_fst_iff`, `Tail.takeNumber_append_fst_iff`,
  `Tail.takeLiteral_append_fst_iff`: When a tail goes on.
* `Token.IsRead.rereads`: A token is read again as it is, or it runs on.
* `readings_eq_append`: The tokens of a text begin with its first piece.
* `sum_count_readings_le`: Tokens have no symbol more often than the text has it.
* `isRead_of_mem_tokenize`: The tokens of a text are read off it.
-/

namespace DialectBuild

namespace Tail

/-- What a tail takes off a text settles what it leaves. -/
theorem take_eq_iff {tail : Tail} {b r : Text} :
    tail.take (b ++ r) = (b, r) ↔ (tail.take (b ++ r)).1 = b := by
  constructor
  · intro h
    rw [h]
  · intro h
    have happend := tail.append (b ++ r)
    rw [h] at happend
    exact Prod.ext h (List.append_cancel_left happend)

theorem forall_of_run {p : Symbol → Bool} {s b rest : Text} (h : (run p).take s = (b, rest)) :
    ∀ x ∈ b, p x = true := by
  rw [← (Prod.mk.inj h).1]
  exact List.all_eq_true.mp List.all_takeWhile

/-- A run goes on exactly with a symbol of its class. -/
theorem run_append_fst_iff {p : Symbol → Bool} {s b rest r : Text}
    (h : (run p).take s = (b, rest)) :
    ((run p).take (b ++ r)).1 = b ↔ r.head?.any p = false := by
  rw [show ((run p).take (b ++ r)).1 = (b ++ r).takeWhile p from rfl,
    List.takeWhile_append_of_pos (forall_of_run h)]
  rcases r with _ | ⟨x, r⟩
  · simp
  · rcases hx : p x with _ | _ <;> simp [hx]

theorem isNumberSymbol_of_isExponent {x : Symbol} (h : isExponent x = true) :
    isNumberSymbol x = true := by
  simp only [isExponent, Bool.or_eq_true, decide_eq_true_eq] at h
  rcases h with ((rfl | rfl) | rfl) | rfl <;> decide

theorem isExponent_of_isSign {x : Symbol} (h : isSign x = true) : isExponent x = false := by
  simp only [isSign, Bool.or_eq_true, decide_eq_true_eq] at h
  rcases h with rfl | rfl <;> decide

/-- Whether a number that ends in `b` goes on with the text `r`: with a symbol of numbers, or
    with a sign if it ends in an exponent. -/
def continues (b r : Text) : Bool :=
  r.head?.any fun x => isNumberSymbol x || (isSign x && b.getLast?.any isExponent)

/-- Nothing is taken exactly if the first symbol does not go on a number. -/
theorem takeNumber_fst_eq_nil_iff {r : Text} :
    (takeNumber r).1 = [] ↔ continues [] r = false := by
  fun_cases takeNumber r with
  | case1 => simp [continues]
  | case2 x hx => simp [continues, hx]
  | case3 x hx => simp [continues, hx]
  | case4 x y r h =>
      simp only [Bool.and_eq_true] at h
      simp [continues, isNumberSymbol_of_isExponent h.1]
  | case5 x y r h hx => simp [continues, hx]
  | case6 x y r h hx => simp [continues, hx]

/-- One symbol is taken exactly if the next does not go on a number after it. -/
theorem takeNumber_cons_fst_iff {x : Symbol} {r : Text} (hx : isNumberSymbol x = true) :
    (takeNumber (x :: r)).1 = [x] ↔ continues [x] r = false := by
  rcases r with _ | ⟨y, r⟩
  · simp [takeNumber, hx, continues]
  · rw [takeNumber]
    split
    next h =>
      simp only [Bool.and_eq_true] at h
      simp [continues, h]
    next h =>
      have hjoin : (isSign y && isExponent x) = false := by
        rw [Bool.and_comm]
        exact Bool.eq_false_iff.mpr h
      simp only [List.cons.injEq, true_and, takeNumber_fst_eq_nil_iff]
      simp [continues, hjoin]

/-- A number goes on exactly with a symbol of numbers, or with a sign after an exponent. -/
theorem takeNumber_append_fst_iff {s r : Text} :
    (takeNumber ((takeNumber s).1 ++ r)).1 = (takeNumber s).1 ↔
      continues (takeNumber s).1 r = false := by
  fun_induction takeNumber s with
  | case1 => exact takeNumber_fst_eq_nil_iff
  | case2 x hx => exact takeNumber_cons_fst_iff hx
  | case3 x hx => exact takeNumber_fst_eq_nil_iff
  | case4 x y s h ih =>
      simp only [Bool.and_eq_true] at h
      -- The sign `y` is no exponent, so it does not matter that it may be the last symbol.
      have hlast : continues (x :: y :: (takeNumber s).1) r = continues (takeNumber s).1 r := by
        rcases (takeNumber s).1 with _ | ⟨z, b⟩
        · simp [continues, isExponent_of_isSign h.2]
        · rfl
      rw [hlast, ← ih]
      simp [takeNumber, h]
  | case5 x y s h hx ih =>
      -- What comes after `x` is empty, and `x` may be an exponent, or it starts with `y` again.
      rcases hb : (takeNumber (y :: s)).1 with _ | ⟨z, b⟩
      · exact takeNumber_cons_fst_iff hx
      · rw [hb] at ih
        have happend := takeNumber_append (y :: s)
        rw [hb] at happend
        rcases (List.cons.inj happend).1 with rfl
        rw [show continues (x :: z :: b) r = continues (z :: b) r from rfl, ← ih]
        simp [takeNumber, h, hx]
  | case6 x y s h hx => exact takeNumber_fst_eq_nil_iff

/-- The first digit of a number does not matter for how it goes on, since it is no exponent. -/
theorem continues_cons {x : Symbol} {b r : Text} (hx : x.isDigit = true) :
    continues (x :: b) r = continues b r := by
  have hexp : isExponent x = false := by
    simp [isExponent, Lexeme.ne_of_class hx (y := 'e') (by decide),
      Lexeme.ne_of_class hx (y := 'E') (by decide), Lexeme.ne_of_class hx (y := 'p') (by decide),
      Lexeme.ne_of_class hx (y := 'P') (by decide)]
  rcases b with _ | ⟨y, b⟩
  · simp [continues, hexp]
  · rfl

/-- A symbol that is no backslash is taken or stops the scan by itself. -/
theorem takeEscaped_cons {stop : Symbol → Bool} {x : Symbol} {s : Text} (hx : x ≠ '\\') :
    takeEscaped stop (x :: s) = if x = '\n' ∨ stop x then ([], x :: s)
      else (x :: (takeEscaped stop s).1, (takeEscaped stop s).2) := by
  rw [takeEscaped]
  · simp only [hx, false_or]
  · exact fun _ _ h => absurd h hx

/-- What has been taken up to a stop stays taken when another text follows it. -/
theorem takeEscaped_append_eq (stop : Symbol → Bool) (s r : Text) :
    takeEscaped stop ((takeEscaped stop s).1 ++ r) =
      ((takeEscaped stop s).1 ++ (takeEscaped stop r).1, (takeEscaped stop r).2) := by
  fun_induction takeEscaped stop s with
  | case1 => rfl
  | case2 x s ih => simp only [List.cons_append, takeEscaped, ih]
  | case3 x s _ h => rfl
  | case4 x s _ h ih =>
      rw [not_or] at h
      simp only [List.cons_append, takeEscaped_cons h.1, h.2, ih, if_false]

/-- A scan for a quote takes something or is at the quote, unless it is at the end of a line or
    at a last backslash. -/
theorem takeEscaped_fst_ne_nil_or {q : Symbol} {r : Text} (hlen : 2 ≤ r.length)
    (hfeed : r.head? ≠ some (.char '\n')) :
    (takeEscaped (· = q) r).1 ≠ [] ∨ (takeEscaped (· = q) r).2.head? = some q := by
  rcases r with _ | ⟨x, _ | ⟨y, r⟩⟩
  · exact absurd hlen (by decide)
  · exact absurd hlen (by decide : ¬2 ≤ 1)
  · by_cases hx : x = '\\'
    · rw [hx, takeEscaped]
      exact Or.inl (List.cons_ne_nil _ _)
    · rw [takeEscaped_cons hx]
      split
      next h =>
        rcases h with rfl | h
        · exact absurd rfl hfeed
        · exact Or.inr (congrArg some (of_decide_eq_true h))
      next => exact Or.inl (List.cons_ne_nil _ _)

/-- Whether the body `b` of a literal lacks the quote `q` that would close it. -/
def isUnclosed (q : Symbol) (b : Text) : Bool :=
  (takeEscaped (· = q) b).2.isEmpty

/-- A literal takes what stands before the quote and the quote, if there is one. -/
theorem takeLiteral_fst (q : Symbol) (s : Text) :
    (takeLiteral q s).1 = (takeEscaped (· = q) s).1 ++
      if (takeEscaped (· = q) s).2.head? = some q then [q] else [] := by
  rw [takeLiteral]
  rcases takeEscaped (· = q) s with ⟨body, _ | ⟨x, r⟩⟩
  · exact (List.append_nil body).symm
  · by_cases hx : x = q
    · simp [hx]
    · simp [hx]

/-- A literal goes on exactly if it is not closed. -/
theorem takeLiteral_append_fst_iff {q : Symbol} {s r : Text} (hq : q ≠ '\\')
    (hlen : 2 ≤ r.length) (hfeed : r.head? ≠ some (.char '\n')) :
    (takeLiteral q ((takeLiteral q s).1 ++ r)).1 = (takeLiteral q s).1 ↔
      isUnclosed q (takeLiteral q s).1 = false := by
  have hquote : ∀ r, takeEscaped (· = q) (q :: r) = ([], q :: r) := by
    intro r
    rw [takeEscaped_cons hq, if_pos (Or.inr (decide_eq_true rfl))]
  by_cases hclosed : (takeEscaped (· = q) s).2.head? = some q
  · -- The scan stops at the same quote again.
    have hs : (takeLiteral q s).1 = (takeEscaped (· = q) s).1 ++ [q] := by
      rw [takeLiteral_fst, if_pos hclosed]
    rw [hs, isUnclosed, List.append_assoc, takeLiteral_fst, takeEscaped_append_eq,
      takeEscaped_append_eq, List.singleton_append, hquote, hquote]
    simp
  · -- The scan was stopped by the end of a line, and now goes on into `r`.
    have hs : (takeLiteral q s).1 = (takeEscaped (· = q) s).1 := by
      rw [takeLiteral_fst, if_neg hclosed, List.append_nil]
    have hopen : isUnclosed q (takeEscaped (· = q) s).1 = true := by
      have hend := takeEscaped_append_eq (· = q) s []
      rw [List.append_nil] at hend
      rw [isUnclosed, hend]
      rfl
    rw [hs, hopen, takeLiteral_fst, takeEscaped_append_eq]
    rcases takeEscaped_fst_ne_nil_or (q := q) hlen hfeed with htaken | hhead
    · simp [htaken]
    · simp [hhead]

end Tail

namespace Token

/-- A token that is read off some text. -/
def IsRead (t : Token) : Prop :=
  ∃ lineStart s rest, Lexeme.Reads lineStart s ⟨.token t.kind, t.text⟩ rest

/-- Whether the token runs on into the text `r` when `r` is written right after it. For a
    literal the text does not matter, since a line feed never follows. -/
def runsOn (t : Token) (r : Text) : Bool :=
  match t.kind, t.text with
  | .string, q :: b => Tail.isUnclosed q b
  | .char, q :: b => Tail.isUnclosed q b
  | .ident, _ => r.head?.any Symbol.isWord
  | .number, s => Tail.continues s r
  | .punct, [x] => Lexeme.joins x r
  | _, _ => false

/-- What is read where the token stands with `r` after it: the token itself, or, if it runs
    on, another token or a comment. -/
inductive Rereads (t : Token) (r : Text) : Prop
  | same (hrun : t.runsOn r = false)
      (h : Lexeme.Reads false (t.text ++ r) ⟨.token t.kind, t.text⟩ r)
  | other {kind : TokenKind} {text rest : Text} (hrun : t.runsOn r = true) (hne : text ≠ t.text)
      (h : Lexeme.Reads false (t.text ++ r) ⟨.token kind, text⟩ rest)
  | comment {text rest : Text} (hrun : t.runsOn r = true) (hslash : .char '/' ∈ text)
      (h : Lexeme.Reads false (t.text ++ r) ⟨.comment, text⟩ rest)

/-- A token that starts with `start` is read again with all that its tail now takes. -/
theorem rereads_of_tail {t : Token} {r b : Text} (start : Text) (tail : Tail)
    (htext : t.text = start ++ b)
    (hreads : ∀ {b' rest}, tail.take (b ++ r) = (b', rest) →
      Lexeme.Reads false (start ++ (b ++ r)) ⟨.token t.kind, start ++ b'⟩ rest)
    (hiff : (tail.take (b ++ r)).1 = b ↔ t.runsOn r = false) : t.Rereads r := by
  rcases hrun : t.runsOn r with _ | _
  · refine .same hrun ?_
    rw [htext, List.append_assoc]
    exact hreads (Tail.take_eq_iff.mpr (hiff.mpr hrun))
  · have hread := hreads (Prod.eta (tail.take (b ++ r))).symm
    rw [← List.append_assoc, ← htext] at hread
    refine .other hrun (fun h => ?_) hread
    rw [htext] at h
    rw [hiff.mp (List.append_cancel_left h)] at hrun
    exact absurd hrun (by decide)

/-- A punctuation mark is read again alone, or joins with what follows. -/
theorem rereads_mark {x : Symbol} {line : Nat} {r : Text} (hopen : Lexeme.isOpener x = false)
    (hblank : x.isBlank = false) (hfeed : r.head? ≠ some (.char '\n')) :
    Rereads ⟨.punct, [x], line⟩ r := by
  rcases hjoin : Lexeme.joins x r with _ | _
  · exact .same hjoin (.mark hopen hblank hjoin (fun h => hfeed h.2) (fun h => by simp at h))
  · have hrun : runsOn ⟨.punct, [x], line⟩ r = true := hjoin
    simp only [Lexeme.joins, Bool.or_eq_true, Bool.and_eq_true, decide_eq_true_eq] at hjoin
    rcases hjoin with (⟨rfl, h⟩ | ⟨rfl, h⟩) | ⟨rfl, h⟩
    -- Only a slash is lost, the other marks grow.
    · rcases h with h | h
      · rcases List.head?_eq_some_iff.mp h with ⟨r, rfl⟩
        exact .comment hrun (List.mem_cons_self ..) (.lineComment rfl)
      · rcases List.head?_eq_some_iff.mp h with ⟨r, rfl⟩
        exact .comment hrun (List.mem_cons_self ..) (.blockComment rfl)
    · rcases h with h | h
      · rcases r with _ | ⟨y, r⟩
        · exact absurd h (by decide)
        · exact .other hrun (by simp) (.fraction h rfl)
      · rcases List.isPrefixOf_iff_prefix.mp h with ⟨r, rfl⟩
        exact .other hrun (by simp [Text.ofString]) (.ellipsis r)
    · rcases List.head?_eq_some_iff.mp h with ⟨r, rfl⟩
      exact .other hrun (by simp [Text.ofString]) (.arrow r)

/-- Every token that is read off some text is read again as itself or runs on. -/
theorem IsRead.rereads {t : Token} {r : Text} (h : t.IsRead) (hlen : 2 ≤ r.length)
    (hfeed : r.head? ≠ some (.char '\n')) : t.Rereads r := by
  rcases t with ⟨kind, text, line⟩
  rcases h with ⟨lineStart, s, rest, h⟩
  -- The rule that read the token applies to its start again, so only the tail matters.
  cases h with
  | @literal q _ s b _ hq hs =>
      have hkind := Lexeme.quoteKind?_eq_some_iff.mp hq
      have hiff := Tail.takeLiteral_append_fst_iff (q := q) (s := s) (r := r) ?_ hlen hfeed
      · rw [hs] at hiff
        refine rereads_of_tail [q] (.literal q) rfl (.literal hq) (hiff.trans ?_)
        rcases hkind with ⟨_, rfl⟩ | ⟨_, rfl⟩ <;> exact Iff.rfl
      · rcases hkind with ⟨rfl, _⟩ | ⟨rfl, _⟩ <;> decide
  | @ident x s b _ hx hs =>
      exact rereads_of_tail [x] (.run Symbol.isWord) rfl (.ident hx)
        (Tail.run_append_fst_iff hs)
  | @number x s b _ hx hs =>
      have hiff := Tail.takeNumber_append_fst_iff (s := s) (r := r)
      rw [hs, ← Tail.continues_cons hx] at hiff
      exact rereads_of_tail [x] .number rfl (.number hx) hiff
  | @fraction x s b _ hx hs =>
      have hiff := Tail.takeNumber_append_fst_iff (s := s) (r := r)
      rw [hs, ← Tail.continues_cons hx] at hiff
      exact rereads_of_tail [.char '.', x] .number rfl (.fraction hx) hiff
  | ellipsis => exact .same rfl (.ellipsis r)
  | arrow => exact .same rfl (.arrow r)
  | mark hopen hblank _ _ _ => exact rereads_mark hopen hblank hfeed

/-- A token that is read starts neither with a line feed nor with a blank. -/
theorem IsRead.exists_eq_cons {t : Token} (h : t.IsRead) :
    ∃ x b, t.text = x :: b ∧ x ≠ '\n' ∧ Lexeme.isInnerBlank x = false := by
  rcases t with ⟨kind, text, line⟩
  rcases h with ⟨lineStart, s, rest, h⟩
  cases h with
  | literal hq _ =>
      refine ⟨_, _, rfl, ?_⟩
      rcases Lexeme.quoteKind?_eq_some_iff.mp hq with ⟨rfl, _⟩ | ⟨rfl, _⟩ <;> decide
  | ident hx _ => exact ⟨_, _, rfl, Lexeme.visible_of_class hx (by decide)⟩
  | number hx _ => exact ⟨_, _, rfl, Lexeme.visible_of_class hx (by decide)⟩
  | fraction _ _ => exact ⟨_, _, rfl, by decide, by decide⟩
  | ellipsis => exact ⟨_, _, rfl, by decide, by decide⟩
  | arrow => exact ⟨_, _, rfl, by decide, by decide⟩
  | mark _ hblank _ _ _ => exact ⟨_, _, rfl, Lexeme.visible_of_isBlank hblank⟩

/-- What the token is and how it is spelled, without its line. -/
def reading (t : Token) : TokenKind × Text :=
  (t.kind, t.text)

end Token

namespace Lexeme

/-- The token that the piece is, if it is one. -/
def reading? (l : Lexeme) : Option (TokenKind × Text) :=
  match l.kind with
  | .token kind => some (kind, l.text)
  | _ => none

end Lexeme

/-- The tokens of a text without their lines. `lineStart` says whether a `#` would open a
    preprocessor line. -/
def readings (lineStart : Bool) (s : Text) : List (TokenKind × Text) :=
  (lexemesFrom lineStart s).1.filterMap Lexeme.reading?

/-- Lines aside, the tokens of some pieces are the pieces that are tokens. -/
theorem map_reading_tokensOf (line : Nat) (ls : List Lexeme) :
    (tokensOf line ls).map Token.reading = ls.filterMap Lexeme.reading? := by
  fun_induction tokensOf line ls with
  | case1 => rfl
  | case2 line l ls kind hkind ih => simp [Lexeme.reading?, hkind, Token.reading, ih]
  | case3 line l ls hkind ih =>
      have hnone : l.reading? = none := by
        rw [Lexeme.reading?]
        split
        next kind h => exact absurd h (hkind kind)
        next => rfl
      rw [ih, List.filterMap_cons_none hnone]

theorem map_reading_tokenize (s : Text) :
    (tokenize s).map Token.reading = readings true s :=
  map_reading_tokensOf 1 (lexemes s)

/-- The pieces of a text are its first piece and those of the rest. -/
theorem lexemesFrom_of_reads {lineStart : Bool} {s rest : Text} {l : Lexeme}
    (h : Lexeme.Reads lineStart s l rest) :
    lexemesFrom lineStart s = (l :: (lexemesFrom (l.lineStartAfter lineStart) rest).1,
      (lexemesFrom (l.lineStartAfter lineStart) rest).2) := by
  rw [lexemesFrom]
  split
  next hnone =>
    rw [h.next?] at hnone
    cases hnone
  next l' rest' hsome =>
    rw [h.next?] at hsome
    cases hsome
    rfl

theorem lexemesFrom_of_none {lineStart : Bool} {s : Text} (h : Lexeme.next? lineStart s = none) :
    lexemesFrom lineStart s = ([], s) := by
  rw [lexemesFrom]
  split
  next => rfl
  next l rest hsome =>
    rw [h] at hsome
    cases hsome

/-- The first piece of a text gives the first token, if it is one. -/
theorem readings_eq_append {lineStart : Bool} {s rest : Text} {l : Lexeme}
    (h : Lexeme.Reads lineStart s l rest) :
    readings lineStart s = l.reading?.toList ++ readings (l.lineStartAfter lineStart) rest := by
  rw [readings, lexemesFrom_of_reads h]
  rcases hl : l.reading? with _ | reading <;> simp [readings, hl]

theorem readings_nil (lineStart : Bool) : readings lineStart [] = [] := by
  have hnone : Lexeme.next? lineStart [] = none := by cases lineStart <;> rfl
  rw [readings, lexemesFrom_of_none hnone]
  rfl

/-- A blank inside a line changes nothing. -/
theorem readings_blank_cons {lineStart : Bool} {x : Symbol} (hx : Lexeme.isInnerBlank x = true)
    (s : Text) : readings lineStart (x :: s) = readings lineStart s := by
  have hread : ∀ {y}, Lexeme.isInnerBlank y = true → ∀ s : Text, readings lineStart (y :: s) =
      readings lineStart (s.dropWhile Lexeme.isInnerBlank) := by
    intro y hy s
    exact readings_eq_append (.blank hy rfl)
  rw [hread hx]
  rcases s with _ | ⟨y, s⟩
  · rfl
  · by_cases hy : Lexeme.isInnerBlank y = true
    · rw [hread hy, List.dropWhile_cons_of_pos hy]
    · rw [List.dropWhile_cons_of_neg hy]

theorem readings_token {lineStart : Bool} {s text rest : Text} {kind : TokenKind}
    (h : Lexeme.Reads lineStart s ⟨.token kind, text⟩ rest) :
    readings lineStart s = (kind, text) :: readings false rest :=
  readings_eq_append h

/-- The tokens of a text have no symbol more often than the text has it. -/
theorem sum_count_readings_le (x : Symbol) (lineStart : Bool) (s : Text) :
    ((readings lineStart s).map (·.2.count x)).sum ≤ s.count x := by
  unfold readings
  fun_induction lexemesFrom lineStart s with
  | case1 lineStart s h => exact Nat.zero_le _
  | case2 lineStart s l rest h more ih =>
      rw [← (Lexeme.next?_eq_some h).2, List.count_append]
      rcases hkind : l.kind with _ | _ | _ | _ | kind <;>
        simp [Lexeme.reading?, hkind, more] <;> omega

/-- Every piece of a text is read somewhere in it. -/
theorem reads_of_mem_lexemesFrom {lineStart : Bool} {s : Text} {l : Lexeme}
    (h : l ∈ (lexemesFrom lineStart s).1) :
    ∃ lineStart' s' rest, Lexeme.Reads lineStart' s' l rest := by
  fun_induction lexemesFrom lineStart s with
  | case1 lineStart s _ => exact absurd h List.not_mem_nil
  | case2 lineStart s first rest hnext more ih =>
      rcases List.mem_cons.mp h with rfl | h
      · exact ⟨lineStart, s, rest, Lexeme.next?_eq_some_iff.mp hnext⟩
      · exact ih h

/-- The tokens of a text are read off it. -/
theorem isRead_of_mem_tokenize {s : Text} {t : Token} (h : t ∈ tokenize s) : t.IsRead := by
  have hmem : t.reading ∈ readings true s := by
    rw [← map_reading_tokenize]
    exact List.mem_map_of_mem h
  rcases List.mem_filterMap.mp hmem with ⟨⟨kind, text⟩, hl, hreading⟩
  cases kind <;> simp only [Lexeme.reading?, reduceCtorEq, Option.some.injEq] at hreading
  cases hreading
  exact reads_of_mem_lexemesFrom hl

end DialectBuild
