import DialectBuild.Proofs.LineCutting
import DialectBuild.Proofs.Rereading

/-!
# Interrupted Reading

What the end of a line means to the reading of a piece. A text that ends with a line feed may
be cut off there: a piece that ends before the cut is the same piece whatever follows, because
the one or two symbols that would have a say in it are on the same line. A piece that reaches
the cut goes on after it as if it had just been started, since neither the end of a comment
nor an escape straddles a line feed.

Only comments, literals and preprocessor lines reach over the end of a line. A word, a number
or a run of blanks never takes a line feed, so for these the second half says nothing.

## Main definitions

* `Tail.Resumes`: A split that can be interrupted at the end of a line.

## Theorems

* `Tail.resumes_run`, `Tail.resumes_block`, `Tail.resumes_escaped`, `Tail.resumes_literal`,
  `Tail.resumes_number`: Each way to go on with a piece can be interrupted.
* `Lexeme.next?_eq_none_iff`: Where reading ends.
* `Lexeme.Reads.append`: What is read inside an ended text is read there whatever follows.
-/

namespace DialectBuild

open Text

namespace Tail

/-- A split that can be interrupted at the end of a line. Where it ends inside a text it ends
    there before any other text too, and where it does not, it goes on as if from the start. -/
structure Resumes (take : Text → Text × Text) : Prop where
  stays : ∀ {s : Text} (r : Text), IsEnded s → (take s).2 ≠ [] →
    take (s ++ r) = ((take s).1, (take s).2 ++ r)
  goesOn : ∀ {s : Text} (r : Text), IsEnded s → (take s).2 = [] →
    take (s ++ r) = (s ++ (take r).1, (take r).2)

theorem isEnded_snd (tail : Tail) {s : Text} (hs : IsEnded s) (h : (tail.take s).2 ≠ []) :
    IsEnded (tail.take s).2 := by
  rw [← tail.append s] at hs
  exact (isEnded_append_iff h).mp hs

theorem resumes_none : Resumes none.take := by
  refine ⟨fun _ _ _ => rfl, fun {s} r hs h => ?_⟩
  rw [show s = [] from h] at hs
  exact absurd hs not_isEnded_nil

theorem resumes_run {p : Symbol → Bool} (hp : p (.char '\n') = false) : Resumes (run p).take := by
  constructor
  · intro s r _ h
    have hdrop : (s ++ r).dropWhile p = s.dropWhile p ++ r := by
      rw [List.dropWhile_append, if_neg]
      exact fun hempty => h (List.isEmpty_iff.mp hempty)
    have hsplit : ((run p).take (s ++ r)).1 ++ (s.dropWhile p ++ r) =
        s.takeWhile p ++ (s.dropWhile p ++ r) := by
      have happend := (run p).append (s ++ r)
      rw [show ((run p).take (s ++ r)).2 = s.dropWhile p ++ r from hdrop] at happend
      rw [happend, ← List.append_assoc, List.takeWhile_append_dropWhile]
    exact Prod.ext (List.append_cancel_right hsplit) hdrop
  · -- A line feed is in the text, and no symbol of the class.
    intro s r hs h
    have hfeed := List.dropWhile_eq_nil_iff.mp h _ (List.mem_of_getLast? hs)
    rw [hp] at hfeed
    cases hfeed

theorem takeBlock_append_of_isEnded {s : Text} (r : Text) (hs : IsEnded s) :
    takeBlock (s ++ r) = if (takeBlock s).2 = [] then (s ++ (takeBlock r).1, (takeBlock r).2)
      else ((takeBlock s).1, (takeBlock s).2 ++ r) := by
  fun_induction takeBlock s with
  | case1 => exact absurd hs not_isEnded_nil
  | case2 s =>
      have hne : s ≠ [] := by
        rintro rfl
        exact absurd hs (by decide)
      rw [if_neg hne]
      rfl
  | case3 x s hopen ih =>
      rcases s with _ | ⟨y, s⟩
      · rcases (Option.some.inj hs : x = '\n') with rfl
        rfl
      · -- What comes right after `x` is the same with and without the text that follows.
        have hstep : takeBlock (x :: y :: s ++ r) =
            (x :: (takeBlock (y :: s ++ r)).1, (takeBlock (y :: s ++ r)).2) := by
          rw [List.cons_append, List.cons_append, takeBlock]
          intro u hx hu
          exact hopen s hx (by rw [(List.cons.inj hu).1])
        rw [hstep, ih (isEnded_of_cons hs (List.cons_ne_nil y s))]
        split
        · rfl
        · rfl

theorem resumes_block : Resumes takeBlock :=
  ⟨fun r hs h => (takeBlock_append_of_isEnded r hs).trans (if_neg h),
    fun r hs h => (takeBlock_append_of_isEnded r hs).trans (if_pos h)⟩

/-- What was left by a scan with escapes is all that matters for how it goes on. -/
theorem takeEscaped_append_snd (stop : Symbol → Bool) (s r : Text) :
    takeEscaped stop (s ++ r) =
      ((takeEscaped stop s).1 ++ (takeEscaped stop ((takeEscaped stop s).2 ++ r)).1,
        (takeEscaped stop ((takeEscaped stop s).2 ++ r)).2) := by
  have h := takeEscaped_append_eq stop s ((takeEscaped stop s).2 ++ r)
  rw [← List.append_assoc, takeEscaped_append] at h
  exact h

theorem resumes_escaped (stop : Symbol → Bool) : Resumes (takeEscaped stop) := by
  constructor
  · intro s r hs h
    have hrest : IsEnded (takeEscaped stop s).2 := isEnded_snd ⟨_, takeEscaped_append stop⟩ hs h
    -- The rest starts with a symbol that ends the scan, and is no single backslash.
    have hself := takeEscaped_append_snd stop s []
    rw [List.append_nil, List.append_nil] at hself
    have hnone : (takeEscaped stop (takeEscaped stop s).2).1 = [] :=
      List.append_right_eq_self.mp (Prod.ext_iff.mp hself).1.symm
    rw [takeEscaped_append_snd]
    rcases hr : (takeEscaped stop s).2 with _ | ⟨x, u⟩
    · exact absurd hr h
    · rw [hr] at hrest hnone
      have hx : x ≠ '\\' := by
        rintro rfl
        rcases u with _ | ⟨y, u⟩
        · exact absurd hrest (by decide)
        · exact absurd hnone (List.cons_ne_nil _ _)
      rw [takeEscaped_cons hx] at hnone
      rw [List.cons_append, takeEscaped_cons hx]
      by_cases hstop : x = '\n' ∨ stop x = true
      · rw [if_pos hstop, List.append_nil]
      · rw [if_neg hstop] at hnone
        exact absurd hnone (List.cons_ne_nil _ _)
  · intro s r _ h
    rw [takeEscaped_append_snd, h, List.nil_append]
    have hall := takeEscaped_append stop s
    rw [h, List.append_nil] at hall
    rw [hall]

theorem takeLiteral_eq (q : Symbol) (s : Text) :
    takeLiteral q s = if (takeEscaped (· = q) s).2.head? = some q then
      ((takeEscaped (· = q) s).1 ++ [q], (takeEscaped (· = q) s).2.tail)
    else takeEscaped (· = q) s := by
  rw [takeLiteral]
  rcases takeEscaped (· = q) s with ⟨body, _ | ⟨x, r⟩⟩
  · rfl
  · by_cases hx : x = q
    · simp [hx]
    · simp [hx]

/-- A literal that takes a line end along at its end is not closed. -/
theorem takeLiteral_of_isEnded {q : Symbol} (hq : q ≠ '\n') {s : Text} (hs : IsEnded s)
    (h : (takeLiteral q s).2 = []) : takeLiteral q s = takeEscaped (· = q) s := by
  rw [takeLiteral_eq, if_neg]
  intro hhead
  rcases List.head?_eq_some_iff.mp hhead with ⟨u, hu⟩
  rw [takeLiteral_eq, if_pos hhead, hu] at h
  have hall := takeEscaped_append (· = q) s
  rw [hu, show u = [] from h] at hall
  rw [← hall, IsEnded, List.getLast?_concat] at hs
  exact hq (Option.some.inj hs)

theorem resumes_literal {q : Symbol} (hq : q ≠ '\n') : Resumes (takeLiteral q) := by
  have hscan := resumes_escaped (· = q)
  constructor
  · intro s r hs h
    -- A literal that leaves text was stopped inside `s`.
    have hne : (takeEscaped (· = q) s).2 ≠ [] := by
      intro hnil
      rw [takeLiteral_eq, hnil] at h
      exact h hnil
    rw [takeLiteral_eq, takeLiteral_eq, hscan.stays r hs hne]
    rcases hr : (takeEscaped (· = q) s).2 with _ | ⟨x, u⟩
    · exact absurd hr hne
    · by_cases hx : x = q
      · simp [hx]
      · simp [hx, hr]
  · intro s r hs h
    rw [takeLiteral_of_isEnded hq hs h] at h
    rw [takeLiteral_eq, takeLiteral_eq, hscan.goesOn r hs h]
    split
    · simp
    · rfl

/-- A number has symbols of numbers and signs only. -/
theorem isNumberSymbol_or_isSign_of_mem {s : Text} {x : Symbol} (h : x ∈ (takeNumber s).1) :
    isNumberSymbol x = true ∨ isSign x = true := by
  fun_induction takeNumber s with
  | case1 => exact absurd h List.not_mem_nil
  | case2 y hy => exact Or.inl (List.mem_singleton.mp h ▸ hy)
  | case3 y hy => exact absurd h List.not_mem_nil
  | case4 y z s hyz ih =>
      rw [Bool.and_eq_true] at hyz
      rcases List.mem_cons.mp h with rfl | h
      · exact Or.inl (isNumberSymbol_of_isExponent hyz.1)
      · rcases List.mem_cons.mp h with rfl | h
        · exact Or.inr hyz.2
        · exact ih h
  | case5 y z s _ hy ih =>
      rcases List.mem_cons.mp h with rfl | h
      · exact Or.inl hy
      · exact ih h
  | case6 y z s _ hy => exact absurd h List.not_mem_nil

theorem noFeed_of_takeNumber {s b rest : Text} (h : takeNumber s = (b, rest)) :
    .char '\n' ∉ b := by
  intro hmem
  have htaken : .char '\n' ∈ (takeNumber s).1 := by
    rw [h]
    exact hmem
  exact absurd (isNumberSymbol_or_isSign_of_mem htaken) (by decide)

theorem resumes_number : Resumes takeNumber := by
  constructor
  · intro s r _ h
    have hself := takeNumber_append_fst_iff (s := s) (r := (takeNumber s).2)
    rw [takeNumber_append] at hself
    have hgoes : continues (takeNumber s).1 ((takeNumber s).2 ++ r) =
        continues (takeNumber s).1 (takeNumber s).2 := by
      rcases hr : (takeNumber s).2 with _ | ⟨x, u⟩
      · exact absurd hr h
      · rfl
    have hfst := takeNumber_append_fst_iff (s := s) (r := (takeNumber s).2 ++ r)
    rw [hgoes] at hfst
    have hsplit : number.take ((takeNumber s).1 ++ ((takeNumber s).2 ++ r)) =
        ((takeNumber s).1, (takeNumber s).2 ++ r) := take_eq_iff.mpr (hfst.mpr (hself.mp rfl))
    rw [← List.append_assoc, takeNumber_append] at hsplit
    exact hsplit
  · -- A number never takes a line feed.
    intro s r hs h
    have hall := takeNumber_append s
    rw [h, List.append_nil] at hall
    have hfeed := List.mem_of_getLast? hs
    rw [← hall] at hfeed
    exact absurd hfeed (noFeed_of_takeNumber rfl)

end Tail

namespace Lexeme

/-- No blank of any script is a digit. -/
theorem isDigit_of_isBlank {x : Symbol} (h : x.isBlank = true) : x.isDigit = false := by
  rcases x with c | b
  · rw [Symbol.isBlank, Property.isBlank] at h
    rw [Symbol.isDigit, Property.isDecimal]
    by_cases hascii : c.toNat < 0x80
    · rw [if_pos hascii, Bool.or_eq_true, Bool.and_eq_true, Bool.and_eq_true, decide_eq_true_eq,
        decide_eq_true_eq, decide_eq_true_eq, decide_eq_true_eq] at h
      rw [if_pos hascii, ← Bool.not_eq_true]
      intro hdigit
      simp only [Char.isDigit, Bool.and_eq_true, decide_eq_true_eq, ge_iff_le,
        UInt32.le_iff_toNat_le] at hdigit
      have hlow : 48 ≤ c.toNat := hdigit.1
      omega
    · rw [if_neg hascii] at h ⊢
      rcases Array.any_eq_true'.mp h with ⟨blank, hblank, hin⟩
      rw [← Bool.not_eq_true]
      intro hdigit
      rcases Array.any_eq_true'.mp hdigit with ⟨digit, hdigits, hout⟩
      -- The two tables have no range in common.
      have hapart : ∀ p ∈ Property.blankRanges, ∀ q ∈ Property.digitRanges,
          p.2 < q.1 ∨ q.2 < p.1 := by decide +kernel
      have hrange := hapart blank hblank digit hdigits
      simp only [Bool.and_eq_true, decide_eq_true_eq] at hin hout
      omega
  · exact absurd h Bool.false_ne_true

theorem isOpener_of_isBlank {x : Symbol} (h : x.isBlank = true) : isOpener x = false := by
  have hquote : quoteKind? x = none := quoteKind?_eq_none_iff.mpr
    ⟨ne_of_class h (by decide), ne_of_class h (by decide)⟩
  have hident : isIdentStart x = false := by
    rcases x with c | b
    · rcases hstart : isIdentStart (.char c) with _ | _
      · rfl
      · have hcode := Lexeme.toNat_of_isIdentStart hstart
        rw [Symbol.isBlank, Property.isBlank, if_pos (by omega), Bool.or_eq_true, Bool.and_eq_true,
          Bool.and_eq_true, decide_eq_true_eq, decide_eq_true_eq, decide_eq_true_eq,
          decide_eq_true_eq] at h
        omega
    · rfl
  rw [isOpener, hquote, hident, isDigit_of_isBlank h]
  rfl

/-- Reading goes on at a symbol unless it is a blank that C text does not use. -/
theorem next?_eq_none_iff {lineStart : Bool} {x : Symbol} {s : Text} :
    next? lineStart (x :: s) = none ↔ x.isBlank = true ∧ isInnerBlank x = false ∧ x ≠ '\n' := by
  constructor
  · intro h
    have hall := List.findSome?_eq_none_iff.mp h
    rcases forall_read?_eq_none_iff.mp fun rule hrule => hall rule (List.mem_of_mem_take hrule) with
      ⟨hfeed, hinner, hopen, hjoin, hsplice, hhash⟩
    refine ⟨?_, hinner, hfeed⟩
    rcases hblank : x.isBlank with _ | _
    · rw [(Reads.mark hopen hblank hjoin hsplice hhash).next?] at h
      cases h
    · rfl
  · rintro ⟨hblank, hinner, hfeed⟩
    -- A blank is none of the symbols by which the other rules start.
    have hslash : x ≠ '/' := ne_of_class hblank (by decide)
    have hpoint : x ≠ '.' := ne_of_class hblank (by decide)
    have hminus : x ≠ '-' := ne_of_class hblank (by decide)
    have hback : x ≠ '\\' := ne_of_class hblank (by decide)
    have hhash : x ≠ '#' := ne_of_class hblank (by decide)
    have hnone := forall_read?_eq_none_iff.mpr ⟨hfeed, hinner, isOpener_of_isBlank hblank,
      show joins x s = false by simp [joins, hslash, hpoint, hminus], fun h => hback h.1,
      fun h : lineStart = true ∧ x = '#' => hhash h.2⟩
    rw [next?_eq_drop 13 hnone]
    simp [rules, LexemeRule.read?, hblank]

/-- Where reading ends depends on one symbol only. -/
theorem next?_append_of_none {lineStart : Bool} {s : Text} (h : next? lineStart s = none)
    (hs : s ≠ []) (r : Text) : next? lineStart (s ++ r) = none := by
  rcases s with _ | ⟨x, s⟩
  · exact absurd rfl hs
  · exact next?_eq_none_iff.mpr (next?_eq_none_iff.mp h)

/-- What a tail leaves inside an ended text it leaves before any other text too. -/
theorem take_append (tail : Tail) (start : Text) (hresumes : Tail.Resumes tail.take)
    {s b rest : Text} (h : tail.take s = (b, rest)) (hs : IsEnded (start ++ s)) (hrest : rest ≠ [])
    (r : Text) : tail.take (s ++ r) = (b, rest ++ r) := by
  have hne : s ≠ [] := by
    rintro rfl
    have hnil := tail.append []
    rw [h] at hnil
    exact hrest (List.append_eq_nil_iff.mp hnil).2
  have hstays := hresumes.stays r ((isEnded_append_iff hne).mp hs) (by rw [h]; exact hrest)
  rw [h] at hstays
  exact hstays

/-- A mark that stands alone before the rest of a line stands alone before more lines. -/
theorem joins_append {x : Symbol} {s : Text} (hs : IsEnded s) (r : Text) :
    joins x (s ++ r) = joins x s := by
  rcases s with _ | ⟨y, _ | ⟨z, s⟩⟩
  · exact absurd hs not_isEnded_nil
  · rcases (Option.some.inj hs : y = '\n') with rfl
    rfl
  · rfl

/-- What is read inside an ended text is read there before any other text too. -/
theorem Reads.append {lineStart : Bool} {s rest : Text} {l : Lexeme}
    (h : Reads lineStart s l rest) (hs : IsEnded s) (hrest : rest ≠ []) (r : Text) :
    Reads lineStart (s ++ r) l (rest ++ r) := by
  -- What ended the lexeme still stands after it, as something was left of the text.
  cases h with
  | newline => exact .newline _
  | @blank x s b rest hx h =>
      exact .blank hx (take_append _ [x] (Tail.resumes_run (by decide)) h hs hrest r)
  | splice => exact .splice _
  | lineComment h =>
      exact .lineComment (take_append _ "//" (Tail.resumes_run (by decide)) h hs hrest r)
  | blockComment h =>
      exact .blockComment (take_append .block "/*" Tail.resumes_block h hs hrest r)
  | @literal q kind s b rest hq h =>
      have hquote : q ≠ '\n' := by
        rcases quoteKind?_eq_some_iff.mp hq with ⟨rfl, _⟩ | ⟨rfl, _⟩ <;> decide
      exact .literal hq
        (take_append (.literal q) [q] (Tail.resumes_literal hquote) h hs hrest r)
  | @ident x s b rest hx h =>
      exact .ident hx (take_append _ [x] (Tail.resumes_run (by decide)) h hs hrest r)
  | @number x s b rest hx h =>
      exact .number hx (take_append .number [x] Tail.resumes_number h hs hrest r)
  | @fraction x s b rest hx h =>
      exact .fraction hx (take_append .number [.char '.', x] Tail.resumes_number h hs hrest r)
  | directive hline h =>
      exact .directive hline
        (take_append .directive "#" (Tail.resumes_escaped _) h hs hrest r)
  | ellipsis => exact .ellipsis _
  | arrow => exact .arrow _
  | @mark x rest hopen hblank hjoin hsplice hhash =>
      -- What follows a mark decides whether it joins, and that has not changed.
      have hended : IsEnded rest := isEnded_of_cons hs hrest
      refine .mark hopen hblank ((joins_append hended r).trans hjoin) ?_ hhash
      rintro ⟨hx, hfeed⟩
      rcases rest with _ | ⟨y, rest⟩
      · exact hrest rfl
      · exact hsplice ⟨hx, hfeed⟩

/-- A tail that took a whole text up to the end of a line goes on with what follows. -/
theorem take_append_nil (tail : Tail) (start : Text) (hresumes : Tail.Resumes tail.take)
    {s b : Text} (h : tail.take s = (b, [])) (hs : IsEnded (start ++ s)) (hstart : ¬ IsEnded start)
    (r : Text) : tail.take (s ++ r) = (b ++ (tail.take r).1, (tail.take r).2) := by
  have hne : s ≠ [] := by
    rintro rfl
    rw [List.append_nil] at hs
    exact hstart hs
  have happend := tail.append s
  rw [h, List.append_nil] at happend
  have hgoes := hresumes.goesOn r ((isEnded_append_iff hne).mp hs) (by rw [h])
  rw [← happend] at hgoes ⊢
  exact hgoes

end Lexeme

end DialectBuild
