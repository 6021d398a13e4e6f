import DialectBuild.Proofs.LineContext

/-!
# Carriage Returns

A carriage return before every line feed, and where pieces of text end then. A line that ends
with a carriage return and a line feed should be read like one that ends with a line feed alone.

Words and numbers end before the carriage return as they ended before the line feed, and a block
comment passes both. A piece that goes up to the end of its line takes the carriage return
along. That is so for line comments, preprocessor lines and literals without a closing quote. In
the last two a backslash takes the next symbol along, and what is said here is said for pieces in
which this is no line feed.

## Main definitions

* `Text.withReturns`: A text with a carriage return before every line feed.
* `Tail.TakesReturn`: A piece that takes the carriage return along.

## Theorems

* `Text.head?_withReturns`: How a text starts.
* `Tail.run_withReturns`, `Tail.takeNumber_withReturns`: Words and numbers stay the same.
* `Tail.takeBlock_withReturns`: Block comments end at the same place.
* `Tail.takeEscaped_snd_cases`: Where a scan with escapes ends.
* `Tail.takesReturn_run`, `Tail.takesReturn_directive`: Line comments and preprocessor lines.
* `Tail.takeLiteral_withReturns_of_closed`, `Tail.takeLiteral_withReturns_of_open`: Literals with
  and without a closing quote.
-/

namespace DialectBuild

namespace Text

/-- The text with a carriage return before every line feed. -/
def withReturns (s : Text) : Text :=
  s.flatMap fun x : Symbol => if x = '\n' then [.char '\r', .char '\n'] else [x]

theorem withReturns_feed (s : Text) :
    withReturns (.char '\n' :: s) = .char '\r' :: .char '\n' :: withReturns s :=
  rfl

theorem withReturns_cons {x : Symbol} (hx : x ≠ '\n') (s : Text) :
    withReturns (x :: s) = x :: withReturns s := by
  rw [withReturns, List.flatMap_cons, if_neg hx]
  rfl

theorem withReturns_append (s r : Text) :
    withReturns (s ++ r) = withReturns s ++ withReturns r :=
  List.flatMap_append

theorem withReturns_of_noFeed {s : Text} (h : .char '\n' ∉ s) : withReturns s = s := by
  induction s with
  | nil => rfl
  | cons x s ih =>
      rw [List.mem_cons, not_or] at h
      rw [withReturns_cons (Ne.symm h.1), ih h.2]

/-- A text without line feeds stays as it is before any other. -/
theorem withReturns_append_of_noFeed {b : Text} (h : .char '\n' ∉ b) (r : Text) :
    withReturns (b ++ r) = b ++ withReturns r := by
  rw [withReturns_append, withReturns_of_noFeed h]

theorem lineFeeds_withReturns (s : Text) : (withReturns s).lineFeeds = s.lineFeeds := by
  induction s with
  | nil => rfl
  | cons x s ih =>
      by_cases hx : x = '\n'
      · subst hx
        rw [withReturns_feed]
        simp only [lineFeeds, List.count_cons] at ih ⊢
        rw [ih]
        rfl
      · rw [withReturns_cons hx]
        simp only [lineFeeds, List.count_cons] at ih ⊢
        rw [ih]

theorem lineFeeds_append_of_noFeed (s : Text) {r : Text} (h : .char '\n' ∉ r) :
    (s ++ r).lineFeeds = s.lineFeeds := by
  rw [lineFeeds_append, lineFeeds, lineFeeds, List.count_eq_zero.mpr h, Nat.add_zero]

theorem head?_withReturns (s : Text) :
    (withReturns s).head? = s.head?.map fun x : Symbol => if x = '\n' then .char '\r' else x := by
  rcases s with _ | ⟨x, s⟩
  · rfl
  · by_cases hx : x = '\n'
    · subst hx
      rfl
    · rw [withReturns_cons hx, List.head?_cons, List.head?_cons, Option.map_some, if_neg hx]

/-- A test of the first symbol that neither a carriage return nor a line feed passes comes out the
    same. -/
theorem head?_any_withReturns {p : Symbol → Bool} (hreturn : p (.char '\r') = false)
    (hfeed : p (.char '\n') = false) (s : Text) :
    (withReturns s).head?.any p = s.head?.any p := by
  have hsame : ∀ x : Symbol, p (if x = '\n' then .char '\r' else x) = p x := by
    intro x
    by_cases hx : x = '\n'
    · rw [if_pos hx, hx, hreturn, hfeed]
    · rw [if_neg hx]
  rw [head?_withReturns, Option.any_map]
  exact congrArg (fun q => s.head?.any q) (funext hsame)

/-- The texts that a text starts with stay the same if they have no line ends. -/
theorem startsWith_withReturns {p : Text} (hp : ∀ x ∈ p, x ≠ '\r' ∧ x ≠ '\n') (s : Text) :
    (withReturns s).startsWith p = s.startsWith p := by
  induction p generalizing s with
  | nil => rfl
  | cons y p ih =>
      rcases List.forall_mem_cons.mp hp with ⟨⟨hreturn, hfeed⟩, hp⟩
      rcases s with _ | ⟨x, s⟩
      · rfl
      · by_cases hx : x = '\n'
        · subst hx
          rw [withReturns_feed, startsWith, startsWith, List.isPrefixOf, List.isPrefixOf,
            beq_eq_false_iff_ne.mpr hreturn, beq_eq_false_iff_ne.mpr hfeed]
          rfl
        · rw [withReturns_cons hx, startsWith, startsWith, List.isPrefixOf, List.isPrefixOf]
          exact congrArg _ (ih hp s)

theorem head?_withReturns_ne_feed (s : Text) : (withReturns s).head? ≠ some (.char '\n') := by
  rw [head?_withReturns]
  intro h
  rcases Option.map_eq_some_iff.mp h with ⟨x, _, hx⟩
  split at hx
  next => exact absurd hx (by decide)
  next hne => exact hne hx

theorem head?_withReturns_eq_some_iff {s : Text} {y : Symbol} (hreturn : y ≠ '\r')
    (hfeed : y ≠ '\n') : (withReturns s).head? = some y ↔ s.head? = some y := by
  rw [head?_withReturns]
  rcases s.head? with _ | x
  · rfl
  · by_cases hx : x = '\n'
    · subst hx
      simp [Ne.symm hreturn, Ne.symm hfeed]
    · simp [hx]

end Text

open Text

namespace Tail

/-- A piece that stays the same before the rest with its carriage returns. -/
theorem take_withReturns (tail : Tail) {s b r : Text} (h : tail.take s = (b, r))
    (hfeed : .char '\n' ∉ b)
    (hstays : (tail.take (b ++ r)).1 = b → (tail.take (b ++ withReturns r)).1 = b) :
    tail.take (withReturns s) = (b, withReturns r) := by
  have happend := tail.append s
  rw [h] at happend
  rw [← happend, withReturns_append_of_noFeed hfeed]
  refine take_eq_iff.mpr (hstays ?_)
  rw [happend, h]

theorem run_withReturns {p : Symbol → Bool} (hfeed : p (.char '\n') = false)
    (hreturn : p (.char '\r') = false) {s b r : Text} (h : (run p).take s = (b, r)) :
    (run p).take (withReturns s) = (b, withReturns r) := by
  refine take_withReturns _ h ?_ fun hstays => ?_
  · intro hmem
    rw [forall_of_run h _ hmem] at hfeed
    cases hfeed
  · rw [run_append_fst_iff h] at hstays ⊢
    rw [head?_any_withReturns hreturn hfeed, hstays]

theorem takeNumber_withReturns {s b r : Text} (h : takeNumber s = (b, r)) :
    takeNumber (withReturns s) = (b, withReturns r) := by
  refine take_withReturns number h (noFeed_of_takeNumber h) fun hstays => ?_
  have hiff : ∀ r, (takeNumber (b ++ r)).1 = b ↔ continues b r = false := by
    intro r
    have hb := takeNumber_append_fst_iff (s := s) (r := r)
    rwa [h] at hb
  refine (hiff _).mpr ?_
  have hends : ∀ {x : Symbol}, isNumberSymbol x = false → isSign x = false →
      (isNumberSymbol x || (isSign x && b.getLast?.any isExponent)) = false := by
    intro x hnumber hsign
    rw [hnumber, hsign]
    rfl
  rw [continues, head?_any_withReturns (hends (by decide) (by decide))
    (hends (by decide) (by decide))]
  exact (hiff _).mp hstays

/-- A block comment ends where it ended, and line ends inside get their carriage returns. -/
theorem takeBlock_withReturns (s : Text) :
    takeBlock (withReturns s) = (withReturns (takeBlock s).1, withReturns (takeBlock s).2) := by
  fun_induction takeBlock s with
  | case1 => rfl
  | case2 r => rfl
  | case3 x r hopen ih =>
      by_cases hx : x = '\n'
      · subst hx
        have hstep : takeBlock (.char '\r' :: .char '\n' :: withReturns r) =
            (.char '\r' :: .char '\n' :: (takeBlock (withReturns r)).1,
              (takeBlock (withReturns r)).2) := rfl
        rw [withReturns_feed, withReturns_feed, hstep, ih]
      · have hstep : takeBlock (x :: withReturns r) =
            (x :: (takeBlock (withReturns r)).1, (takeBlock (withReturns r)).2) := by
          rw [takeBlock]
          -- A slash that follows in the text with returns is one that followed before.
          intro u hstar hu
          have hhead : r.head? = some (.char '/') :=
            (head?_withReturns_eq_some_iff (by decide) (by decide)).mp (by rw [hu]; rfl)
          rcases List.head?_eq_some_iff.mp hhead with ⟨v, rfl⟩
          exact hopen v hstar rfl
        rw [withReturns_cons hx, hstep, ih, withReturns_cons hx]

/-- A scan with escapes that stops at a line feed takes its carriage return along. -/
theorem takeEscaped_withReturns_feed {stop : Symbol → Bool} (hstop : stop (.char '\r') = false)
    {s b r : Text} (h : takeEscaped stop s = (b, .char '\n' :: r)) (hfeed : .char '\n' ∉ b) :
    takeEscaped stop (withReturns s) = (b ++ [.char '\r'], .char '\n' :: withReturns r) := by
  have happend := takeEscaped_append stop s
  have htake := takeEscaped_append_eq stop s (withReturns (.char '\n' :: r))
  rw [h] at happend htake
  rw [← happend, withReturns_append_of_noFeed hfeed, htake, withReturns_feed]
  simp [takeEscaped_cons, hstop]

/-- A scan with escapes ends with the text, before a last backslash, at a line feed or at what it
    looks for. -/
theorem takeEscaped_snd_cases (stop : Symbol → Bool) (s : Text) :
    (takeEscaped stop s).2 = [] ∨ (takeEscaped stop s).2 = "\\" ∨
      (∃ r, (takeEscaped stop s).2 = .char '\n' :: r) ∨
      ∃ x r, (takeEscaped stop s).2 = x :: r ∧ stop x = true := by
  fun_induction takeEscaped stop s with
  | case1 => exact Or.inl rfl
  | case2 x r ih => exact ih
  | case3 x r hescape h =>
      rcases h with rfl | rfl | h
      · rcases r with _ | ⟨y, r⟩
        · exact Or.inr (Or.inl rfl)
        · exact absurd rfl (hescape y r rfl)
      · exact Or.inr (Or.inr (Or.inl ⟨r, rfl⟩))
      · exact Or.inr (Or.inr (Or.inr ⟨x, r, rfl, h⟩))
  | case4 x r _ _ ih => exact ih

/-- The piece `b` of the text `s` ends with the text, or with its line, and then it takes the
    carriage return along. -/
def TakesReturn (tail : Tail) (s b r : Text) : Prop :=
  .char '\n' ∉ r ∨ ∃ r', r = .char '\n' :: r' ∧
    tail.take (withReturns s) = (b ++ [.char '\r'], .char '\n' :: withReturns r')

/-- A line comment ends with the text or with its line. -/
theorem takesReturn_run {s b r : Text} (h : (run (· != .char '\n')).take s = (b, r)) :
    .char '\n' ∉ b ∧ (run (· != .char '\n')).TakesReturn s b r := by
  have hb : ∀ x ∈ b, (x != .char '\n') = true := forall_of_run h
  have hfeed : .char '\n' ∉ b := fun hmem => absurd (hb _ hmem) (by decide)
  have happend := (run (· != .char '\n')).append s
  rw [h] at happend
  -- The run is as long as it can be: what is left is empty or starts with a line feed.
  have hhead : r.head?.any (· != .char '\n') = false := by
    rw [← run_append_fst_iff h, happend, h]
  refine ⟨hfeed, ?_⟩
  rcases r with _ | ⟨x, r⟩
  · exact Or.inl List.not_mem_nil
  · have hx : x = '\n' := by simpa using hhead
    subst hx
    refine Or.inr ⟨r, rfl, ?_⟩
    have hall : ∀ x ∈ b ++ [.char '\r'], (x != .char '\n') = true :=
      List.forall_mem_append.mpr ⟨hb, List.forall_mem_singleton.mpr (by decide)⟩
    rw [← happend, withReturns_append_of_noFeed hfeed, withReturns_feed, ← List.singleton_append,
      ← List.append_assoc]
    refine take_eq_iff.mpr ((List.takeWhile_append_of_pos hall).trans ?_)
    rw [List.takeWhile_cons_of_neg (by decide), List.append_nil]

/-- A preprocessor line ends with the text, before a last backslash or with its line. -/
theorem takesReturn_directive {s b r : Text} (h : directive.take s = (b, r))
    (hb : .char '\n' ∉ b) : directive.TakesReturn s b r := by
  have hsnd : (takeEscaped (fun _ => false) s).2 = r := congrArg Prod.snd h
  rcases takeEscaped_snd_cases (fun _ => false) s with hr | hr | ⟨r', hr⟩ | ⟨x, r', _, hx⟩
  · exact Or.inl (by rw [← hsnd, hr]; decide)
  · exact Or.inl (by rw [← hsnd, hr]; decide)
  · rw [hsnd] at hr
    subst hr
    exact Or.inr ⟨r', rfl, takeEscaped_withReturns_feed rfl h hb⟩
  · cases hx

section Literals

variable {q : Symbol} {s b r : Text}

/-- A literal is closed exactly if the scan for its quote stopped there. -/
theorem isUnclosed_takeLiteral (hq : q ≠ '\\') (s : Text) :
    isUnclosed q (takeLiteral q s).1 = false ↔ (takeEscaped (· = q) s).2.head? = some q := by
  rw [takeLiteral_fst]
  split
  next h =>
    rw [isUnclosed, takeEscaped_append_eq, takeEscaped_cons hq,
      if_pos (Or.inr (decide_eq_true rfl))]
    exact ⟨fun _ => h, fun _ => rfl⟩
  next h =>
    have hend := takeEscaped_append_eq (· = q) s []
    rw [isUnclosed, hend]
    refine ⟨fun hclosed => ?_, fun hhead => absurd hhead h⟩
    cases hclosed

theorem takeLiteral_withReturns_of_closed (hq : q ≠ '\\') (h : takeLiteral q s = (b, r))
    (hfeed : .char '\n' ∉ b) (hclosed : isUnclosed q b = false) :
    takeLiteral q (withReturns s) = (b, withReturns r) := by
  refine take_withReturns (literal q) h hfeed fun _ => ?_
  have hfst : (takeLiteral q s).1 = b := congrArg Prod.fst h
  rw [← hfst, isUnclosed_takeLiteral hq] at hclosed
  -- The quote that closes the literal stops the scan before any text.
  have hb : b = (takeEscaped (· = q) s).1 ++ [q] := by
    rw [← hfst, takeLiteral_fst, if_pos hclosed]
  change (takeLiteral q (b ++ withReturns r)).1 = b
  rw [takeLiteral_fst, hb, List.append_assoc, takeEscaped_append_eq, List.singleton_append,
    takeEscaped_cons hq, if_pos (Or.inr (decide_eq_true rfl))]
  simp

/-- A literal that is not closed ends with the text, before a last backslash or with its line. -/
theorem takeLiteral_snd_of_open (hq : q ≠ '\\') (h : takeLiteral q s = (b, r))
    (hopen : isUnclosed q b = true) :
    takeEscaped (· = q) s = (b, r) ∧ (r = [] ∨ r = "\\" ∨ ∃ r', r = .char '\n' :: r') := by
  have hne : (takeEscaped (· = q) s).2.head? ≠ some q := by
    rw [Ne, ← isUnclosed_takeLiteral hq, h, hopen]
    decide
  rw [takeLiteral_eq, if_neg hne] at h
  refine ⟨h, ?_⟩
  rcases takeEscaped_snd_cases (· = q) s with hr | hr | hr | ⟨x, u, hr, hx⟩
  · exact Or.inl (by rw [← hr, h])
  · exact Or.inr (Or.inl (by rw [← hr, h]))
  · exact Or.inr (Or.inr (by rwa [h] at hr))
  · rw [hr] at hne
    exact absurd (congrArg some (of_decide_eq_true hx)) hne

theorem takeLiteral_withReturns_of_open (hreturn : q ≠ '\r') (hnewline : q ≠ '\n')
    (h : takeEscaped (· = q) s = (b, .char '\n' :: r)) (hfeed : .char '\n' ∉ b) :
    takeLiteral q (withReturns s) = (b ++ [.char '\r'], .char '\n' :: withReturns r) := by
  have hstop : decide (Symbol.char '\r' = q) = false := decide_eq_false (Ne.symm hreturn)
  rw [takeLiteral_eq, takeEscaped_withReturns_feed hstop h hfeed, if_neg]
  exact fun hhead => hnewline (Option.some.inj hhead).symm

end Literals

end Tail

/-- Whether a mark joins with what follows it does not depend on the line ends. -/
theorem Lexeme.joins_withReturns (x : Symbol) (r : Text) : joins x (withReturns r) = joins x r := by
  have hhead : ∀ {y : Symbol}, y ≠ '\r' → y ≠ '\n' →
      decide ((withReturns r).head? = some y) = decide (r.head? = some y) :=
    fun hreturn hfeed => decide_eq_decide.mpr (head?_withReturns_eq_some_iff hreturn hfeed)
  rw [joins, joins, hhead (by decide) (by decide), hhead (by decide) (by decide),
    hhead (by decide) (by decide), head?_any_withReturns (by decide) (by decide),
    startsWith_withReturns (by decide)]

end DialectBuild
