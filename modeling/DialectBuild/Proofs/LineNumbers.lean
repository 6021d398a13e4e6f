import DialectBuild.Proofs.DroppedText

/-!
# The Lines of Tokens

Which line a token has. Tokens come in the order of their lines, and a token has the number of
the line on which it starts, as long as no literal before it goes over a line end. So a text
can be cut before any line: the tokens before the cut are those with smaller numbers.

The second part says what can be found at the start of a line. A line starts inside a
preprocessor line, a literal or a line of code only behind a backslash, a comment goes on over
each line that does not end it, and once reading has ended it does not start again.

## Main definitions

* `Context.isLiteral`, `Context.isComment`: What goes on at the start of a line.
* `Context.isCarried`: Whether a backslash carries the line before over.

## Theorems

* `sorted_tokensOf`: Tokens come in the order of their lines.
* `tokenize_take_append`: A text is read up to a line, and then on from it.
* `line_le_of_mem_tokenize`: No token has a higher number than the last line.
* `Context.endsWith_of_isCarried`: Only a backslash carries a line over.
-/

namespace DialectBuild

open Text

theorem le_line_of_mem_tokensOf {n : Nat} {ls : List Lexeme} {x : Token} (h : x ∈ tokensOf n ls) :
    n ≤ x.line := by
  fun_induction tokensOf n ls with
  | case1 n => exact absurd h List.not_mem_nil
  | case2 n l ls kind hkind ih =>
      rcases List.mem_cons.mp h with rfl | h
      · exact Nat.le_refl _
      · exact ih h
  | case3 n l ls hkind ih => exact Nat.le_of_add_right_le (ih h)

/-- Tokens come in the order of their lines. -/
theorem sorted_tokensOf (n : Nat) (ls : List Lexeme) :
    (tokensOf n ls).Pairwise (·.line ≤ ·.line) := by
  fun_induction tokensOf n ls with
  | case1 n => exact List.Pairwise.nil
  | case2 n l ls kind hkind ih =>
      exact List.Pairwise.cons (fun x hx => le_line_of_mem_tokensOf hx) ih
  | case3 n l ls hkind ih => exact ih

/-- Where no line ends, the line stays. -/
theorem line_of_mem_tokensOf {n : Nat} {ls : List Lexeme} {x : Token}
    (hls : ∀ l ∈ ls, .char '\n' ∉ l.text) (h : x ∈ tokensOf n ls) : x.line = n := by
  fun_induction tokensOf n ls with
  | case1 n => exact absurd h List.not_mem_nil
  | case2 n l ls kind hkind ih =>
      rcases List.mem_cons.mp h with rfl | h
      · rfl
      · exact ih (List.forall_mem_cons.mp hls).2 h
  | case3 n l ls hkind ih =>
      rcases List.forall_mem_cons.mp hls with ⟨hl, hls⟩
      rw [ih hls h, lineFeeds, List.count_eq_zero.mpr hl, Nat.add_zero]

namespace Context

/-- Whether a literal goes on at the start of the line. -/
def isLiteral : Context → Bool
  | literal _ _ => true
  | _ => false

/-- Whether a comment goes on at the start of the line. -/
def isComment : Context → Bool
  | comment _ => true
  | _ => false

/-- Whether the line goes on with the line before it, comments aside. -/
def isCarried : Context → Bool
  | code lineStart => !lineStart
  | directive => true
  | literal _ _ => true
  | _ => false

section Numbers

variable {c : Context}

theorem nextLine_of_not_isLiteral (hc : c.isLiteral = false) (n : Nat) : c.nextLine n = n + 1 := by
  cases c with
  | literal kind opened => cases hc
  | _ => rfl

theorem tokens_nil (hc : c.isLiteral = false) (n : Nat) : c.tokens n [] = [] := by
  have hnil : c.readings [] = [] := by
    cases c with
    | literal kind opened => cases hc
    | code lineStart => rw [readings_code, readings_nil]
    | comment lineStart => exact (readings_comment lineStart []).trans (readings_nil lineStart)
    | directive => exact (readings_directive []).trans (readings_nil true)
    | stopped => rfl
  rw [← map_reading_tokens c n] at hnil
  exact List.map_eq_nil_iff.mp hnil

/-- A literal that goes on will be a token. -/
theorem tokens_ne_nil (hc : c.isLiteral = true) (n : Nat) (s : Text) : c.tokens n s ≠ [] := by
  cases c with
  | literal kind opened =>
      have hpiece : ∀ b, ((literal kind opened).piece b).kind = .token kind := fun _ => rfl
      rw [tokens, lexemes_of_ne (by simp), tokensOf_token (hpiece _)]
      exact List.cons_ne_nil _ _
  | _ => cases hc

/-- Lines are read one after the other. If no literal goes over a line end, each of them
    has its own number. -/
theorem exists_tokens_flatten (c : Context) (n : Nat) (ls : List Text)
    (hls : ∀ l ∈ ls, IsEnded l ∧ .char '\n' ∉ l.dropLast)
    (hlit : ∀ i < ls.length, ((ls.take (i + 1)).foldl after c).isLiteral = false) :
    ∃ out : List Token, (∀ x ∈ out, x.line < n + ls.length) ∧ ∀ r,
      c.tokens n (ls.flatten ++ r) = out ++ (ls.foldl after c).tokens (n + ls.length) r := by
  induction ls generalizing c n with
  | nil => exact ⟨[], fun x hx => absurd hx List.not_mem_nil, fun r => rfl⟩
  | cons l ls ih =>
      rcases List.forall_mem_cons.mp hls with ⟨⟨hend, hline⟩, hls⟩
      rcases c.tokens_append n hend hline with ⟨first, hfirst, hstep⟩
      -- A line counts as one, as it does not end within a literal.
      have hnext : (c.after l).nextLine n = n + 1 :=
        nextLine_of_not_isLiteral (hlit 0 (Nat.zero_lt_succ _)) n
      rcases ih (c.after l) (n + 1) hls (fun i hi => hlit (i + 1) (Nat.succ_lt_succ hi))
        with ⟨out, hout, hrest⟩
      have hlength : n + 1 + ls.length = n + (l :: ls).length := by
        rw [List.length_cons]
        omega
      refine ⟨first ++ out, ?_, fun r => ?_⟩
      · intro x hx
        rcases List.mem_append.mp hx with hx | hx
        · rw [hfirst x hx, List.length_cons]
          omega
        · rw [← hlength]
          exact hout x hx
      · rw [List.flatten_cons, List.append_assoc, hstep, hnext, hrest, hlength, List.append_assoc,
          List.foldl_cons]

end Numbers

/-- Where no line ends, all tokens have the same line. -/
theorem line_of_mem_tokens {c : Context} {n : Nat} {s : Text} {x : Token}
    (hc : c.isLiteral = false) (hs : .char '\n' ∉ s) (hx : x ∈ c.tokens n s) : x.line = n := by
  by_cases hstopped : c = stopped
  · rw [hstopped] at hx
    exact absurd hx List.not_mem_nil
  · have happend := c.tail.append s
    have hpieces := lexemesFrom_append c.lineStart (c.tail.take s).2
    rw [tokens, lexemes_of_ne hstopped] at hx
    -- No piece has a line feed: the first is a front part of `s`, the others are read from what it
    -- leaves.
    refine line_of_mem_tokensOf (List.forall_mem_cons.mpr ⟨fun h => hs ?_, fun l hl h => hs ?_⟩) hx
    · rw [← happend]
      refine List.mem_append_left _ ?_
      cases c with
      | literal kind opened => cases hc
      | _ => exact h
    · rw [← happend, ← hpieces]
      refine List.mem_append_right _ (List.mem_append_left _ (List.mem_flatten.mpr ⟨l.text, ?_, h⟩))
      exact List.mem_map_of_mem hl

theorem tokens_code (n : Nat) (lineStart : Bool) (s : Text) :
    (code lineStart).tokens n s = tokensOf n (lexemesFrom lineStart s).1 := by
  rw [tokens, lexemes_of_ne (by simp)]
  rfl

end Context

section Cut

variable {t l : Text} {n m : Nat}

theorem tokenize_eq_tokens (t : Text) : tokenize t = (Context.code true).tokens 1 t :=
  (Context.tokens_code 1 true t).symm

/-- A line of a text has one line feed at most, at its end. -/
theorem Text.noFeed_of_mem_codeLines (hl : l ∈ t.codeLines) : .char '\n' ∉ l.dropLast :=
  noFeed_dropLast_of_codeLines (codeLines_of_mem hl)

/-- A text is read up to one of its lines, and then on from there. -/
theorem tokenize_take_append (hn : n < t.codeLines.length)
    (hlit : ∀ i ≤ n, (contextAt t i).isLiteral = false) :
    (∀ r, tokenize ((t.codeLines.take n).flatten ++ r) =
      tokenize (t.codeLines.take n).flatten ++ (contextAt t n).tokens (n + 1) r) ∧
      ∀ x ∈ tokenize (t.codeLines.take n).flatten, x.line ≤ n := by
  have hlength : (t.codeLines.take n).length = n := List.length_take_of_le (Nat.le_of_lt hn)
  rcases (Context.code true).exists_tokens_flatten 1 (t.codeLines.take n)
    (fun l hl => ⟨isEnded_of_mem_take hn hl, noFeed_of_mem_codeLines (List.mem_of_mem_take hl)⟩)
    (fun i hi => by
      rw [hlength] at hi
      rw [List.take_take, Nat.min_eq_left (by omega), ← contextAt_eq_foldl (by omega)]
      exact hlit _ (by omega)) with ⟨out, hout, hread⟩
  rw [hlength, ← contextAt_eq_foldl hn] at hread
  -- With nothing after them, the lines give these tokens and no others.
  have hbefore : tokenize (t.codeLines.take n).flatten = out := by
    have hnil := hread []
    rw [List.append_nil, Context.tokens_nil (hlit n (Nat.le_refl n)), List.append_nil] at hnil
    rw [tokenize_eq_tokens, hnil]
  rw [hbefore]
  constructor
  · intro r
    rw [tokenize_eq_tokens, hread, Nat.add_comm]
  · intro x hx
    have hline := hout x hx
    rw [hlength] at hline
    omega

/-- Once reading has ended it does not start again. -/
theorem contextAt_ne_stopped (h : contextAt t m ≠ .stopped) (hn : n ≤ m)
    (hm : m ≤ t.codeLines.length) : contextAt t n ≠ .stopped := by
  intro hstopped
  refine h ?_
  clear h
  induction m, hn using Nat.le_induction with
  | base => exact hstopped
  | succ m _ ih =>
      have hl : t.codeLines[m]? = some t.codeLines[m] := List.getElem?_eq_getElem hm
      rw [contextAt_succ hl, ih (Nat.le_of_succ_le hm), Context.after_stopped]

/-- No token has a higher number than the last line, unless a literal goes over a line end. -/
theorem line_le_of_mem_tokenize {x : Token} (hx : x ∈ tokenize t)
    (hlit : ∀ i ≤ t.codeLines.length, (contextAt t i).isLiteral = false) :
    x.line ≤ t.codeLines.length := by
  rcases List.eq_nil_or_concat t.codeLines with hnil | ⟨before, l, hlines⟩
  · have ht := flatten_codeLines t
    rw [hnil] at ht
    rw [← ht, tokenize_eq_tokens, List.flatten_nil, Context.tokens_nil rfl] at hx
    exact absurd hx List.not_mem_nil
  · rw [List.concat_eq_append] at hlines
    have hlength : t.codeLines.length = before.length + 1 := by rw [hlines]; simp
    have hn : before.length < t.codeLines.length := by omega
    have hl : t.codeLines[before.length]? = some l := by rw [hlines]; simp
    have htake : t.codeLines.take before.length = before := by rw [hlines]; simp
    rcases tokenize_take_append hn (fun i hi => hlit i (by omega)) with ⟨hread, hbefore⟩
    have ht := hread l
    rw [htake] at ht hbefore
    have hwhole : before.flatten ++ l = t := by
      rw [← List.flatten_singleton (l := l), ← List.flatten_append, ← hlines, flatten_codeLines]
    rw [hwhole] at ht
    rw [ht] at hx
    have hmem : l ∈ t.codeLines := List.mem_of_getElem? hl
    -- The token is one of the lines before the last, or of the last, which may lack its line end.
    rcases List.mem_append.mp hx with hx | hx
    · exact Nat.le_trans (hbefore x hx) (by omega)
    · suffices hline : x.line = before.length + 1 by omega
      by_cases hend : IsEnded l
      · rcases (contextAt t before.length).tokens_append (before.length + 1) hend
          (noFeed_of_mem_codeLines hmem) with ⟨out, hout, hstep⟩
        have hnext := contextAt_succ hl
        rw [closed_of_isEnded hend] at hnext
        have hnil := hstep []
        rw [List.append_nil, ← hnext, Context.tokens_nil (hlit _ (by omega)),
          List.append_nil] at hnil
        rw [hnil] at hx
        exact hout x hx
      · exact Context.line_of_mem_tokens (hlit _ (by omega))
          (noFeed_of_not_isEnded (noFeed_of_mem_codeLines hmem) hend) hx

end Cut

namespace Tail

/-- A piece that goes over a line end has a backslash before it. -/
theorem endsWith_of_takeEscaped {stop : Symbol → Bool} {s : Text}
    (h : (takeEscaped stop s).2 = []) (hs : IsEnded s) : ∃ b, s = b ++ "\\\n" := by
  -- Only an escape passes a line feed, so one that is last was escaped.
  fun_induction takeEscaped stop s with
  | case1 => exact absurd hs not_isEnded_nil
  | case2 x r ih =>
      by_cases hr : r = []
      · rw [hr] at hs ⊢
        have hx : x = .char '\n' := Option.some.inj hs
        rw [hx]
        exact ⟨[], rfl⟩
      · rcases ih h (isEnded_of_cons (isEnded_of_cons hs (List.cons_ne_nil x r)) hr) with ⟨b, rfl⟩
        exact ⟨.char '\\' :: x :: b, rfl⟩
  | case3 x r _ _ => exact absurd h (List.cons_ne_nil x r)
  | case4 x r hnot hx ih =>
      by_cases hr : r = []
      · rw [hr] at hs
        have hfeed : x = .char '\n' := Option.some.inj hs
        rw [not_or, not_or] at hx
        exact absurd hfeed hx.2.1
      · rcases ih h (isEnded_of_cons hs hr) with ⟨b, rfl⟩
        exact ⟨x :: b, rfl⟩

theorem endsWith_of_takeLiteral {q : Symbol} (hq : q ≠ '\n') {s : Text}
    (h : (takeLiteral q s).2 = []) (hs : IsEnded s) : ∃ b, s = b ++ "\\\n" := by
  rw [takeLiteral_of_isEnded hq hs h] at h
  exact endsWith_of_takeEscaped h hs

end Tail

namespace Context

variable {c : Context} {s : Text}

/-- A piece that is carried over from a line of code has a backslash at the end of the line. -/
theorem endsWith_of_atEnd {lineStart : Bool} {l : Lexeme} (h : Lexeme.Reads lineStart s l [])
    (hs : IsEnded s) (hcarried : (atEnd lineStart l).isCarried = true) :
    ∃ b, s = b ++ "\\\n" := by
  -- The symbol that opens the piece is no line feed and so not the end of it.
  have hcons : ∀ {x : Symbol} {v : Text}, x ≠ '\n' → (IsEnded v → ∃ b, v = b ++ "\\\n") →
      IsEnded (x :: v) → ∃ b, x :: v = b ++ "\\\n" := by
    intro x v hx hends hxv
    by_cases hv : v = []
    · rw [hv] at hxv
      exact absurd (Option.some.inj hxv) hx
    · rcases hends (isEnded_of_cons hxv hv) with ⟨b, rfl⟩
      exact ⟨x :: b, rfl⟩
  cases h.readsEnd hs with
  | newline => cases hcarried
  | splice => exact ⟨[], rfl⟩
  | blockComment => cases hcarried
  | literal hq htake =>
      have hfeed : ∀ {q kind}, Lexeme.quoteKind? q = some kind → q ≠ '\n' := by
        intro q kind hq
        rcases Lexeme.quoteKind?_eq_some_iff.mp hq with ⟨rfl, _⟩ | ⟨rfl, _⟩ <;> decide
      exact hcons (hfeed hq) (Tail.endsWith_of_takeLiteral (hfeed hq) (congrArg Prod.snd htake)) hs
  | directive hline htake =>
      exact hcons (by decide) (Tail.endsWith_of_takeEscaped (congrArg Prod.snd htake)) hs

theorem endsWith_of_afterCode {lineStart : Bool} (hs : IsEnded s)
    (hcarried : (afterCode lineStart s).isCarried = true) : ∃ b, s = b ++ "\\\n" := by
  fun_induction afterCode lineStart s with
  | case1 lineStart hnone => exact absurd hs not_isEnded_nil
  | case2 lineStart s hnone hne => cases hcarried
  | case3 lineStart s l hnext =>
      exact endsWith_of_atEnd (Lexeme.next?_eq_some_iff.mp hnext) hs hcarried
  | case4 lineStart s l rest hnext hrest ih =>
      have happend := (Lexeme.next?_eq_some hnext).2
      rw [← happend] at hs
      rcases ih ((isEnded_append_iff hrest).mp hs) hcarried with ⟨b, rfl⟩
      exact ⟨l.text ++ b, by rw [List.append_assoc, happend]⟩

/-- A line is carried over only by a backslash at its end. -/
theorem endsWith_of_isCarried (hs : IsEnded s) (hcarried : (c.after s).isCarried = true) :
    ∃ b, s = b ++ "\\\n" := by
  by_cases hc : c = stopped
  · rw [hc, after_stopped] at hcarried
    cases hcarried
  · rw [after_of_ne hc] at hcarried
    -- What was open at the start takes all of the text, or there is code after it.
    by_cases hopen : (c.tail.take s).2 = []
    · cases c with
      | code lineStart =>
          have hnil : s = [] := hopen
          rw [hnil] at hs
          exact absurd hs not_isEnded_nil
      | comment lineStart =>
          rw [if_pos hopen] at hcarried
          cases hcarried
      | directive => exact Tail.endsWith_of_takeEscaped hopen hs
      | literal kind opened =>
          refine Tail.endsWith_of_takeLiteral ?_ hopen hs
          cases kind <;> decide
      | stopped => exact absurd rfl hc
    · rw [if_neg hopen] at hcarried
      rcases endsWith_of_afterCode (Tail.isEnded_snd _ hs hopen) hcarried with ⟨b, hb⟩
      refine ⟨(c.tail.take s).1 ++ b, ?_⟩
      rw [List.append_assoc, ← hb, c.tail.append]

/-- A comment goes on over a line that does not end it. -/
theorem after_comment {lineStart : Bool} (hs : hasPart "*/" s = false) :
    (comment lineStart).after s = comment lineStart := by
  rw [after_of_ne (by simp)]
  exact if_pos (congrArg Prod.snd (Tail.takeBlock_of_open hs))

end Context

end DialectBuild
