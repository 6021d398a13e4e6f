import DialectBuild.Proofs.Injecting
import DialectBuild.Proofs.Interruption

/-!
# Where Lines Start

What reading is in the middle of when it comes to the end of a line. Most lines start between
two pieces, but a line may also start inside a block comment, on a preprocessor line that a
backslash carries over, or inside a literal whose line feed is escaped, and behind a blank that
C text does not use nothing is read at all. `Context` lists these, and `Context.after` takes
the context of one line to that of the next.

A context is all that has to be known about the lines before a place. `Context.tokens` reads a
text in a context, and `Context.tokens_append` says that a text is read line by line: the tokens
of its first line, and then what the rest gives in the context after it. All tokens of a line
have its number, and only the line ends inside literals are not counted.

## Main definitions

* `Context`: Where reading stands between two lines.
* `Context.after`: The context after a text.
* `Context.tokens`, `Context.readings`: What a text gives in a context.
* `Text.upTo`: The text before a line.
* `contextAt`: The context in which a line starts.

## Theorems

* `Lexeme.Reads.readsEnd`: Which pieces a line end can interrupt.
* `Lexeme.Reads.resume`: A piece that a line end interrupts is read on.
* `Context.after_append`: Contexts follow each other.
* `Context.tokens_append`: A text is read line by line.
* `contextAt_succ`: The context of the next line.
-/

namespace DialectBuild

open Text

/-- Where reading stands between two lines of a text. -/
inductive Context where
  /-- Between two pieces. `lineStart` says whether a `#` would open a preprocessor line. -/
  | code (lineStart : Bool)
  /-- Inside a block comment. `lineStart` says the same of its end. -/
  | comment (lineStart : Bool)
  /-- On a preprocessor line that goes on. -/
  | directive
  /-- Inside a literal, of which `opened` has been read. -/
  | literal (kind : TokenKind) (opened : Text)
  /-- Past a blank at which reading ended. -/
  | stopped
  deriving DecidableEq, Repr

/-- The quote that closes a literal. -/
def TokenKind.quote : TokenKind → Symbol
  | .char => '\''
  | _ => '"'

namespace Context

/-- How the piece that is being read goes on. -/
def tail : Context → Tail
  | code _ => .none
  | comment _ => .block
  | directive => .directive
  | literal kind _ => .literal kind.quote
  | stopped => .none

/-- Whether a `#` right after the piece that is being read would open a preprocessor line. -/
def lineStart : Context → Bool
  | code b => b
  | comment b => b
  | directive => true
  | literal _ _ => false
  | stopped => false

/-- The piece that is being read, with what the next lines add to it. -/
def piece : Context → Text → Lexeme
  | code _, b => ⟨.blank, b⟩
  | comment _, b => ⟨.comment, b⟩
  | directive, b => ⟨.directive, b⟩
  | literal kind opened, b => ⟨.token kind, opened ++ b⟩
  | stopped, b => ⟨.blank, b⟩

/-- The context after more of the piece that is being read. -/
def grow : Context → Text → Context
  | literal kind opened, b => literal kind (opened ++ b)
  | c, _ => c

/-- The context where a text ends with the piece `l` and a line feed. -/
def atEnd (lineStart : Bool) (l : Lexeme) : Context :=
  match l.kind with
  | .comment => comment lineStart
  | .directive => directive
  | .token kind => literal kind l.text
  | _ => code (l.lineStartAfter lineStart)

/-- The context after a text that is read from between two pieces. -/
def afterCode (lineStart : Bool) (s : Text) : Context :=
  match _h : Lexeme.next? lineStart s with
  | none => if s = [] then code lineStart else stopped
  | some (l, rest) =>
      if rest = [] then atEnd lineStart l else afterCode (l.lineStartAfter lineStart) rest
termination_by s.length
decreasing_by exact Lexeme.length_lt_of_next? _h

/-- The context after the text `s`, which ends a line. -/
def after (c : Context) (s : Text) : Context :=
  if c = stopped then stopped
  else if (c.tail.take s).2 = [] then c.grow (c.tail.take s).1
  else afterCode c.lineStart (c.tail.take s).2

/-- The pieces of a text that is read on in this context. The first is what the text adds to
    the piece that is being read. -/
def lexemes (c : Context) (s : Text) : List Lexeme :=
  if c = stopped then []
  else c.piece (c.tail.take s).1 :: (lexemesFrom c.lineStart (c.tail.take s).2).1

/-- The tokens of a text that is read on in this context from the line with number `n`. -/
def tokens (c : Context) (n : Nat) (s : Text) : List Token :=
  tokensOf n (c.lexemes s)

/-- The number of the next line after a line with number `n`. A line end inside a literal is
    not counted. -/
def nextLine : Context → Nat → Nat
  | literal _ _, n => n
  | _, n => n + 1

end Context

namespace Context

theorem afterCode_of_reads {lineStart : Bool} {s rest : Text} {l : Lexeme}
    (h : Lexeme.Reads lineStart s l rest) :
    afterCode lineStart s = if rest = [] then atEnd lineStart l
      else afterCode (l.lineStartAfter lineStart) rest := by
  rw [afterCode]
  split
  next hnone =>
    rw [h.next?] at hnone
    cases hnone
  next l' rest' hsome =>
    rw [h.next?] at hsome
    cases hsome
    rfl

theorem afterCode_of_none {lineStart : Bool} {s : Text} (h : Lexeme.next? lineStart s = none)
    (hs : s ≠ []) : afterCode lineStart s = stopped := by
  rw [afterCode]
  split
  next => rw [if_neg hs]
  next l rest hsome =>
    rw [h] at hsome
    cases hsome

theorem resumes_tail (c : Context) : Tail.Resumes c.tail.take := by
  cases c with
  | code b => exact Tail.resumes_none
  | comment b => exact Tail.resumes_block
  | directive => exact Tail.resumes_escaped _
  | literal kind opened =>
      refine Tail.resumes_literal ?_
      cases kind <;> decide
  | stopped => exact Tail.resumes_none

end Context

namespace Lexeme

/-- The pieces that can end a text together with its last line. -/
inductive ReadsEnd (lineStart : Bool) : Text → Lexeme → Prop
  | newline : ReadsEnd lineStart [.char '\n'] ⟨.newline, "\n"⟩
  | splice : ReadsEnd lineStart [.char '\\', .char '\n'] ⟨.blank, "\\\n"⟩
  | blockComment {s b : Text} (hs : Tail.takeBlock s = (b, [])) :
      ReadsEnd lineStart (.char '/' :: .char '*' :: s) ⟨.comment, .char '/' :: .char '*' :: b⟩
  | literal {q : Symbol} {kind : TokenKind} {s b : Text} (hq : quoteKind? q = some kind)
      (hs : Tail.takeLiteral q s = (b, [])) : ReadsEnd lineStart (q :: s) ⟨.token kind, q :: b⟩
  | directive {s b : Text} (hline : lineStart = true) (hs : Tail.directive.take s = (b, [])) :
      ReadsEnd lineStart (.char '#' :: s) ⟨.directive, .char '#' :: b⟩

theorem Reads.readsEnd {lineStart : Bool} {s : Text} {l : Lexeme} (h : Reads lineStart s l [])
    (hs : IsEnded s) : ReadsEnd lineStart s l := by
  -- The text is one piece, so a sort of piece that has no line feed at its end is ruled out.
  have hfeed : .char '\n' ∈ l.text := by
    have happend := (next?_eq_some h.next?).2
    rw [List.append_nil] at happend
    rw [happend]
    exact List.mem_of_getLast? hs
  cases h with
  | newline => exact .newline
  | splice => exact .splice
  | blockComment htake => exact .blockComment htake
  | literal hq htake => exact .literal hq htake
  | directive hline htake => exact .directive hline htake
  | blank hx htake =>
      rcases List.mem_cons.mp hfeed with rfl | hmem
      · exact absurd hx (by decide)
      · exact absurd (Tail.forall_of_run htake _ hmem) (by decide)
  | lineComment htake =>
      simp only [List.mem_cons] at hfeed
      rcases hfeed with hfeed | hfeed | hmem
      · exact absurd hfeed (by decide)
      · exact absurd hfeed (by decide)
      · exact absurd (Tail.forall_of_run htake _ hmem) (by decide)
  | ident hx htake =>
      rcases List.mem_cons.mp hfeed with rfl | hmem
      · exact absurd hx (by decide)
      · exact absurd (Tail.forall_of_run htake _ hmem) (by decide)
  | number hx htake =>
      rcases List.mem_cons.mp hfeed with rfl | hmem
      · exact absurd hx (by decide)
      · exact absurd hmem (Tail.noFeed_of_takeNumber htake)
  | fraction hx htake =>
      simp only [List.mem_cons] at hfeed
      rcases hfeed with hfeed | rfl | hmem
      · exact absurd hfeed (by decide)
      · exact absurd hx (by decide)
      · exact absurd hmem (Tail.noFeed_of_takeNumber htake)
  | ellipsis => exact absurd hs (by decide)
  | arrow => exact absurd hs (by decide)
  | mark hopen hblank hjoin hsplice hhash =>
      rw [← List.mem_singleton.mp hfeed] at hblank
      exact absurd hblank (by decide)

/-- A piece that ends a text together with a line is read on with what follows. -/
theorem Reads.resume {lineStart : Bool} {s : Text} {l : Lexeme} (h : Reads lineStart s l [])
    (hs : IsEnded s) (r : Text) :
    Reads lineStart (s ++ r)
      ⟨l.kind, l.text ++ ((Context.atEnd lineStart l).tail.take r).1⟩
      ((Context.atEnd lineStart l).tail.take r).2 := by
  -- Only these pieces can reach the end of a text that ends in a line feed.
  cases h.readsEnd hs with
  | newline => exact .newline _
  | splice => exact .splice _
  | blockComment htake =>
      exact .blockComment (take_append_nil .block "/*" Tail.resumes_block htake hs (by decide) r)
  | literal hq htake =>
      rcases quoteKind?_eq_some_iff.mp hq with ⟨rfl, rfl⟩ | ⟨rfl, rfl⟩
      · exact .literal hq (take_append_nil (.literal '"') ['"']
          (Tail.resumes_literal (by decide)) htake hs (by decide) r)
      · exact .literal hq (take_append_nil (.literal '\'') ['\'']
          (Tail.resumes_literal (by decide)) htake hs (by decide) r)
  | directive hline htake =>
      exact .directive hline
        (take_append_nil .directive "#" (Tail.resumes_escaped _) htake hs (by decide) r)

end Lexeme

namespace Context

variable {lineStart : Bool} {c : Context} {s : Text}

@[simp] theorem tail_grow (c : Context) (b : Text) : (c.grow b).tail = c.tail := by
  cases c <;> rfl

@[simp] theorem lineStart_grow (c : Context) (b : Text) : (c.grow b).lineStart = c.lineStart := by
  cases c <;> rfl

theorem grow_grow (c : Context) (b b' : Text) : (c.grow b).grow b' = c.grow (b ++ b') := by
  cases c <;> simp [grow]

theorem grow_ne_stopped (hc : c ≠ stopped) (b : Text) : c.grow b ≠ stopped := by
  cases c <;> simp_all [grow]

/-- A piece at the end of a text grows with the text. -/
theorem atEnd_append (lineStart : Bool) (l : Lexeme) (b : Text) :
    atEnd lineStart ⟨l.kind, l.text ++ b⟩ = (atEnd lineStart l).grow b := by
  rcases l with ⟨kind, text⟩
  cases kind <;> rfl

theorem atEnd_ne_stopped (lineStart : Bool) (l : Lexeme) : atEnd lineStart l ≠ stopped := by
  rcases l with ⟨kind, text⟩
  cases kind <;> simp [atEnd]

theorem lineStart_atEnd {rest : Text} {l : Lexeme} (h : Lexeme.Reads lineStart s l rest) :
    (atEnd lineStart l).lineStart = l.lineStartAfter lineStart := by
  cases h with
  | directive hline _ => exact hline.symm
  | _ => rfl

theorem after_stopped (s : Text) : stopped.after s = stopped :=
  if_pos rfl

theorem after_of_ne (hc : c ≠ stopped) (s : Text) :
    c.after s = if (c.tail.take s).2 = [] then c.grow (c.tail.take s).1
      else afterCode c.lineStart (c.tail.take s).2 :=
  if_neg hc

theorem afterCode_append (hs : IsEnded s) (r : Text) :
    afterCode lineStart (s ++ r) = (afterCode lineStart s).after r := by
  fun_induction afterCode lineStart s with
  | case1 lineStart hnone => exact absurd hs not_isEnded_nil
  | case2 lineStart s hnone hne =>
      rw [after_stopped]
      exact afterCode_of_none (Lexeme.next?_append_of_none hnone hne r)
        (List.append_ne_nil_of_left_ne_nil hne r)
  | case3 lineStart s l hnext =>
      -- The last piece of the text takes what belongs to it, and reading goes on from there.
      have hread := Lexeme.next?_eq_some_iff.mp hnext
      rw [afterCode_of_reads (hread.resume hs r), after_of_ne (atEnd_ne_stopped lineStart l),
        atEnd_append, lineStart_atEnd hread]
      rfl
  | case4 lineStart s l rest hnext hrest ih =>
      have hread := Lexeme.next?_eq_some_iff.mp hnext
      have hended : IsEnded rest := by
        rw [← (Lexeme.next?_eq_some hnext).2] at hs
        exact (isEnded_append_iff hrest).mp hs
      rw [afterCode_of_reads (hread.append hs hrest r),
        if_neg (List.append_ne_nil_of_left_ne_nil hrest r), ih hended]

/-- Contexts follow each other from line to line. -/
theorem after_append (c : Context) (hs : IsEnded s) (r : Text) :
    c.after (s ++ r) = (c.after s).after r := by
  by_cases hc : c = stopped
  · rw [hc, after_stopped, after_stopped, after_stopped]
  · have hresumes := c.resumes_tail
    rw [after_of_ne hc, after_of_ne hc s]
    by_cases hopen : (c.tail.take s).2 = []
    · -- The whole text belongs to the piece that is being read.
      have hall := c.tail.append s
      rw [hopen, List.append_nil] at hall
      rw [if_pos hopen, hresumes.goesOn r hs hopen, after_of_ne (grow_ne_stopped hc _), hall,
        tail_grow, lineStart_grow, grow_grow]
    · rw [if_neg hopen, hresumes.stays r hs hopen,
        if_neg (List.append_ne_nil_of_left_ne_nil hopen r)]
      exact afterCode_append (Tail.isEnded_snd _ hs hopen) r

end Context

/-- A line has one line feed. -/
theorem Text.lineFeeds_of_isEnded {s : Text} (hs : IsEnded s) (hline : .char '\n' ∉ s.dropLast) :
    s.lineFeeds = 1 := by
  rcases List.getLast?_eq_some_iff.mp hs with ⟨b, rfl⟩
  rw [List.dropLast_concat] at hline
  rw [lineFeeds, List.count_append, List.count_eq_zero.mpr hline]
  rfl

theorem Text.lineFeeds_append (s r : Text) : (s ++ r).lineFeeds = s.lineFeeds + r.lineFeeds :=
  List.count_append

theorem tokensOf_token {n : Nat} {l : Lexeme} {kind : TokenKind} (h : l.kind = .token kind)
    (ls : List Lexeme) : tokensOf n (l :: ls) = ⟨kind, l.text, n⟩ :: tokensOf n ls := by
  simp only [tokensOf, h]

theorem tokensOf_other {n : Nat} {l : Lexeme} (h : ∀ kind, l.kind ≠ .token kind)
    (ls : List Lexeme) : tokensOf n (l :: ls) = tokensOf (n + l.text.lineFeeds) ls := by
  rw [tokensOf]
  split
  next kind hkind => exact absurd hkind (h kind)
  next => rfl

namespace Context

theorem lexemes_of_ne {c : Context} (hc : c ≠ stopped) (s : Text) :
    c.lexemes s = c.piece (c.tail.take s).1 :: (lexemesFrom c.lineStart (c.tail.take s).2).1 :=
  if_neg hc

theorem tokens_atEnd {lineStart : Bool} {l : Lexeme} {n : Nat} (hl : l.text.lineFeeds = 1)
    (b : Text) (ls : List Lexeme) :
    tokensOf n (⟨l.kind, l.text ++ b⟩ :: ls) =
      tokensOf ((atEnd lineStart l).nextLine n) ((atEnd lineStart l).piece b :: ls) := by
  rcases l with ⟨kind, text⟩
  have hfeeds : n + (text ++ b).lineFeeds = n + 1 + b.lineFeeds := by
    rw [lineFeeds_append]
    have hone : text.lineFeeds = 1 := hl
    omega
  cases kind with
  | token kind => rfl
  | newline => exact congrArg (tokensOf · ls) hfeeds
  | blank => exact congrArg (tokensOf · ls) hfeeds
  | comment => exact congrArg (tokensOf · ls) hfeeds
  | directive => exact congrArg (tokensOf · ls) hfeeds

/-- The tokens of a line that is read from between two pieces all have its number, and reading
    goes on in the context after it. -/
theorem tokensOf_append {lineStart : Bool} {s : Text} (n : Nat) (hs : IsEnded s)
    (hline : .char '\n' ∉ s.dropLast) :
    ∃ out : List Token, (∀ t ∈ out, t.line = n) ∧ ∀ r,
      tokensOf n (lexemesFrom lineStart (s ++ r)).1 = out ++
        (afterCode lineStart s).tokens ((afterCode lineStart s).nextLine n) r := by
  fun_induction afterCode lineStart s with
  | case1 lineStart hnone => exact absurd hs not_isEnded_nil
  | case2 lineStart s hnone hne =>
      refine ⟨[], fun t ht => absurd ht List.not_mem_nil, fun r => ?_⟩
      rw [lexemesFrom_of_none (Lexeme.next?_append_of_none hnone hne r)]
      rfl
  | case3 lineStart s l hnext =>
      refine ⟨[], fun t ht => absurd ht List.not_mem_nil, fun r => ?_⟩
      have hread := Lexeme.next?_eq_some_iff.mp hnext
      have htext : l.text = s := by
        have happend := (Lexeme.next?_eq_some hnext).2
        rwa [List.append_nil] at happend
      have hfeeds : l.text.lineFeeds = 1 := by
        rw [htext]
        exact lineFeeds_of_isEnded hs hline
      rw [lexemesFrom_of_reads (hread.resume hs r), List.nil_append, tokens,
        lexemes_of_ne (atEnd_ne_stopped lineStart l), lineStart_atEnd hread,
        ← tokens_atEnd hfeeds]
      rfl
  | case4 lineStart s l rest hnext hrest ih =>
      have hread := Lexeme.next?_eq_some_iff.mp hnext
      have happend := (Lexeme.next?_eq_some hnext).2
      have hended : IsEnded rest := by
        rw [← happend] at hs
        exact (isEnded_append_iff hrest).mp hs
      -- The line feed is at the end, so the first piece has none.
      have hfeed : .char '\n' ∉ l.text ∧ .char '\n' ∉ rest.dropLast := by
        rw [← happend, List.dropLast_append_of_ne_nil hrest, List.mem_append, not_or] at hline
        exact hline
      have hfeeds : l.text.lineFeeds = 0 := List.count_eq_zero.mpr hfeed.1
      rcases ih hended hfeed.2 with ⟨out, hout, hgoes⟩
      by_cases htoken : ∃ kind, l.kind = .token kind
      · rcases htoken with ⟨kind, hkind⟩
        refine ⟨⟨kind, l.text, n⟩ :: out, List.forall_mem_cons.mpr ⟨rfl, hout⟩, fun r => ?_⟩
        rw [lexemesFrom_of_reads (hread.append hs hrest r), tokensOf_token hkind, hgoes r,
          List.cons_append]
      · refine ⟨out, hout, fun r => ?_⟩
        rw [lexemesFrom_of_reads (hread.append hs hrest r),
          tokensOf_other (fun kind h => htoken ⟨kind, h⟩), hfeeds]
        exact hgoes r

/-- A line that belongs to the piece that is being read adds to it, and moves the line. -/
theorem tokens_grow (c : Context) {s : Text} {n : Nat} (hs : s.lineFeeds = 1) (b : Text)
    (ls : List Lexeme) :
    tokensOf n (c.piece (s ++ b) :: ls) =
      tokensOf ((c.grow s).nextLine n) ((c.grow s).piece b :: ls) := by
  have hfeeds : n + (s ++ b).lineFeeds = n + 1 + b.lineFeeds := by
    rw [lineFeeds_append]
    omega
  cases c with
  | literal kind opened => simp only [piece, grow, nextLine, List.append_assoc]
  | code _ => exact congrArg (tokensOf · ls) hfeeds
  | comment _ => exact congrArg (tokensOf · ls) hfeeds
  | directive => exact congrArg (tokensOf · ls) hfeeds
  | stopped => exact congrArg (tokensOf · ls) hfeeds

/-- The rest of the piece that is being read is a token of its line, or none. -/
theorem exists_tokensOf_piece (c : Context) (n : Nat) {b : Text} (hb : .char '\n' ∉ b) :
    ∃ out : List Token, (∀ t ∈ out, t.line = n) ∧ ∀ ls,
      tokensOf n (c.piece b :: ls) = out ++ tokensOf n ls := by
  have hfeeds : n + b.lineFeeds = n := by
    rw [lineFeeds, List.count_eq_zero.mpr hb, Nat.add_zero]
  -- A piece that is no token is skipped, and without a line feed in it the line stays.
  have hnone : (∀ ls, tokensOf n (c.piece b :: ls) = tokensOf (n + b.lineFeeds) ls) →
      ∃ out : List Token, (∀ t ∈ out, t.line = n) ∧ ∀ ls,
        tokensOf n (c.piece b :: ls) = out ++ tokensOf n ls := by
    intro h
    rw [hfeeds] at h
    exact ⟨[], fun t ht => absurd ht List.not_mem_nil, h⟩
  cases c with
  | literal kind opened =>
      exact ⟨[⟨kind, opened ++ b, n⟩], List.forall_mem_singleton.mpr rfl, fun ls => rfl⟩
  | code _ => exact hnone fun ls => rfl
  | comment _ => exact hnone fun ls => rfl
  | directive => exact hnone fun ls => rfl
  | stopped => exact hnone fun ls => rfl

/-- The tokens of a line all have its number, and reading goes on in the context after it. -/
theorem tokens_append (c : Context) {s : Text} (n : Nat) (hs : IsEnded s)
    (hline : .char '\n' ∉ s.dropLast) :
    ∃ out : List Token, (∀ t ∈ out, t.line = n) ∧ ∀ r,
      c.tokens n (s ++ r) = out ++ (c.after s).tokens ((c.after s).nextLine n) r := by
  by_cases hc : c = stopped
  · rw [hc]
    exact ⟨[], fun t ht => absurd ht List.not_mem_nil, fun r => rfl⟩
  · have hresumes := c.resumes_tail
    have happend := c.tail.append s
    rw [after_of_ne hc]
    by_cases hopen : (c.tail.take s).2 = []
    · -- The whole line belongs to the piece that is being read.
      rw [hopen, List.append_nil] at happend
      refine ⟨[], fun t ht => absurd ht List.not_mem_nil, fun r => ?_⟩
      rw [if_pos hopen, List.nil_append, tokens, tokens, lexemes_of_ne hc,
        lexemes_of_ne (grow_ne_stopped hc _), hresumes.goesOn r hs hopen, happend, tail_grow,
        lineStart_grow]
      exact tokens_grow c (lineFeeds_of_isEnded hs hline) _ _
    · -- The piece ends on this line, and what follows it is read as code.
      rw [if_neg hopen]
      have hfeed : .char '\n' ∉ (c.tail.take s).1 ∧ .char '\n' ∉ (c.tail.take s).2.dropLast := by
        rw [← happend, List.dropLast_append_of_ne_nil hopen, List.mem_append, not_or] at hline
        exact hline
      rcases exists_tokensOf_piece c n hfeed.1 with ⟨first, hfirst, hpiece⟩
      rcases tokensOf_append n (Tail.isEnded_snd _ hs hopen) hfeed.2 with ⟨out, hout, hgoes⟩
      refine ⟨first ++ out, List.forall_mem_append.mpr ⟨hfirst, hout⟩, fun r => ?_⟩
      rw [tokens, lexemes_of_ne hc, hresumes.stays r hs hopen, hpiece, hgoes, List.append_assoc]

/-- The tokens of a text that is read on in this context, without their lines. -/
def readings (c : Context) (s : Text) : List (TokenKind × Text) :=
  (c.lexemes s).filterMap Lexeme.reading?

theorem map_reading_tokens (c : Context) (n : Nat) (s : Text) :
    (c.tokens n s).map Token.reading = c.readings s :=
  map_reading_tokensOf n (c.lexemes s)

/-- Lines aside, a text is read line by line too. -/
theorem readings_append (c : Context) {s : Text} (hs : IsEnded s)
    (hline : .char '\n' ∉ s.dropLast) :
    ∃ out, ∀ r, c.readings (s ++ r) = out ++ (c.after s).readings r := by
  rcases c.tokens_append 0 hs hline with ⟨out, _, h⟩
  refine ⟨out.map Token.reading, fun r => ?_⟩
  rw [← map_reading_tokens c 0, h r, List.map_append, map_reading_tokens]

theorem readings_code (lineStart : Bool) (s : Text) :
    (code lineStart).readings s = DialectBuild.readings lineStart s := by
  rw [readings, lexemes_of_ne (by simp)]
  rfl

theorem readings_comment (lineStart : Bool) (s : Text) :
    (comment lineStart).readings s = DialectBuild.readings lineStart (Tail.takeBlock s).2 := by
  rw [readings, lexemes_of_ne (by simp)]
  rfl

theorem readings_directive (s : Text) :
    directive.readings s = DialectBuild.readings true (Tail.directive.take s).2 := by
  rw [readings, lexemes_of_ne (by simp)]
  rfl

theorem after_nil (c : Context) : c.after [] = c := by
  cases c with
  | literal kind opened => exact congrArg (literal kind) (List.append_nil opened)
  | _ => rfl

/-- The context after some lines is reached line by line. -/
theorem after_flatten (c : Context) {ls : List Text} (hls : ∀ l ∈ ls, IsEnded l) :
    c.after ls.flatten = ls.foldl after c := by
  induction ls generalizing c with
  | nil => exact after_nil c
  | cons l ls ih =>
      rcases List.forall_mem_cons.mp hls with ⟨hl, hls⟩
      rw [List.flatten_cons, after_append c hl, ih (c.after l) hls, List.foldl_cons]

end Context

/-- The lines with a line end after the last of them. -/
def closeLast (ending : Text) (lines : List Text) : List Text :=
  match lines.getLast? with
  | none => lines
  | some l => lines.dropLast ++ [closed ending l]

theorem closeLast_concat (ending : Text) (ls : List Text) (l : Text) :
    closeLast ending (ls ++ [l]) = ls ++ [closed ending l] := by
  rw [closeLast, List.getLast?_concat]
  simp only [List.dropLast_concat]

theorem closed_of_isEnded {l : Text} (hl : IsEnded l) (ending : Text) : closed ending l = l :=
  if_pos (endsWith_feed_iff.mpr hl)

/-- Nothing is added to lines that are ended. -/
theorem closeLast_of_isEnded {ls : List Text} (hls : ∀ l ∈ ls, IsEnded l) (ending : Text) :
    closeLast ending ls = ls := by
  rcases List.eq_nil_or_concat ls with rfl | ⟨before, l, rfl⟩
  · rfl
  · rw [List.concat_eq_append] at hls ⊢
    have hl : IsEnded l := hls l (List.mem_append_right before (List.mem_singleton_self l))
    rw [closeLast_concat, closed_of_isEnded hl]

/-- Lines are inserted after closed ones. -/
theorem insertLines_eq (ending : Text) (lines : List Text) (n : Nat) (new : List Text) :
    insertLines ending lines n new = closeLast ending (lines.take n) ++ new ++ lines.drop n :=
  rfl

/-- The text before the line with index `n`. If that is all of a text whose last line lacks its
    line end, the line is given one. -/
def Text.upTo (t : Text) (n : Nat) : Text :=
  (closeLast (endingInUse t.codeLines) (t.codeLines.take n)).flatten

/-- The context in which the line with index `n` starts. -/
def contextAt (t : Text) (n : Nat) : Context :=
  (Context.code true).after (t.upTo n)

section Lines

variable {t l : Text} {n : Nat}

theorem Text.isEnded_of_mem_take (hn : n < t.codeLines.length) (hl : l ∈ t.codeLines.take n) :
    IsEnded l := by
  refine isEnded_of_mem_dropLast (t := t) ?_
  rw [List.dropLast_eq_take]
  exact List.take_subset_take_left _ (by omega) hl

/-- The lines before another line are all ended. -/
theorem Text.upTo_of_lt (hn : n < t.codeLines.length) :
    t.upTo n = (t.codeLines.take n).flatten := by
  rw [upTo, closeLast_of_isEnded fun l hl => isEnded_of_mem_take hn hl]

theorem contextAt_zero (t : Text) : contextAt t 0 = .code true :=
  Context.after_nil _

theorem contextAt_eq_foldl (hn : n < t.codeLines.length) :
    contextAt t n = (t.codeLines.take n).foldl Context.after (.code true) := by
  rw [contextAt, upTo_of_lt hn]
  exact Context.after_flatten _ fun l hl => isEnded_of_mem_take hn hl

/-- The context of the next line is the context after this one. -/
theorem contextAt_succ (hl : t.codeLines[n]? = some l) :
    contextAt t (n + 1) = (contextAt t n).after (closed (endingInUse t.codeLines) l) := by
  have hn : n < t.codeLines.length := (List.getElem?_eq_some_iff.mp hl).1
  have hended : ∀ k ∈ t.codeLines.take n ++ [closed (endingInUse t.codeLines) l], IsEnded k := by
    refine List.forall_mem_append.mpr ⟨fun k hk => isEnded_of_mem_take hn hk, ?_⟩
    exact List.forall_mem_singleton.mpr (isEnded_closed (isEnding_endingInUse _) l)
  rw [contextAt, upTo, List.take_add_one, hl, Option.toList_some, closeLast_concat,
    Context.after_flatten _ hended, List.foldl_append, contextAt_eq_foldl hn]
  rfl

end Lines

end DialectBuild
