import DialectBuild.Proofs.LineNumbers

/-!
# The Leading Block

The leading block of a unit is found by looking at its lines one by one, without reading them
as C text. This module compares the two. The look at a line is right about blank lines, line
comments and the start of a comment. It can be wrong where a comment ends, since more may
follow on the line, and where a line ends in a backslash, since a blank or another backslash
next to it undoes its effect. If it is right at these lines too, then each line of the block
starts in the context that the look at the lines before it says.

## Main definitions

* `Position.Leads`: What the look at one line says about the next.
* `Position.Mode.context`: The context that it stands for.
* `Position.ReadsAsItLooks`: A leading block whose looks do not mislead.

## Theorems

* `Position.leadingEndFrom_cons`: One line of the leading block.
* `Position.context_of_leads`: The look at one line is right.
* `Position.contextAt_leadingEnd`: The leading block ends between two pieces.
-/

namespace DialectBuild

open Text

namespace Context

variable {lineStart : Bool} {s b : Text}

theorem afterCode_nil (lineStart : Bool) : afterCode lineStart [] = code lineStart := by
  have hnone : Lexeme.next? lineStart [] = none := by cases lineStart <;> rfl
  rw [afterCode]
  split
  next => exact if_pos rfl
  next l rest hsome =>
    rw [hnone] at hsome
    cases hsome

theorem afterCode_feed (lineStart : Bool) : afterCode lineStart [.char '\n'] = code true := by
  rw [afterCode_of_reads (.newline []), if_pos rfl]
  rfl

/-- A blank inside a line changes nothing. -/
theorem afterCode_blank_cons {x : Symbol} (hx : Lexeme.isInnerBlank x = true) (s : Text) :
    afterCode lineStart (x :: s) = afterCode lineStart s := by
  -- A run of blanks is one piece: after a blank, the blanks that follow are dropped with it.
  have hread : ∀ {y}, Lexeme.isInnerBlank y = true → ∀ s : Text, afterCode lineStart (y :: s) =
      afterCode lineStart (s.dropWhile Lexeme.isInnerBlank) := by
    intro y hy s
    rw [afterCode_of_reads (.blank hy rfl)]
    by_cases hrest : s.dropWhile Lexeme.isInnerBlank = []
    · rw [if_pos hrest, hrest, afterCode_nil]
      rfl
    · rw [if_neg hrest]
      rfl
  rw [hread hx]
  rcases s with _ | ⟨y, s⟩
  · rfl
  · by_cases hy : Lexeme.isInnerBlank y = true
    · rw [hread hy, List.dropWhile_cons_of_pos hy]
    · rw [List.dropWhile_cons_of_neg hy]

/-- White space inside a line changes nothing, unless reading ends at it. -/
theorem afterCode_blanks (hb : ∀ x ∈ b, x.isBlank = true) (hfeed : .char '\n' ∉ b) (s : Text) :
    afterCode lineStart (b ++ s) = stopped ∨
      afterCode lineStart (b ++ s) = afterCode lineStart s := by
  induction b with
  | nil => exact Or.inr rfl
  | cons x b ih =>
      rcases List.forall_mem_cons.mp hb with ⟨hx, hb⟩
      rw [List.mem_cons, not_or] at hfeed
      rw [List.cons_append]
      by_cases hinner : Lexeme.isInnerBlank x = true
      · rw [afterCode_blank_cons hinner]
        exact ih hb hfeed.2
      · refine Or.inl (afterCode_of_none ?_ (List.cons_ne_nil _ _))
        exact Lexeme.next?_eq_none_iff.mpr ⟨hx, Bool.eq_false_iff.mpr hinner, Ne.symm hfeed.1⟩

/-- A line of code that starts like a line comment is one. -/
theorem afterCode_lineComment (hs : IsEnded s) (hline : .char '\n' ∉ s.dropLast) :
    afterCode lineStart ("//" ++ s) = code true := by
  rcases List.getLast?_eq_some_iff.mp hs with ⟨w, rfl⟩
  rw [List.dropLast_concat] at hline
  have hread : Lexeme.Reads lineStart (("//" : Text) ++ (w ++ [.char '\n'])) _ [.char '\n'] :=
    .lineComment (Tail.run_line hline (Or.inr rfl))
  rw [afterCode_of_reads hread, if_neg (List.cons_ne_nil _ _), afterCode_feed]

/-- A comment that does not end on its line goes on after it. -/
theorem afterCode_blockComment (hs : hasPart "*/" s = false) :
    afterCode lineStart ("/*" ++ s) = comment lineStart := by
  have hread : Lexeme.Reads lineStart (("/*" : Text) ++ s) _ [] :=
    .blockComment (Tail.takeBlock_of_open hs)
  rw [afterCode_of_reads hread, if_pos rfl]
  rfl

end Context

/-- What is left of a preprocessor line ends at the line feed or goes on after it. -/
theorem Tail.directive_snd {s : Text} (hs : IsEnded s) (hline : .char '\n' ∉ s.dropLast) :
    (Tail.directive.take s).2 = [] ∨ (Tail.directive.take s).2 = [.char '\n'] := by
  have hdrop : ∀ {x : Symbol} {r : Text}, r ≠ [] → .char '\n' ∉ (x :: r).dropLast →
      x ≠ '\n' ∧ .char '\n' ∉ r.dropLast := by
    intro x r hr h
    rw [List.dropLast_cons_of_ne_nil hr, List.mem_cons, not_or] at h
    exact ⟨Ne.symm h.1, h.2⟩
  rw [Tail.directive]
  dsimp only
  -- The only line feed is the last symbol, and it is taken exactly if a backslash is before it.
  fun_induction takeEscaped (fun _ => false) s with
  | case1 => exact absurd hs not_isEnded_nil
  | case2 x r ih =>
      by_cases hr : r = []
      · rw [hr]
        exact Or.inl rfl
      · have hfeed := (hdrop hr (hdrop (List.cons_ne_nil x r) hline).2).2
        exact ih (isEnded_of_cons (isEnded_of_cons hs (List.cons_ne_nil x r)) hr) hfeed
  | case3 x r hnot hx =>
      by_cases hr : r = []
      · rw [hr] at hs ⊢
        rw [show x = .char '\n' from Option.some.inj hs]
        exact Or.inr rfl
      · rcases List.exists_cons_of_ne_nil hr with ⟨y, r', rfl⟩
        rcases hx with rfl | rfl | hx
        · exact absurd rfl (hnot y r' rfl)
        · exact absurd rfl (hdrop hr hline).1
        · cases hx
  | case4 x r hnot hx ih =>
      by_cases hr : r = []
      · rw [hr] at hs
        rw [not_or, not_or] at hx
        exact absurd (Option.some.inj hs) hx.2.1
      · exact ih (isEnded_of_cons hs hr) (hdrop hr hline).2

namespace Context

variable {s : Text}

theorem after_directive (hs : IsEnded s) (hline : .char '\n' ∉ s.dropLast) :
    directive.after s = directive ∨ directive.after s = code true := by
  rw [after_of_ne (by simp)]
  rcases Tail.directive_snd hs hline with hrest | hrest
  · exact Or.inl (if_pos hrest)
  · refine Or.inr ((if_neg ?_).trans ?_)
    · exact fun h => absurd (hrest.symm.trans h) (List.cons_ne_nil _ _)
    · exact (congrArg (afterCode true) hrest).trans (afterCode_feed true)

/-- A preprocessor line is read like one that goes on. -/
theorem afterCode_hash (s : Text) : afterCode true (.char '#' :: s) = directive.after s := by
  have hread : Lexeme.Reads true (.char '#' :: s)
      ⟨.directive, .char '#' :: (Tail.directive.take s).1⟩ (Tail.directive.take s).2 :=
    .directive rfl rfl
  rw [afterCode_of_reads hread, after_of_ne (by simp)]
  rfl

theorem after_code (lineStart : Bool) (s : Text) :
    (code lineStart).after s = afterCode lineStart s := by
  rw [after_of_ne (by simp)]
  by_cases hs : s = []
  · rw [hs, afterCode_nil]
    rfl
  · exact if_neg hs

end Context

namespace Position

/-- A line is what it is without the white space around it, and white space. -/
theorem exists_stripped (line : Text) :
    ∃ b e, line = b ++ (stripped line ++ e) ∧ (∀ x ∈ b, x.isBlank = true) ∧
      ∀ x ∈ e, x.isBlank = true := by
  refine ⟨line.takeWhile Symbol.isBlank,
    ((line.dropWhile Symbol.isBlank).reverse.takeWhile Symbol.isBlank).reverse, ?_,
    List.all_eq_true.mp List.all_takeWhile, fun x hx => ?_⟩
  · rw [stripped, trim, trimEnd, ← List.reverse_append, List.takeWhile_append_dropWhile,
      List.reverse_reverse, List.takeWhile_append_dropWhile]
  · exact List.all_eq_true.mp List.all_takeWhile x (List.mem_reverse.mp hx)

theorem isBlank_of_isLineEnd {x : Symbol} (hx : x.isLineEnd = true) : x.isBlank = true := by
  rw [Symbol.isLineEnd, Bool.or_eq_true, decide_eq_true_eq, decide_eq_true_eq] at hx
  rcases hx with rfl | rfl <;> decide

/-- White space around a text ends no comment. -/
theorem hasPart_blanks {b e : Text} (hb : ∀ x ∈ b, x.isBlank = true)
    (he : ∀ x ∈ e, x.isBlank = true) (s : Text) :
    hasPart "*/" (b ++ (s ++ e)) = hasPart "*/" s := by
  have hstar : ∀ {w : Text}, (∀ x ∈ w, x.isBlank = true) → .char '*' ∉ w :=
    fun hw h => absurd (hw _ h) (by decide)
  have hhead : e.head? ≠ some (.char '/') :=
    fun h => absurd (he _ (List.mem_of_head? h)) (by decide)
  rw [hasPart_append_of_noStar (hstar hb), hasPart_append hhead, hasPart_of_noStar (hstar he),
    Bool.or_false]

theorem stripped_append_blanks {e : Text} (he : ∀ x ∈ e, x.isBlank = true) (line : Text) :
    stripped (line ++ e) = stripped line := by
  rw [stripped, trim, List.dropWhile_append, stripped, trim]
  split
  next hempty =>
    rw [List.isEmpty_iff.mp hempty, List.dropWhile_eq_nil_iff.mpr he]
  next => exact trimEnd_append_of_all _ he

/-- A line end changes nothing about a line without the white space around it. -/
theorem stripped_closed {ending : Text} (he : IsEnding ending) (line : Text) :
    stripped (closed ending line) = stripped line := by
  rcases closed_cases ending line with ⟨_, heq⟩ | ⟨_, heq⟩
  · rw [heq]
  · rw [heq]
    exact stripped_append_blanks (fun x hx => isBlank_of_isLineEnd (he.isLineEnd x hx)) line

/-- A backslash at the end of a line stays when white space is taken away. -/
theorem endsWith_stripped_backslash (w : Text) :
    (stripped (w ++ [.char '\\'])).endsWith "\\" = true := by
  have hlast : ∀ v : Text, (trimEnd Symbol.isBlank (v ++ [.char '\\'])).endsWith "\\" = true := by
    intro v
    rw [trimEnd_of_last]
    · exact List.isSuffixOf_iff_suffix.mpr (List.suffix_append v _)
    · intro x hx
      rw [List.getLast?_concat, Option.mem_some_iff] at hx
      rw [← hx]
      decide
  rw [stripped, trim, List.dropWhile_append]
  split
  next => exact hlast []
  next => exact hlast _

/-- What the look at a line says about the next one, and whether the line is a preprocessor
    line. -/
inductive Leads (line : Text) : Mode → Mode → Bool → Prop where
  | continued : Leads line .continued (modeAfter (stripped line)) true
  | inside (h : hasPart "*/" (stripped line) = false) : Leads line .comment .comment false
  | closes (h : hasPart "*/" (stripped line) = true) : Leads line .comment .plain false
  | blank (h : stripped line = []) : Leads line .plain .plain false
  | lineComment (h : (stripped line).startsWith "//" = true) : Leads line .plain .plain false
  | opens (h : (stripped line).startsWith "/*" = true)
      (hopen : hasPart "*/" ((stripped line).drop 2) = false) : Leads line .plain .comment false
  | whole (h : (stripped line).startsWith "/*" = true)
      (hclosed : hasPart "*/" ((stripped line).drop 2) = true) : Leads line .plain .plain false
  | preprocessor (h : isPreprocessor line = true) :
      Leads line .plain (modeAfter (stripped line)) true

/-- The leading block goes on with a line, or it ends before it. -/
theorem leadingEndFrom_cons (index : Nat) (mode : Mode) (after : Nat) (line : Text)
    (rest : List Text) :
    (∃ mode' isPre, Leads line mode mode' isPre ∧
      leadingEndFrom index mode after (line :: rest) =
        leadingEndFrom (index + 1) mode' (if isPre then index + 1 else after) rest) ∨
    (mode = .plain ∧ leadingEndFrom index mode after (line :: rest) = settle after index) := by
  -- A branch for each way in which a line belongs to the block; in the other two the block ends.
  cases mode with
  | continued => exact Or.inl ⟨_, true, .continued, rfl⟩
  | comment =>
      rcases hpart : hasPart "*/" (stripped line) with _ | _
      · refine Or.inl ⟨_, false, .inside hpart, ?_⟩
        simp [leadingEndFrom, hpart]
      · refine Or.inl ⟨_, false, .closes hpart, ?_⟩
        simp [leadingEndFrom, hpart]
  | plain =>
      rw [leadingEndFrom]
      split
      next h =>
        rw [Bool.or_eq_true, List.isEmpty_iff] at h
        rcases h with h | h
        · exact Or.inl ⟨_, false, .blank h, rfl⟩
        · exact Or.inl ⟨_, false, .lineComment h, rfl⟩
      next =>
        split
        next hopen =>
          split
          next hpart =>
            rw [Bool.not_eq_true'] at hpart
            exact Or.inl ⟨_, false, .opens hopen hpart, rfl⟩
          next hpart =>
            rw [Bool.not_eq_true', Bool.not_eq_false] at hpart
            split
            next => exact Or.inl ⟨_, false, .whole hopen hpart, rfl⟩
            next => exact Or.inr ⟨rfl, rfl⟩
        next =>
          split
          next hpre => exact Or.inl ⟨_, true, .preprocessor hpre, rfl⟩
          next => exact Or.inr ⟨rfl, rfl⟩

/-- The context that a line starts in, by the look at the lines before it. -/
def Mode.context : Mode → Context
  | plain => .code true
  | comment => .comment true
  | continued => .directive

/-- Whether a line that starts in the context `c` seems to end a comment. -/
def endsComment (c : Context) (line : Text) : Bool :=
  if c.isComment then hasPart "*/" (stripped line)
  else (stripped line).startsWith "/*" && hasPart "*/" ((stripped line).drop 2)

/-- Whether a line that starts in the context `c` seems to be a preprocessor line that goes on. -/
def seemsCarried (c : Context) (line : Text) : Bool :=
  (c = .directive || isPreprocessor line) && (stripped line).endsWith "\\"

section Line

variable {t line : Text} {i : Nat}

theorem isEnded_closed_line (t line : Text) : IsEnded (closed (endingInUse t.codeLines) line) :=
  isEnded_closed (isEnding_endingInUse _) line

theorem noFeed_closed_line (hl : t.codeLines[i]? = some line) :
    .char '\n' ∉ (closed (endingInUse t.codeLines) line).dropLast :=
  noFeed_dropLast_of_codeLines
    (codeLines_closed (isEnding_endingInUse _) (codeLines_of_mem (List.mem_of_getElem? hl)))

/-- A line that is carried over has its backslash at the end, white space aside. -/
theorem endsWith_stripped_of_isCarried (hl : t.codeLines[i]? = some line)
    (h : (contextAt t (i + 1)).isCarried = true) : (stripped line).endsWith "\\" = true := by
  rw [contextAt_succ hl] at h
  rcases Context.endsWith_of_isCarried (isEnded_closed_line t line) h with ⟨w, hw⟩
  have hclosed := stripped_closed (isEnding_endingInUse t.codeLines) line
  have hsplit : w ++ ("\\\n" : Text) = w ++ [.char '\\'] ++ [.char '\n'] := by
    rw [List.append_assoc]
    rfl
  rw [hw, hsplit, stripped_append_blanks (by decide)] at hclosed
  rw [← hclosed]
  exact endsWith_stripped_backslash w

theorem noFeed_front {w r : Text} (hr : r ≠ []) (hline : .char '\n' ∉ (w ++ r).dropLast) :
    .char '\n' ∉ w := by
  rw [List.dropLast_append_of_ne_nil hr, List.mem_append, not_or] at hline
  exact hline.1

theorem ended_rest {w r : Text} (h : IsEnded (w ++ r)) (hline : .char '\n' ∉ (w ++ r).dropLast)
    (hw : .char '\n' ∉ w) : IsEnded r ∧ .char '\n' ∉ r.dropLast := by
  have hr := isEnded_of_append hw h
  rw [List.dropLast_append_of_ne_nil (fun hnil => not_isEnded_nil (hnil ▸ hr)), List.mem_append,
    not_or] at hline
  exact ⟨hr, hline.2⟩

/-- A preprocessor line has nothing but white space before its `#`. -/
theorem exists_hash (h : isPreprocessor line = true) (ending : Text) :
    ∃ w v : Text, (∀ x ∈ w, x.isBlank = true) ∧ closed ending line = w ++ .char '#' :: v := by
  rcases exists_skipBlanks line with ⟨w, hw, hline⟩
  rw [isPreprocessor, beq_iff_eq] at h
  rcases List.head?_eq_some_iff.mp h with ⟨v, hv⟩
  rw [hv] at hline
  have hblank : ∀ x ∈ w, x.isBlank = true := by
    intro x hx
    rcases Directive.isSpaceOrTab_iff.mp (hw x hx) with rfl | rfl <;> decide
  rcases closed_cases ending line with ⟨_, heq⟩ | ⟨_, heq⟩
  · exact ⟨w, v, hblank, heq.trans hline⟩
  · exact ⟨w, v ++ ending, hblank, by rw [heq, hline, List.append_assoc, List.cons_append]⟩

theorem context_modeAfter (hl : t.codeLines[i]? = some line)
    (h : contextAt t (i + 1) = .directive ∨ contextAt t (i + 1) = .code true)
    (hcarried : (stripped line).endsWith "\\" = true → contextAt t (i + 1) = .directive) :
    contextAt t (i + 1) = (modeAfter (stripped line)).context := by
  by_cases hends : (stripped line).endsWith "\\" = true
  · rw [modeAfter, if_pos hends]
    exact hcarried hends
  · rw [modeAfter, if_neg hends]
    refine h.resolve_left fun hdirective => hends ?_
    refine endsWith_stripped_of_isCarried hl ?_
    rw [hdirective]
    rfl

/-- The look at a line of the leading block is right about the context of the next one. -/
theorem context_of_leads {mode mode' : Mode} {isPre : Bool} (hl : t.codeLines[i]? = some line)
    (h : Leads line mode mode' isPre) (hc : contextAt t i = mode.context)
    (hreads : contextAt t (i + 1) ≠ .stopped)
    (hcomment : endsComment (contextAt t i) line = true → contextAt t (i + 1) = .code true)
    (hcarried : seemsCarried (contextAt t i) line = true → contextAt t (i + 1) = .directive) :
    contextAt t (i + 1) = mode'.context := by
  have hk := isEnded_closed_line t line
  have hkline := noFeed_closed_line hl
  have hsucc := contextAt_succ hl
  rcases exists_stripped (closed (endingInUse t.codeLines) line) with ⟨b, e, hshape, hb, he⟩
  rw [stripped_closed (isEnding_endingInUse t.codeLines)] at hshape
  rw [hc] at hsucc hcomment hcarried
  -- White space at the start of a line of code does not matter, as reading does not end there.
  have hcode : ∀ {w r : Text}, contextAt t (i + 1) =
        (Context.code true).after (closed (endingInUse t.codeLines) line) →
      (∀ x ∈ w, x.isBlank = true) → closed (endingInUse t.codeLines) line = w ++ r →
      .char '\n' ∉ w → contextAt t (i + 1) = Context.afterCode true r := by
    intro w r hafter hw hshape hfeed
    rw [hafter, Context.after_code, hshape] at hreads ⊢
    exact (Context.afterCode_blanks hw hfeed r).resolve_left hreads
  cases h with
  | continued =>
      refine context_modeAfter hl ?_ fun hends => hcarried ?_
      · rw [hsucc]
        exact Context.after_directive hk hkline
      · rw [seemsCarried, hends]
        rfl
  | inside hpart =>
      rw [hsucc]
      refine Context.after_comment ?_
      rw [hshape, hasPart_blanks hb he, hpart]
  | closes hpart => exact hcomment hpart
  | blank hempty =>
      -- All of the line is white space, and the line feed is the last symbol of it.
      have hall : ∀ x ∈ closed (endingInUse t.codeLines) line, x.isBlank = true := by
        rw [hshape, hempty, List.nil_append]
        exact List.forall_mem_append.mpr ⟨hb, he⟩
      rcases List.getLast?_eq_some_iff.mp hk with ⟨w, hw⟩
      rw [hw] at hall hkline
      rw [List.dropLast_concat] at hkline
      have hafter := hcode hsucc (fun x hx => hall x (List.mem_append_left _ hx)) hw hkline
      rw [hafter]
      exact Context.afterCode_feed true
  | lineComment hstart =>
      rcases List.isPrefixOf_iff_prefix.mp hstart with ⟨v, hv⟩
      rw [← hv, List.append_assoc] at hshape
      rw [hshape] at hk hkline
      have hfront := noFeed_front (List.cons_ne_nil _ _) hkline
      rw [hcode hsucc hb hshape hfront]
      have hrest := ended_rest hk hkline hfront
      have hrest' := ended_rest hrest.1 hrest.2 (by decide)
      exact Context.afterCode_lineComment hrest'.1 hrest'.2
  | opens hstart hopen =>
      rcases List.isPrefixOf_iff_prefix.mp hstart with ⟨v, hv⟩
      rw [← hv] at hopen
      rw [← hv, List.append_assoc] at hshape
      rw [hshape] at hkline
      rw [hcode hsucc hb hshape (noFeed_front (List.cons_ne_nil _ _) hkline)]
      refine Context.afterCode_blockComment ?_
      have hpart := hasPart_blanks (b := []) (fun x hx => absurd hx List.not_mem_nil) he v
      rw [List.nil_append] at hpart
      exact hpart.trans hopen
  | whole hstart hclosed =>
      refine hcomment ?_
      rw [endsComment]
      simp [Mode.context, Context.isComment, hstart, hclosed]
  | preprocessor hpre =>
      refine context_modeAfter hl ?_ fun hends => hcarried ?_
      · rcases exists_hash hpre (endingInUse t.codeLines) with ⟨w, v, hw, hhash⟩
        rw [hhash] at hk hkline
        have hfront := noFeed_front (List.cons_ne_nil _ _) hkline
        have hrest := ended_rest hk hkline hfront
        have hrest' := ended_rest (w := "#") hrest.1 hrest.2 (by decide)
        rw [hcode hsucc hw hhash hfront, Context.afterCode_hash]
        exact Context.after_directive hrest'.1 hrest'.2
      · rw [seemsCarried, hends, hpre, Bool.or_true]
        rfl

end Line

/-- The looks of the leading block do not mislead. -/
structure ReadsAsItLooks (t : Text) : Prop where
  /-- Reading does not end in the block. -/
  reads : contextAt t (leadingEnd t.codeLines) ≠ .stopped
  /-- Where a comment seems to end, it does, and nothing is open at the end of the line. -/
  comments : ∀ i < leadingEnd t.codeLines, ∀ line ∈ t.codeLines[i]?,
    endsComment (contextAt t i) line = true → contextAt t (i + 1) = .code true
  /-- Where a preprocessor line seems to go on, it does. -/
  directives : ∀ i < leadingEnd t.codeLines, ∀ line ∈ t.codeLines[i]?,
    seemsCarried (contextAt t i) line = true → contextAt t (i + 1) = .directive
  /-- If the block is the whole text, nothing is open at its end. -/
  ends : leadingEnd t.codeLines = t.codeLines.length →
    contextAt t t.codeLines.length ≠ .directive ∧
      (contextAt t t.codeLines.length).isComment = false

theorem le_leadingEndFrom {index after : Nat} (mode : Mode) (lines : List Text)
    (h : after ≤ index) : after ≤ leadingEndFrom index mode after lines ∧
      leadingEndFrom index mode after lines ≤ index + lines.length := by
  induction lines generalizing index mode after with
  | nil =>
      rw [leadingEndFrom, settle, List.length_nil]
      split <;> omega
  | cons line lines ih =>
      rw [List.length_cons]
      rcases leadingEndFrom_cons index mode after line lines with
        ⟨mode', isPre, _, heq⟩ | ⟨_, heq⟩
      · have hle : (if isPre then index + 1 else after) ≤ index + 1 := by
          split <;> omega
        have hrest := ih mode' hle
        rw [heq]
        cases isPre with
        | true =>
            simp only [if_true] at hrest ⊢
            omega
        | false =>
            simp only [Bool.false_eq_true, if_false] at hrest ⊢
            omega
      · rw [heq, settle]
        split <;> omega

theorem leadingEnd_le (lines : List Text) : leadingEnd lines ≤ lines.length := by
  have h := (le_leadingEndFrom .plain lines (Nat.le_refl 0)).2
  rw [leadingEnd]
  omega

/-- What is known when the look has come to the line with the given index: the context of that
    line, and that the block can end cleanly after the last preprocessor line. Both are known
    only as far as the block goes. -/
structure Tracks (t : Text) (index : Nat) (mode : Mode) (after : Nat) : Prop where
  le : after ≤ index
  context : index ≤ leadingEnd t.codeLines → contextAt t index = mode.context
  clean : after ≠ 0 → after < index → contextAt t after = .code true
  fresh : after ≠ 0 → after = index → mode ≠ .comment

section Block

variable {t line : Text} {index after : Nat} {mode mode' : Mode} {isPre : Bool}

/-- One more line of the block keeps what is known. -/
theorem Tracks.step (h : Tracks t index mode after) (ht : ReadsAsItLooks t)
    (hl : t.codeLines[index]? = some line) (hleads : Leads line mode mode' isPre)
    (hafter : after ≤ leadingEnd t.codeLines) :
    Tracks t (index + 1) mode' (if isPre then index + 1 else after) := by
  have hcontext : index + 1 ≤ leadingEnd t.codeLines → contextAt t (index + 1) = mode'.context := by
    intro hle
    exact context_of_leads hl hleads (h.context (by omega))
      (contextAt_ne_stopped ht.reads hle (leadingEnd_le _)) (ht.comments index (by omega) line hl)
      (ht.directives index (by omega) line hl)
  cases isPre with
  | true =>
      refine ⟨Nat.le_refl _, hcontext, fun _ hlt => absurd hlt (Nat.lt_irrefl _), fun _ _ => ?_⟩
      cases hleads with
      | continued => rw [modeAfter]; split <;> simp
      | preprocessor _ => rw [modeAfter]; split <;> simp
  | false =>
      simp only [Bool.false_eq_true, if_false]
      refine ⟨Nat.le_succ_of_le h.le, hcontext, fun hne hlt => ?_, fun _ heq => ?_⟩
      · rcases Nat.lt_or_eq_of_le h.le with hlt' | heq
        · exact h.clean hne hlt'
        · -- The line before was a preprocessor line that does not go on.
          have hmode := h.context (heq ▸ hafter)
          have hfresh := h.fresh hne heq
          rw [heq, hmode]
          cases hleads with
          | inside => exact absurd rfl hfresh
          | closes => exact absurd rfl hfresh
          | _ => rfl
      · have hle := h.le
        omega

/-- The block ends cleanly at a line that stands for itself, and at the end of the text. -/
theorem Tracks.settle (h : Tracks t index mode after) (ht : ReadsAsItLooks t)
    (hend : leadingEnd t.codeLines = settle after index)
    (hmode : mode = .plain ∨ index = t.codeLines.length) :
    contextAt t (leadingEnd t.codeLines) = .code true := by
  -- If the block ends where the lines do that were looked at, nothing can be open there.
  have hopen : leadingEnd t.codeLines = index → contextAt t index = .code true := by
    intro heq
    have hcontext := h.context (Nat.le_of_eq heq.symm)
    rcases hmode with rfl | hlast
    · exact hcontext
    · have hends := ht.ends (heq.trans hlast)
      rw [← hlast, hcontext] at hends
      rw [hcontext]
      cases mode with
      | plain => rfl
      | comment => exact absurd hends.2 (by decide)
      | continued => exact absurd rfl hends.1
  rw [Position.settle] at hend
  by_cases hzero : after = 0
  · rw [if_pos hzero] at hend
    rw [hend]
    exact hopen hend
  · rw [if_neg hzero] at hend
    rcases Nat.lt_or_eq_of_le h.le with hlt | heq
    · rw [hend]
      exact h.clean hzero hlt
    · rw [heq] at hend
      rw [hend]
      exact hopen hend

theorem contextAt_of_tracks {lines : List Text} (ht : ReadsAsItLooks t)
    (h : Tracks t index mode after) (hlines : t.codeLines.drop index = lines)
    (hindex : index ≤ t.codeLines.length)
    (hend : leadingEndFrom index mode after lines = leadingEnd t.codeLines) :
    contextAt t (leadingEnd t.codeLines) = .code true := by
  induction lines generalizing index mode after with
  | nil =>
      have hlast := List.drop_eq_nil_iff.mp hlines
      exact h.settle ht hend.symm (Or.inr (by omega))
  | cons line lines ih =>
      have hl : t.codeLines[index]? = some line := by
        rw [← List.head?_drop, hlines]
        rfl
      have hlt := (List.getElem?_eq_some_iff.mp hl).1
      have hafter : after ≤ leadingEnd t.codeLines :=
        hend ▸ (le_leadingEndFrom mode (line :: lines) h.le).1
      -- A line of the block goes on tracking; the first line after it settles the place.
      rcases leadingEndFrom_cons index mode after line lines with
        ⟨mode', isPre, hleads, heq⟩ | ⟨hplain, heq⟩
      · refine ih (h.step ht hl hleads hafter) ?_ hlt (heq ▸ hend)
        rw [← List.tail_drop, hlines]
        rfl
      · exact h.settle ht (hend.symm.trans heq) (Or.inl hplain)

/-- The leading block ends between two pieces. -/
theorem contextAt_leadingEnd (ht : ReadsAsItLooks t) :
    contextAt t (leadingEnd t.codeLines) = .code true := by
  have hstart : Tracks t 0 .plain 0 :=
    ⟨Nat.le_refl 0, fun _ => contextAt_zero t, fun h => absurd rfl h, fun h => absurd rfl h⟩
  exact contextAt_of_tracks ht hstart rfl (Nat.zero_le _) rfl

end Block

end Position

end DialectBuild
