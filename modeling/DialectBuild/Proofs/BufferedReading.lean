import DialectBuild.Directive.Reading
import DialectBuild.Proofs.LineCutting
import DialectBuild.Proofs.Scanning

/-!
# Reading Does Not Depend on the Buffer

A text that is read through a buffer falls into the same lines whatever the size of the
buffer. The chunks of a line are its symbols in order, and what decides where a line ends is
the text alone.

Everything rests on `chunk_cases`, which says how a chunk can end: the buffer is full or the
text is over, a line feed was read, or a carriage return was. The last case is the delicate
one. If a line feed follows, then the buffer was full, for otherwise the chunk would have
taken it along; this is why looking for a lone line feed after a full buffer is enough, and
why no other chunk has to wait for one.

`line_cases` turns this into what one line of chunks amounts to, by induction on the text:
a chunk that was cut short lengthens the line of the rest. `map_flatten_lines` then only has
to go from line to line.

## Main definitions

* `Directive.IsSpelled`: How a directive is written.

## Theorems

* `Reading.chunk_cases`: How a chunk ends.
* `Reading.line_cases`: The chunks of one line are the first line of the text.
* `Reading.map_flatten_lines`: The lines that are read are the lines of the text.
* `isDirective_iff`: A line is a directive if it is spelled as one.
* `stripped_ofText_any_buffer`: What is read, kept and removed for every buffer.
-/

namespace DialectBuild

namespace Reading

open Text

/-- How a chunk ends: with the buffer or the text, with a line feed, with both symbols of a
    line end, or with a carriage return. In the last case a line feed can only follow if the
    buffer is full. -/
theorem chunk_cases (n : Nat) (s : Text) :
    (NoLineEnd (chunk n s).1 ∧ (n ≤ (chunk n s).1.length ∨ (chunk n s).2 = [])) ∨
    ∃ body, NoLineEnd body ∧
      ((chunk n s).1 = body ++ [.char '\n'] ∨
        (chunk n s).1 = body ++ [.char '\r', .char '\n'] ∨
        (chunk n s).1 = body ++ [.char '\r'] ∧
          ((chunk n s).2.head? = some (.char '\n') → n ≤ (chunk n s).1.length)) := by
  fun_induction chunk n s with
  | case1 s => exact Or.inl ⟨noLineEnd_nil, Or.inl (Nat.le_refl 0)⟩
  | case2 n => exact Or.inl ⟨noLineEnd_nil, Or.inr rfl⟩
  | case3 n r => exact Or.inr ⟨[], noLineEnd_nil, Or.inl rfl⟩
  | case4 n r hr _ =>
      -- There is room for the line feed after the carriage return.
      refine Or.inr ⟨[], noLineEnd_nil, Or.inr (Or.inl ?_)⟩
      rcases List.head?_eq_some_iff.mp hr.2 with ⟨t, ht⟩
      rw [ht, List.take_succ_cons, List.take_zero, List.nil_append]
  | case5 n r hr _ =>
      refine Or.inr ⟨[], noLineEnd_nil, Or.inr (Or.inr ⟨rfl, ?_⟩)⟩
      intro hfeed
      rcases Nat.eq_zero_or_pos n with hn | hn
      · rw [hn]
        exact Nat.le_refl 1
      · exact absurd ⟨hn, hfeed⟩ hr
  | case6 n x r hfeed hreturn ih =>
      have hx : x.isLineEnd = false := by
        rw [Symbol.isLineEnd, decide_eq_false hreturn, decide_eq_false hfeed, Bool.or_self]
      simp only [List.length_cons]
      rcases ih with ⟨hbody, hend⟩ | ⟨body, hbody, hend⟩
      · exact Or.inl ⟨noLineEnd_cons.mpr ⟨hx, hbody⟩, hend.imp_left Nat.succ_le_succ⟩
      · refine Or.inr ⟨x :: body, noLineEnd_cons.mpr ⟨hx, hbody⟩, ?_⟩
        rcases hend with h | h | ⟨h, hfull⟩
        · exact Or.inl (by rw [h, List.cons_append])
        · exact Or.inr (Or.inl (by rw [h, List.cons_append]))
        · exact Or.inr (Or.inr ⟨by rw [h, List.cons_append], fun hf => Nat.succ_le_succ (hfull hf)⟩)

theorem chunks_nil (n : BufferSize) : chunks n [] = [] := by
  rw [chunks, dif_pos rfl]

theorem chunks_of_ne_nil (n : BufferSize) {s : Text} (hs : s ≠ []) :
    chunks n s = (chunk n.size s).1 :: chunks n (chunk n.size s).2 := by
  rw [chunks, dif_neg hs]

theorem chunk_feed (n : BufferSize) (r : Text) :
    chunk n.size (.char '\n' :: r) = ([.char '\n'], r) := by
  rcases Nat.exists_eq_succ_of_ne_zero (Nat.ne_of_gt n.pos) with ⟨m, hm⟩
  rw [hm, chunk, if_pos rfl]

theorem isCut_of_noLineEnd {n : BufferSize} {c : Text} (hc : NoLineEnd c)
    (hlen : n.size ≤ c.length) : isCut n c = true := by
  rw [isCut, decide_eq_true hlen, Bool.true_and, Bool.not_eq_true']
  rcases h : c.getLast? with _ | x
  · rfl
  · exact hc x (List.mem_of_getLast? h)

theorem isCut_append_lineEnd (n : BufferSize) (body : Text) {x : Symbol}
    (hx : x.isLineEnd = true) : isCut n (body ++ [x]) = false := by
  rw [isCut, List.getLast?_concat, Option.any_some, hx, Bool.not_true, Bool.and_false]

/-- The next chunk is a lone line feed exactly if a line feed comes next. -/
theorem chunk_eq_feed_iff (n : BufferSize) (r : Text) :
    (chunk n.size r).1 = [.char '\n'] ↔ r.head? = some (.char '\n') := by
  constructor
  · intro h
    rw [← chunk_append n.size r, h]
    rfl
  · intro h
    rcases List.head?_eq_some_iff.mp h with ⟨t, ht⟩
    rw [ht, chunk_feed]

/-- A chunk that ends its line is the whole line, and the next chunk starts another one. -/
theorem line_of_ended (n : BufferSize) {c r : Text} (hcut : isCut n c = false)
    (hfeed : endsAtReturn n c = true → r.head? ≠ some (.char '\n')) :
    line n c (chunks n r) = ([c], chunks n r) := by
  by_cases hr : r = []
  · rw [hr, chunks_nil, line]
  · rw [chunks_of_ne_nil n hr, line, if_neg (by rw [hcut]; exact Bool.false_ne_true)]
    rw [if_neg]
    intro h
    rw [Bool.and_eq_true, beq_iff_eq] at h
    exact hfeed h.1 ((chunk_eq_feed_iff n r).mp h.2)

/-- A chunk that ends with a line feed is a whole line. -/
theorem line_of_feed (n : BufferSize) (b r : Text) :
    line n (b ++ [.char '\n']) (chunks n r) = ([b ++ [.char '\n']], chunks n r) := by
  refine line_of_ended n (isCut_append_lineEnd n b rfl) (fun h => ?_)
  rw [endsAtReturn, List.getLast?_concat] at h
  exact absurd h (by simp)

/-- The chunks that are put together as one line are the first line of the text, and the
    chunks that remain are those of the other lines. -/
theorem line_cases (n : BufferSize) (s : Text) (hs : s ≠ []) :
    ∃ r, r.length < s.length ∧
      (line n (chunk n.size s).1 (chunks n (chunk n.size s).2)).2 = chunks n r ∧
      s.logicalLines =
        (line n (chunk n.size s).1 (chunks n (chunk n.size s).2)).1.flatten :: r.logicalLines := by
  induction hlen : s.length using Nat.strongRecOn generalizing s with
  | ind len ih =>
    have hlt := length_chunk_lt n.pos hs
    have hne := chunk_ne_nil n.pos hs
    have happ := chunk_append n.size s
    have hcases := chunk_cases n.size s
    generalize (chunk n.size s).1 = c at *
    generalize (chunk n.size s).2 = r at *
    rw [hlen] at hlt
    -- A line is at its end with its line feed. Without one there may be more to come.
    rcases hcases with ⟨hc, hend⟩ | ⟨body, hbody, hc | hc | ⟨hc, hfull⟩⟩
    · by_cases hr : r = []
      · -- The text is over, and with it the line.
        rw [hr, List.append_nil] at happ
        refine ⟨[], by rw [← hr]; exact hlt, ?_, ?_⟩
        · rw [hr, chunks_nil, line]
        · rw [hr, chunks_nil, line, ← happ, logicalLines_of_noLineEnd hc hne,
            List.flatten_cons, List.flatten_nil, List.append_nil, logicalLines.eq_1]
      · -- The chunk was cut, so it belongs to the first line of the rest.
        rcases ih r.length hlt r hr rfl with ⟨t, ht, hrest, hfirst⟩
        have hcut := isCut_of_noLineEnd hc (hend.resolve_right hr)
        refine ⟨t, Nat.lt_trans ht hlt, ?_, ?_⟩
        · rw [chunks_of_ne_nil n hr, line, if_pos hcut]
          exact hrest
        · rw [chunks_of_ne_nil n hr, line, if_pos hcut, ← happ, logicalLines_append hc, hfirst,
            foldr_consToFirst_cons, List.flatten_cons]
    · refine ⟨r, hlt, ?_⟩
      rw [← happ, hc, line_of_feed, List.append_assoc, List.singleton_append,
        logicalLines_append_feed hbody]
      exact ⟨rfl, by rw [List.flatten_cons, List.flatten_nil, List.append_nil]⟩
    · refine ⟨r, hlt, ?_⟩
      rw [← happ, hc, List.append_cons, line_of_feed, ← List.append_cons, List.append_assoc,
        List.cons_append, List.singleton_append, logicalLines_append_pair hbody]
      exact ⟨rfl, by rw [List.flatten_cons, List.flatten_nil, List.append_nil]⟩
    · have hcut : isCut n c = false := by rw [hc]; exact isCut_append_lineEnd n body rfl
      by_cases hfeed : r.head? = some (.char '\n')
      · -- The line feed was left over because the buffer was full.
        rcases List.head?_eq_some_iff.mp hfeed with ⟨t, ht⟩
        have hwaits : endsAtReturn n c = true := by
          rw [endsAtReturn, decide_eq_true (hfull hfeed), hc, List.getLast?_concat, BEq.rfl]
          rfl
        have hline : line n c (chunks n r) = ([c, [.char '\n']], chunks n t) := by
          rw [ht, chunks_of_ne_nil n (List.cons_ne_nil _ _), chunk_feed, line,
            if_neg (by rw [hcut]; exact Bool.false_ne_true), hwaits, if_pos (by rfl)]
        refine ⟨t, ?_, ?_⟩
        · rw [ht, List.length_cons] at hlt
          omega
        · rw [hline, ← happ, hc, ht, List.append_assoc, List.singleton_append,
            logicalLines_append_pair hbody]
          refine ⟨rfl, ?_⟩
          simp only [List.flatten_cons, List.flatten_nil, List.append_nil, List.append_assoc,
            List.singleton_append]
      · refine ⟨r, hlt, ?_⟩
        rw [line_of_ended n hcut (fun _ => hfeed), ← happ, hc, List.append_assoc,
          List.singleton_append, logicalLines_append_return hbody hfeed]
        exact ⟨rfl, by rw [List.flatten_cons, List.flatten_nil, List.append_nil]⟩

/-- The lines that are read through a buffer are the lines of the text. -/
theorem map_flatten_lines (n : BufferSize) (s : Text) :
    (lines n s).map List.flatten = s.logicalLines := by
  rw [lines]
  induction hlen : s.length using Nat.strongRecOn generalizing s with
  | ind len ih =>
    by_cases hs : s = []
    · rw [hs, chunks_nil, group, logicalLines.eq_1, List.map_nil]
    · rcases line_cases n s hs with ⟨r, hr, hrest, hfirst⟩
      rw [chunks_of_ne_nil n hs, group, List.map_cons, hrest, hfirst]
      rw [ih r.length (by omega) r rfl]

end Reading

namespace Directive

/-- How a directive is written: blanks, the two words with blanks between them, and then the
    end of the line or a symbol that ends a word. -/
def IsSpelled (line : Text) : Prop :=
  ∃ indent gap rest : Text,
    line = indent ++ "#pragma" ++ gap ++ "czar" ++ rest ∧
    (∀ x ∈ indent, x = ' ' ∨ x = '\t') ∧
    gap ≠ [] ∧ (∀ x ∈ gap, x = ' ' ∨ x = '\t') ∧
    ∀ x ∈ rest.head?, x = ' ' ∨ x = '\t' ∨ x = '\r' ∨ x = '\n'

theorem isSpaceOrTab_iff {x : Symbol} : x.isSpaceOrTab = true ↔ x = ' ' ∨ x = '\t' := by
  rw [Symbol.isSpaceOrTab, Bool.or_eq_true, decide_eq_true_eq, decide_eq_true_eq]

theorem endsWord_iff {rest : Text} :
    endsWord rest = true ↔ ∀ x ∈ rest.head?, x = ' ' ∨ x = '\t' ∨ x = '\r' ∨ x = '\n' := by
  cases rest with
  | nil => simp only [endsWord, List.head?_nil, Option.not_mem_none, false_implies, implies_true]
  | cons x r =>
      simp only [endsWord, List.head?_cons, Option.mem_some_iff, forall_eq', Bool.or_eq_true,
        isSpaceOrTab_iff, Symbol.isLineEnd, decide_eq_true_eq, or_assoc]

/-- What follows the words that mark a directive, as an equation on the line. -/
theorem afterMark?_eq_some_iff {line rest : Text} :
    afterMark? line = some rest ↔
      ∃ indent gap : Text, line = indent ++ "#pragma" ++ gap ++ "czar" ++ rest ∧
        Text.IsBlankRun indent ∧ gap ≠ [] ∧ Text.IsBlankRun gap := by
  simp only [afterMark?, bind, Option.bind_eq_some_iff, Text.skip?_eq_some_iff,
    Text.skipSomeBlanks?_eq_some_iff]
  constructor
  · rintro ⟨t, ht, u, ⟨_, gap, hne, hgap, rfl⟩, rfl⟩
    rcases Text.exists_skipBlanks line with ⟨indent, hindent, hline⟩
    refine ⟨indent, gap, ?_, hindent, hne, hgap⟩
    rw [hline, ht]
    simp only [List.append_assoc]
  · rintro ⟨indent, gap, rfl, hindent, hne, hgap⟩
    -- Both words start with a symbol that is no blank, so blanks are skipped up to them.
    refine ⟨gap ++ ("czar" ++ rest), ?_, "czar" ++ rest, ⟨?_, gap, hne, hgap, rfl⟩, rfl⟩
    · simp only [List.append_assoc]
      exact Text.skipBlanks_append hindent (Text.startsDark_cons.mpr rfl)
    · exact Text.startsDark_cons.mpr rfl

end Directive

/-- A line is a directive exactly if it is spelled as one. -/
theorem isDirective_iff (line : Text) : isDirective line = true ↔ Directive.IsSpelled line := by
  -- The two ways to say that a run is blank: by the class of its symbols and by naming them.
  have hblank : ∀ t : Text, Text.IsBlankRun t ↔ ∀ x ∈ t, x = ' ' ∨ x = '\t' :=
    fun t => forall₂_congr fun x _ => Directive.isSpaceOrTab_iff
  rw [isDirective]
  constructor
  · intro h
    rcases hmark : Directive.afterMark? line with _ | rest
    · rw [hmark] at h
      exact absurd h Bool.false_ne_true
    · rw [hmark] at h
      rcases Directive.afterMark?_eq_some_iff.mp hmark with ⟨indent, gap, hline, hi, hne, hg⟩
      exact ⟨indent, gap, rest, hline, (hblank indent).mp hi, hne, (hblank gap).mp hg,
        Directive.endsWord_iff.mp h⟩
  · rintro ⟨indent, gap, rest, hline, hi, hne, hg, hrest⟩
    rw [Directive.afterMark?_eq_some_iff.mpr
      ⟨indent, gap, hline, (hblank indent).mpr hi, hne, (hblank gap).mpr hg⟩]
    exact Directive.endsWord_iff.mpr hrest

theorem stripped_ofText (n : BufferSize) (s : Text) :
    Stripped.ofText n s =
      ⟨(s.logicalLines.filter (!isDirective ·)).flatten, s.logicalLines.filter isDirective⟩ := by
  rw [Stripped.ofText, Reading.map_flatten_lines]

/-- Reading through a buffer gives the lines of the text, cut after each line feed, each
    carriage return and each pair of the two. Stripping keeps the lines that are not spelled as
    directives and gives the others, both in order, and the buffer makes no difference. -/
theorem stripped_ofText_any_buffer (n : BufferSize) (s : Text) :
    (Reading.lines n s).map List.flatten = s.logicalLines ∧
    s.logicalLines.flatten = s ∧
    (∀ line, isDirective line = true ↔ Directive.IsSpelled line) ∧
    (Stripped.ofText n s).text = (s.logicalLines.filter (!isDirective ·)).flatten ∧
    (Stripped.ofText n s).removed = s.logicalLines.filter isDirective ∧
    ∀ m : BufferSize, Stripped.ofText m s = Stripped.ofText n s := by
  refine ⟨Reading.map_flatten_lines n s, Text.flatten_logicalLines s, isDirective_iff, ?_, ?_, ?_⟩
  · rw [stripped_ofText]
  · rw [stripped_ofText]
  · intro m
    rw [stripped_ofText, stripped_ofText]

end DialectBuild
