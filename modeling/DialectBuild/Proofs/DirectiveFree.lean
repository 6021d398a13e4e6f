import DialectBuild.Proofs.BufferedReading

/-!
# Texts without Directives

Stripping a text leaves no directive behind, and a text without directives is left as it is.

Neither is quite obvious, because removing a line can join its neighbours: a line that ends
with a carriage return and a line that is nothing but a line feed become one line. What saves
the day is that a line end has no say in whether a line is a directive, so the joined line is
none either. `isDirectiveFree_append` is this argument, and the other facts follow from it.

## Main definitions

* `Text.IsDirectiveFree`: None of the lines is a directive.
* `Text.EndsLine`: A text after which a line starts.

## Theorems

* `isDirective_append_lineEnd`: A line end does not make a directive or unmake one.
* `Text.isDirectiveFree_append`: Two texts without directives make one, if the first ends its
  line.
* `Text.isDirectiveFree_append_lineEnds`: Line ends can be added.
* `Text.isDirectiveFree_iff_codeLines`: It is enough to look at each code line.
* `Stripped.isDirectiveFree_text`: Stripping leaves no directive.
* `Stripped.ofText_of_isDirectiveFree`: Without directives there is nothing to strip.
-/

namespace DialectBuild

/-- A line end at the end of a line has no say in whether it is a directive. -/
theorem isDirective_append_lineEnd {x : Symbol} (hx : x.isLineEnd = true) (t : Text) :
    isDirective (t ++ [x]) = isDirective t := by
  have hends : x = ' ' ∨ x = '\t' ∨ x = '\r' ∨ x = '\n' := by
    rw [Symbol.isLineEnd, Bool.or_eq_true, decide_eq_true_eq, decide_eq_true_eq] at hx
    exact Or.inr (Or.inr hx)
  rw [Bool.eq_iff_iff, isDirective_iff, isDirective_iff]
  constructor
  · rintro ⟨indent, gap, rest, ht, hi, hne, hg, hrest⟩
    -- The line end cannot be the last letter of the second word.
    rcases List.eq_nil_or_concat rest with hr | ⟨rest, y, hr⟩
    · rw [hr, List.append_nil] at ht
      have hlast := congrArg List.getLast? ht
      rw [List.getLast?_concat, List.getLast?_append] at hlast
      have hxr : x = .char 'r' := Option.some.inj hlast
      rw [hxr] at hx
      exact absurd hx (by decide)
    · rw [List.concat_eq_append] at hr
      rw [hr, ← List.append_assoc] at ht
      refine ⟨indent, gap, rest, (List.append_inj' ht rfl).1, hi, hne, hg, ?_⟩
      intro z hz
      refine hrest z ?_
      rw [hr, List.head?_append, hz, Option.some_or]
      rfl
  · rintro ⟨indent, gap, rest, ht, hi, hne, hg, hrest⟩
    refine ⟨indent, gap, rest ++ [x], by rw [ht, List.append_assoc], hi, hne, hg, ?_⟩
    intro z hz
    cases rest with
    | nil =>
        rw [List.nil_append, List.head?_cons, Option.mem_some_iff] at hz
        rw [← hz]
        exact hends
    | cons y rest => exact hrest z hz

namespace Text

/-- None of the lines of the text is a directive. -/
def IsDirectiveFree (t : Text) : Prop :=
  ∀ l ∈ logicalLines t, isDirective l = false

/-- The text is empty or ends with a carriage return or a line feed. -/
def EndsLine (t : Text) : Prop :=
  ∀ x ∈ t.getLast?, x.isLineEnd = true

theorem endsLine_concat {t : Text} {x : Symbol} : EndsLine (t ++ [x]) ↔ x.isLineEnd = true := by
  simp only [EndsLine, List.getLast?_concat, Option.mem_some_iff, forall_eq']

theorem endsLine_append {t r : Text} (hr : r ≠ []) : EndsLine (t ++ r) ↔ EndsLine r := by
  rw [EndsLine, EndsLine, List.getLast?_append, List.getLast?_eq_some_getLast hr, Option.some_or]

theorem endsLine_of_append {t r : Text} (h : EndsLine (t ++ r)) : EndsLine r := by
  by_cases hr : r = []
  · rw [hr]
    intro x hx
    cases hx
  · exact (endsLine_append hr).mp h

theorem isDirectiveFree_nil : IsDirectiveFree [] := by
  intro l hl
  rw [logicalLines.eq_1] at hl
  exact absurd hl List.not_mem_nil

theorem isDirectiveFree_of_noLineEnd {t : Text} (ht : NoLineEnd t) (hd : isDirective t = false) :
    IsDirectiveFree t := by
  by_cases hne : t = []
  · rw [hne]
    exact isDirectiveFree_nil
  · intro l hl
    rw [logicalLines_of_noLineEnd ht hne, List.mem_singleton] at hl
    rw [hl]
    exact hd

/-- Two texts without directives make one, if a line starts after the first. The two may join
    a carriage return and a line feed, which makes no directive either. -/
theorem isDirectiveFree_append {t r : Text} (hend : EndsLine t) (ht : IsDirectiveFree t)
    (hr : IsDirectiveFree r) : IsDirectiveFree (t ++ r) := by
  induction t using logicalLines_induction with
  | nil => exact hr
  | last t hne hline =>
      have hlast := hend _ (List.getLast?_eq_some_getLast hne)
      rw [hline _ (List.getLast_mem hne)] at hlast
      exact absurd hlast Bool.false_ne_true
  | feed t u hline ih =>
      rw [IsDirectiveFree, logicalLines_append_feed hline, List.forall_mem_cons] at ht
      rw [IsDirectiveFree, List.append_assoc, List.cons_append, logicalLines_append_feed hline,
        List.forall_mem_cons]
      rw [List.append_cons] at hend
      exact ⟨ht.1, ih (endsLine_of_append hend) ht.2⟩
  | pair t u hline ih =>
      rw [IsDirectiveFree, logicalLines_append_pair hline, List.forall_mem_cons] at ht
      rw [IsDirectiveFree, List.append_assoc, List.cons_append, List.cons_append,
        logicalLines_append_pair hline, List.forall_mem_cons]
      rw [List.append_cons, List.append_cons] at hend
      exact ⟨ht.1, ih (endsLine_of_append hend) ht.2⟩
  | ret t u hline hhead ih =>
      rw [IsDirectiveFree, logicalLines_append_return hline hhead, List.forall_mem_cons] at ht
      rw [IsDirectiveFree, List.append_assoc, List.cons_append]
      by_cases hfeed : (u ++ r).head? = some (.char '\n')
      · -- The carriage return is joined with a line feed that was a line of its own.
        have hu : u = [] := by
          cases u with
          | nil => rfl
          | cons y u => exact absurd hfeed hhead
        rw [hu, List.nil_append] at hfeed
        rcases List.head?_eq_some_iff.mp hfeed with ⟨v, hv⟩
        have hrest := logicalLines_append_feed noLineEnd_nil v
        rw [List.nil_append] at hrest
        rw [hv, IsDirectiveFree, hrest, List.forall_mem_cons] at hr
        rw [hu, List.nil_append, hv, logicalLines_append_pair hline, List.forall_mem_cons]
        refine ⟨?_, hr.2⟩
        rw [List.append_cons, isDirective_append_lineEnd (by decide)]
        exact ht.1
      · rw [logicalLines_append_return hline hfeed, List.forall_mem_cons]
        rw [List.append_cons] at hend
        exact ⟨ht.1, ih (endsLine_of_append hend) ht.2⟩

/-- Line ends can be added to a text without directives. The first of them may belong to the
    last line, where it changes nothing. -/
theorem isDirectiveFree_append_lineEnd {t : Text} (ht : IsDirectiveFree t) {x : Symbol}
    (hx : x.isLineEnd = true) : IsDirectiveFree (t ++ [x]) := by
  -- A line end after a text on one line belongs to that line.
  have hlone : ∀ b : Text, NoLineEnd b → logicalLines (b ++ [x]) = [b ++ [x]] := by
    intro b hb
    rw [Symbol.isLineEnd, Bool.or_eq_true, decide_eq_true_eq, decide_eq_true_eq] at hx
    rcases hx with rfl | rfl
    · rw [logicalLines_append_return hb (by decide), logicalLines.eq_1]
    · rw [logicalLines_append_feed hb, logicalLines.eq_1]
  induction t using logicalLines_induction with
  | nil =>
      rw [IsDirectiveFree, hlone [] noLineEnd_nil, List.forall_mem_singleton,
        isDirective_append_lineEnd hx]
      rfl
  | last t hne hline =>
      rw [IsDirectiveFree, logicalLines_of_noLineEnd hline hne, List.forall_mem_singleton] at ht
      rw [IsDirectiveFree, hlone t hline, List.forall_mem_singleton, isDirective_append_lineEnd hx]
      exact ht
  | feed t u hline ih =>
      rw [IsDirectiveFree, logicalLines_append_feed hline, List.forall_mem_cons] at ht
      rw [IsDirectiveFree, List.append_assoc, List.cons_append, logicalLines_append_feed hline,
        List.forall_mem_cons]
      exact ⟨ht.1, ih ht.2⟩
  | pair t u hline ih =>
      rw [IsDirectiveFree, logicalLines_append_pair hline, List.forall_mem_cons] at ht
      rw [IsDirectiveFree, List.append_assoc, List.cons_append, List.cons_append,
        logicalLines_append_pair hline, List.forall_mem_cons]
      exact ⟨ht.1, ih ht.2⟩
  | ret t u hline hhead ih =>
      rw [IsDirectiveFree, logicalLines_append_return hline hhead, List.forall_mem_cons] at ht
      rw [IsDirectiveFree, List.append_assoc, List.cons_append]
      by_cases hfeed : (u ++ [x]).head? = some (.char '\n')
      · have hu : u = [] := by
          cases u with
          | nil => rfl
          | cons y u => exact absurd hfeed hhead
        rw [hu, List.nil_append, List.head?_cons, Option.some.injEq] at hfeed
        rw [hu, List.nil_append, hfeed, logicalLines_append_pair hline, logicalLines.eq_1,
          List.forall_mem_singleton, List.append_cons, isDirective_append_lineEnd (by decide)]
        exact ht.1
      · rw [logicalLines_append_return hline hfeed, List.forall_mem_cons]
        exact ⟨ht.1, ih ht.2⟩

theorem isDirectiveFree_append_lineEnds {t e : Text} (ht : IsDirectiveFree t)
    (he : ∀ x ∈ e, x.isLineEnd = true) : IsDirectiveFree (t ++ e) := by
  induction e generalizing t with
  | nil =>
      rw [List.append_nil]
      exact ht
  | cons x e ih =>
      rcases List.forall_mem_cons.mp he with ⟨hx, he⟩
      rw [List.append_cons]
      exact ih (isDirectiveFree_append_lineEnd ht hx) he

/-- It is enough to look at each code line, since every one but the last ends its line. -/
theorem isDirectiveFree_iff_codeLines {t : Text} :
    IsDirectiveFree t ↔ ∀ l ∈ codeLines t, IsDirectiveFree l := by
  rw [IsDirectiveFree, logicalLines_eq_flatMap]
  simp only [List.mem_flatMap, forall_exists_index, and_imp]
  exact ⟨fun h l hl k hk => h k l hl hk, fun h k l hl hk => h l hl k hk⟩

/-- Without directives there is nothing to leave out. -/
theorem filter_logicalLines {t : Text} (ht : IsDirectiveFree t) :
    t.logicalLines.filter (!isDirective ·) = t.logicalLines ∧
      t.logicalLines.filter isDirective = [] := by
  constructor
  · refine List.filter_eq_self.mpr (fun l hl => ?_)
    rw [ht l hl]
    rfl
  · refine List.filter_eq_nil_iff.mpr (fun l hl => ?_)
    rw [ht l hl]
    exact Bool.false_ne_true

end Text

namespace Stripped

open Text

/-- Stripping leaves no directive, although it may join lines. -/
theorem isDirectiveFree_text (n : BufferSize) (s : Text) :
    IsDirectiveFree (Stripped.ofText n s).text := by
  rw [stripped_ofText]
  -- A line that is kept goes in front of what is kept of the others.
  have keep : ∀ l ls, logicalLines l = [l] → EndsLine l →
      IsDirectiveFree (ls.filter (!isDirective ·)).flatten →
      IsDirectiveFree ((l :: ls).filter (!isDirective ·)).flatten := by
    intro l ls hl hend hls
    rw [List.filter_cons]
    by_cases hd : isDirective l = true
    · rw [hd, if_neg (by exact Bool.false_ne_true)]
      exact hls
    · rw [Bool.not_eq_true] at hd
      rw [hd, if_pos (by rfl), List.flatten_cons]
      refine isDirectiveFree_append hend ?_ hls
      rw [IsDirectiveFree, hl]
      exact fun k hk => List.mem_singleton.mp hk ▸ hd
  induction s using logicalLines_induction with
  | nil =>
      rw [logicalLines.eq_1]
      exact isDirectiveFree_nil
  | last t hne hline =>
      rw [logicalLines_of_noLineEnd hline hne]
      by_cases hd : isDirective t = true
      · rw [List.filter_cons, hd, if_neg (by exact Bool.false_ne_true)]
        exact isDirectiveFree_nil
      · rw [Bool.not_eq_true] at hd
        rw [List.filter_cons, hd, if_pos (by rfl), List.filter_nil, List.flatten_singleton]
        exact isDirectiveFree_of_noLineEnd hline hd
  | feed t r hline ih =>
      rw [logicalLines_append_feed hline]
      refine keep _ _ ?_ (endsLine_concat.mpr rfl) ih
      rw [logicalLines_append_feed hline, logicalLines.eq_1]
  | pair t r hline ih =>
      rw [logicalLines_append_pair hline]
      refine keep _ _ ?_ ?_ ih
      · rw [logicalLines_append_pair hline, logicalLines.eq_1]
      · rw [List.append_cons]
        exact endsLine_concat.mpr rfl
  | ret t r hline hhead ih =>
      rw [logicalLines_append_return hline hhead]
      refine keep _ _ ?_ (endsLine_concat.mpr rfl) ih
      rw [logicalLines_append_return hline (by decide), logicalLines.eq_1]

/-- A text without directives is stripped of nothing. -/
theorem ofText_of_isDirectiveFree (n : BufferSize) {t : Text} (ht : IsDirectiveFree t) :
    Stripped.ofText n t = ⟨t, []⟩ := by
  rcases filter_logicalLines ht with ⟨hkept, hremoved⟩
  rw [stripped_ofText, hkept, hremoved, flatten_logicalLines]

end Stripped

end DialectBuild
