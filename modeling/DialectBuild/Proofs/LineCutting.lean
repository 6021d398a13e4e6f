import DialectBuild.Text.Line

/-!
# Cutting a Text at Its Line Ends

How the two ways of cutting a text into lines behave on a text that is put together from
parts. Both go from left to right, so a part that holds no line end only lengthens the line
that follows it, and a part that ends with a line feed is cut on its own, whatever comes
after. The second fact is what lets the stages of a build, which see different lines, be
compared: they agree on every boundary that a line feed makes.

A carriage return is no such boundary. Whether a line ends there is only known once the next
symbol is seen, because a line feed would belong to it.

## Main definitions

* `Text.NoLineEnd`: A text on one line.
* `Text.IsEnded`: A text that ends with a line feed.

## Theorems

* `Text.foldr_consToFirst_cons`, `Text.foldr_consToFirst_nil`: Lengthening the first line.
* `Text.logicalLines_append`: A part without line ends lengthens the line after it.
* `Text.logicalLines_append_feed`, `Text.logicalLines_append_pair`,
  `Text.logicalLines_append_return`: The three ways in which a line ends.
* `Text.logicalLines_of_noLineEnd`: A text on one line is its only line.
* `Text.logicalLines_induction`, `Text.codeLines_induction`: Induction on the lines of a text.
* `Text.codeLines_append_of_isEnded`, `Text.logicalLines_append_of_isEnded`: What a line feed
  ends is cut on its own.
* `Text.codeLines_flatten`: Lines put together fall apart into the same lines.
* `Text.logicalLines_eq_flatMap`: The finer lines are those of the code lines.
-/

namespace DialectBuild

namespace Text

/-- The text holds neither a carriage return nor a line feed. -/
def NoLineEnd (t : Text) : Prop :=
  ∀ x ∈ t, x.isLineEnd = false

theorem noLineEnd_nil : NoLineEnd [] := by
  intro x hx
  exact absurd hx List.not_mem_nil

theorem noLineEnd_cons {x : Symbol} {t : Text} :
    NoLineEnd (x :: t) ↔ x.isLineEnd = false ∧ NoLineEnd t :=
  List.forall_mem_cons

theorem noLineEnd_append {t r : Text} : NoLineEnd (t ++ r) ↔ NoLineEnd t ∧ NoLineEnd r :=
  List.forall_mem_append

instance (t : Text) : Decidable (NoLineEnd t) :=
  inferInstanceAs (Decidable (∀ x ∈ t, x.isLineEnd = false))

theorem foldr_consToFirst_cons (t l : Text) (ls : List Text) :
    t.foldr consToFirst (l :: ls) = (t ++ l) :: ls := by
  induction t with
  | nil => rfl
  | cons x t ih => rw [List.foldr_cons, ih, consToFirst, List.cons_append]

theorem foldr_consToFirst_nil {t : Text} (h : t ≠ []) : t.foldr consToFirst [] = [t] := by
  induction t with
  | nil => exact absurd rfl h
  | cons x t ih =>
      rw [List.foldr_cons]
      by_cases ht : t = []
      · rw [ht]
        rfl
      · rw [ih ht, consToFirst]

/-- One step of cutting, at a symbol that ends no line. -/
theorem logicalLines_cons {x : Symbol} (hx : x.isLineEnd = false) (t : Text) :
    logicalLines (x :: t) = consToFirst x (logicalLines t) := by
  rw [logicalLines.eq_3, hx, if_neg Bool.false_ne_true]
  -- A pair that ends a line would start with a carriage return.
  intro r hr _
  rw [hr] at hx
  exact absurd hx (by decide)

/-- A part without line ends lengthens the first line of what comes after it. -/
theorem logicalLines_append {t : Text} (ht : NoLineEnd t) (r : Text) :
    logicalLines (t ++ r) = t.foldr consToFirst (logicalLines r) := by
  induction t with
  | nil => rfl
  | cons x t ih =>
      rcases noLineEnd_cons.mp ht with ⟨hx, ht⟩
      rw [List.cons_append, logicalLines_cons hx, ih ht, List.foldr_cons]

/-- A line feed ends its line. -/
theorem logicalLines_append_feed {t : Text} (ht : NoLineEnd t) (r : Text) :
    logicalLines (t ++ .char '\n' :: r) = (t ++ [.char '\n']) :: logicalLines r := by
  have hfeed : logicalLines (.char '\n' :: r) = [.char '\n'] :: logicalLines r := by
    rw [logicalLines.eq_3, if_pos (by decide)]
    intro u h _
    exact absurd h (by decide)
  rw [logicalLines_append ht, hfeed, foldr_consToFirst_cons]

/-- A carriage return takes the line feed after it along. -/
theorem logicalLines_append_pair {t : Text} (ht : NoLineEnd t) (r : Text) :
    logicalLines (t ++ .char '\r' :: .char '\n' :: r) =
      (t ++ [.char '\r', .char '\n']) :: logicalLines r := by
  rw [logicalLines_append ht, logicalLines.eq_2, foldr_consToFirst_cons]

/-- A carriage return ends its line if no line feed follows. -/
theorem logicalLines_append_return {t : Text} (ht : NoLineEnd t) {r : Text}
    (hr : r.head? ≠ some (.char '\n')) :
    logicalLines (t ++ .char '\r' :: r) = (t ++ [.char '\r']) :: logicalLines r := by
  have hreturn : logicalLines (.char '\r' :: r) = [.char '\r'] :: logicalLines r := by
    rw [logicalLines.eq_3, if_pos (by decide)]
    intro u _ h
    rw [h] at hr
    exact hr rfl
  rw [logicalLines_append ht, hreturn, foldr_consToFirst_cons]

/-- A text on one line is its only line. -/
theorem logicalLines_of_noLineEnd {t : Text} (ht : NoLineEnd t) (hne : t ≠ []) :
    logicalLines t = [t] := by
  have h := logicalLines_append ht []
  rw [List.append_nil, logicalLines.eq_1, foldr_consToFirst_nil hne] at h
  exact h

/-- Every text is empty, on one line, or a first line and the rest. A carriage return only
    ends the first line if the rest does not start with a line feed. -/
theorem logicalLines_induction {motive : Text → Prop} (nil : motive [])
    (last : ∀ t, t ≠ [] → NoLineEnd t → motive t)
    (feed : ∀ t r, NoLineEnd t → motive r → motive (t ++ .char '\n' :: r))
    (pair : ∀ t r, NoLineEnd t → motive r → motive (t ++ .char '\r' :: .char '\n' :: r))
    (ret : ∀ t r, NoLineEnd t → r.head? ≠ some (.char '\n') → motive r →
      motive (t ++ .char '\r' :: r)) (t : Text) : motive t := by
  -- A symbol that ends no line is carried over to the first line of the rest.
  have step : ∀ b r, NoLineEnd b → motive (b ++ r) := by
    intro b r
    induction hlen : r.length using Nat.strongRecOn generalizing b r with
    | ind len ih =>
      intro hb
      cases r with
      | nil =>
          rw [List.append_nil]
          by_cases hne : b = []
          · rw [hne]
            exact nil
          · exact last b hne hb
      | cons x r =>
          rw [List.length_cons] at hlen
          have hrest : motive r := ih r.length (by omega) [] r rfl noLineEnd_nil
          by_cases hx : x.isLineEnd = true
          · rw [Symbol.isLineEnd, Bool.or_eq_true, decide_eq_true_eq, decide_eq_true_eq] at hx
            rcases hx with rfl | rfl
            · by_cases hr : r.head? = some (.char '\n')
              · rcases List.head?_eq_some_iff.mp hr with ⟨u, rfl⟩
                rw [List.length_cons] at hlen
                exact pair b u hb (ih u.length (by omega) [] u rfl noLineEnd_nil)
              · exact ret b r hb hr hrest
            · exact feed b r hb hrest
          · have hbx : NoLineEnd (b ++ [x]) := by
              intro y hy
              rcases List.mem_append.mp hy with hy | hy
              · exact hb y hy
              · rw [List.mem_singleton.mp hy]
                exact Bool.eq_false_iff.mpr hx
            rw [List.append_cons]
            exact ih r.length (by omega) (b ++ [x]) r rfl hbx
  exact step [] t noLineEnd_nil

/-- Whether a text ends with a line feed. -/
def IsEnded (t : Text) : Prop :=
  t.getLast? = some (.char '\n')

instance (t : Text) : Decidable (IsEnded t) :=
  inferInstanceAs (Decidable (t.getLast? = some (.char '\n')))

theorem isEnded_append_feed (t : Text) : IsEnded (t ++ [.char '\n']) :=
  List.getLast?_concat

theorem isEnded_append_iff {t r : Text} (hr : r ≠ []) : IsEnded (t ++ r) ↔ IsEnded r := by
  rw [IsEnded, IsEnded, List.getLast?_append, List.getLast?_eq_some_getLast hr, Option.some_or]

theorem isEnded_of_cons {x : Symbol} {t : Text} (h : IsEnded (x :: t)) (ht : t ≠ []) :
    IsEnded t :=
  (isEnded_append_iff (t := [x]) ht).mp h

theorem not_isEnded_nil : ¬ IsEnded [] := by
  intro h
  cases h

theorem not_isEnded_of_noFeed {t : Text} (ht : .char '\n' ∉ t) : ¬ IsEnded t :=
  fun h => ht (List.mem_of_getLast? h)

/-- A line feed that can only stand at the end, and does not, is not there at all. -/
theorem noFeed_of_not_isEnded {t : Text} (h : .char '\n' ∉ t.dropLast) (hend : ¬ IsEnded t) :
    .char '\n' ∉ t := by
  intro hmem
  rcases List.eq_nil_or_concat t with rfl | ⟨b, x, rfl⟩
  · exact absurd hmem List.not_mem_nil
  · rw [List.concat_eq_append] at h hend hmem
    rw [List.dropLast_concat] at h
    rw [IsEnded, List.getLast?_concat, Option.some.injEq] at hend
    rcases List.mem_append.mp hmem with hmem | hmem
    · exact h hmem
    · exact hend (List.mem_singleton.mp hmem).symm

/-- A part without line feeds lengthens the first line of what comes after it. -/
theorem codeLines_append {t : Text} (ht : .char '\n' ∉ t) (r : Text) :
    codeLines (t ++ r) = t.foldr consToFirst (codeLines r) := by
  induction t with
  | nil => rfl
  | cons x t ih =>
      rw [List.mem_cons, not_or] at ht
      rw [List.cons_append, codeLines, if_neg (Ne.symm ht.1), ih ht.2, List.foldr_cons]

/-- A line feed ends its line. -/
theorem codeLines_append_feed {t : Text} (ht : .char '\n' ∉ t) (r : Text) :
    codeLines (t ++ .char '\n' :: r) = (t ++ [.char '\n']) :: codeLines r := by
  rw [codeLines_append ht, codeLines, if_pos rfl, foldr_consToFirst_cons]

/-- A text without line feeds is its only line. -/
theorem codeLines_of_noFeed {t : Text} (ht : .char '\n' ∉ t) (hne : t ≠ []) :
    codeLines t = [t] := by
  have h := codeLines_append ht []
  rw [List.append_nil, codeLines, foldr_consToFirst_nil hne] at h
  exact h

theorem noFeed_of_noLineEnd {t : Text} (ht : NoLineEnd t) : .char '\n' ∉ t :=
  fun h => absurd (ht _ h) (by decide)

/-- Every text is empty, without line feeds, or a first line and the rest. -/
theorem codeLines_induction {motive : Text → Prop} (nil : motive [])
    (last : ∀ t, t ≠ [] → .char '\n' ∉ t → motive t)
    (feed : ∀ t r, .char '\n' ∉ t → motive r → motive (t ++ .char '\n' :: r))
    (t : Text) : motive t := by
  -- The symbols read so far are kept until a line feed or the end of the text.
  have step : ∀ b, .char '\n' ∉ b → motive (b ++ t) := by
    induction t with
    | nil =>
        intro b hb
        rw [List.append_nil]
        by_cases hne : b = []
        · rw [hne]
          exact nil
        · exact last b hne hb
    | cons x r ih =>
        intro b hb
        by_cases hx : x = '\n'
        · rw [hx]
          exact feed b r hb (ih [] List.not_mem_nil)
        · rw [List.append_cons]
          refine ih (b ++ [x]) (fun h => ?_)
          rcases List.mem_append.mp h with h | h
          · exact hb h
          · exact hx (List.mem_singleton.mp h).symm
  exact step [] List.not_mem_nil

/-- What a line feed ends is cut on its own. -/
theorem codeLines_append_of_isEnded {t : Text} (ht : IsEnded t) (r : Text) :
    codeLines (t ++ r) = codeLines t ++ codeLines r := by
  induction t using codeLines_induction with
  | nil => exact absurd ht not_isEnded_nil
  | last t _ hfeed => exact absurd ht (not_isEnded_of_noFeed hfeed)
  | feed t u hfeed ih =>
      rw [List.append_assoc, List.cons_append, codeLines_append_feed hfeed,
        codeLines_append_feed hfeed, List.cons_append]
      by_cases hu : u = []
      · rw [hu]
        rfl
      · rw [List.append_cons, isEnded_append_iff hu] at ht
        rw [ih ht]

/-- The same for the other way of cutting: a line feed is never followed by a symbol that
    belongs to its line. -/
theorem logicalLines_append_of_isEnded {t : Text} (ht : IsEnded t) (r : Text) :
    logicalLines (t ++ r) = logicalLines t ++ logicalLines r := by
  induction t using logicalLines_induction with
  | nil => exact absurd ht not_isEnded_nil
  | last t _ hline =>
      refine absurd ht (not_isEnded_of_noFeed (fun h => ?_))
      exact absurd (hline _ h) (by decide)
  | feed t u hline ih =>
      rw [List.append_assoc, List.cons_append, logicalLines_append_feed hline,
        logicalLines_append_feed hline, List.cons_append]
      by_cases hu : u = []
      · rw [hu]
        rfl
      · rw [List.append_cons, isEnded_append_iff hu] at ht
        rw [ih ht]
  | pair t u hline ih =>
      rw [List.append_assoc, List.cons_append, List.cons_append, logicalLines_append_pair hline,
        logicalLines_append_pair hline, List.cons_append]
      by_cases hu : u = []
      · rw [hu]
        rfl
      · rw [List.append_cons, List.append_cons, isEnded_append_iff hu] at ht
        rw [ih ht]
  | ret t u hline hhead ih =>
      by_cases hu : u = []
      · rw [hu, IsEnded, List.getLast?_concat] at ht
        exact absurd ht (by decide)
      · rw [List.append_cons, isEnded_append_iff hu] at ht
        -- What comes after the carriage return is not changed by what is added at the end.
        have hhead' : (u ++ r).head? ≠ some (.char '\n') := by
          rw [List.head?_append, List.head?_eq_some_head hu, Option.some_or,
            ← List.head?_eq_some_head hu]
          exact hhead
        rw [List.append_assoc, List.cons_append, logicalLines_append_return hline hhead',
          logicalLines_append_return hline hhead, List.cons_append, ih ht]

/-- A line of a text is its own only line. -/
theorem codeLines_of_mem {t l : Text} (h : l ∈ codeLines t) : codeLines l = [l] := by
  induction t using codeLines_induction with
  | nil => exact absurd h List.not_mem_nil
  | last t hne hfeed =>
      rw [codeLines_of_noFeed hfeed hne, List.mem_singleton] at h
      rw [h]
      exact codeLines_of_noFeed hfeed hne
  | feed t r hfeed ih =>
      rw [codeLines_append_feed hfeed, List.mem_cons] at h
      rcases h with rfl | h
      · rw [codeLines_append_feed hfeed, codeLines]
      · exact ih h

/-- A line holds a line feed at its end or not at all. -/
theorem noFeed_dropLast_of_codeLines {l : Text} (h : codeLines l = [l]) :
    .char '\n' ∉ l.dropLast := by
  induction l using codeLines_induction with
  | nil => exact List.not_mem_nil
  | last t _ hfeed => exact fun hmem => hfeed (List.dropLast_subset t hmem)
  | feed t r hfeed _ =>
      rw [codeLines_append_feed hfeed, List.cons.injEq] at h
      have hr := flatten_codeLines r
      rw [h.2, List.flatten_nil] at hr
      rw [← hr, List.dropLast_concat]
      exact hfeed

theorem codeLines_of_noFeed_dropLast {l : Text} (hne : l ≠ []) (h : .char '\n' ∉ l.dropLast) :
    codeLines l = [l] := by
  rcases List.eq_nil_or_concat l with rfl | ⟨b, x, rfl⟩
  · exact absurd rfl hne
  · rw [List.concat_eq_append, List.dropLast_concat] at h
    rw [List.concat_eq_append]
    by_cases hx : x = '\n'
    · rw [hx, codeLines_append_feed h, codeLines]
    · refine codeLines_of_noFeed (fun hmem => ?_)
        (List.append_ne_nil_of_right_ne_nil b (List.cons_ne_nil x []))
      rcases List.mem_append.mp hmem with hmem | hmem
      · exact h hmem
      · exact hx (List.mem_singleton.mp hmem).symm

/-- Every line but the last ends with a line feed. -/
theorem isEnded_of_mem_dropLast {t l : Text} (h : l ∈ (codeLines t).dropLast) : IsEnded l := by
  induction t using codeLines_induction with
  | nil => exact absurd h List.not_mem_nil
  | last t hne hfeed =>
      rw [codeLines_of_noFeed hfeed hne] at h
      exact absurd h List.not_mem_nil
  | feed t r hfeed ih =>
      rw [codeLines_append_feed hfeed] at h
      by_cases hr : codeLines r = []
      · rw [hr] at h
        exact absurd h List.not_mem_nil
      · rw [List.dropLast_cons_of_ne_nil hr, List.mem_cons] at h
        rcases h with rfl | h
        · exact isEnded_append_feed t
        · exact ih h

/-- Lines put together fall apart into the same lines, if each of them is one line and only
    the last may lack its line feed. -/
theorem codeLines_flatten {ls : List Text} (hline : ∀ l ∈ ls, codeLines l = [l])
    (hend : ∀ l ∈ ls.dropLast, IsEnded l) : codeLines ls.flatten = ls := by
  induction ls with
  | nil => rfl
  | cons l ls ih =>
      rcases List.forall_mem_cons.mp hline with ⟨hl, hline⟩
      by_cases hne : ls = []
      · rw [hne, List.flatten_cons, List.flatten_nil, List.append_nil, hl]
      · rw [List.dropLast_cons_of_ne_nil hne] at hend
        rcases List.forall_mem_cons.mp hend with ⟨he, hend⟩
        rw [List.flatten_cons, codeLines_append_of_isEnded he, hl, ih hline hend]
        rfl

/-- The finer lines of a text are those of its code lines, one after the other. -/
theorem logicalLines_eq_flatMap (t : Text) :
    logicalLines t = (codeLines t).flatMap logicalLines := by
  induction t using codeLines_induction with
  | nil => rw [codeLines, logicalLines.eq_1, List.flatMap_nil]
  | last t hne hfeed =>
      rw [codeLines_of_noFeed hfeed hne, List.flatMap_cons, List.flatMap_nil, List.append_nil]
  | feed t r hfeed ih =>
      rw [codeLines_append_feed hfeed, List.flatMap_cons, ← ih, List.append_cons,
        logicalLines_append_of_isEnded (isEnded_append_feed t)]

end Text

end DialectBuild
