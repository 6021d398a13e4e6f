import DialectBuild.Proofs.LineContext

/-!
# Text That Is Read as Nothing

Parts of lines that give no tokens. Whether a part of a line is one of them depends on the
context in which the line starts, so there are four sorts: what is dropped on a line of code,
what stays inside a comment, what ends the comment in which it stands, and what ends a
preprocessor line that was carried over. Each is said for every text that can follow on the
line, and nothing can follow but carriage returns and the line feed.

Behind such a part the line is over, and it does not matter any more what stood on it. So two
parts of the same sort can stand for each other.

## Main definitions

* `Text.StartsEnded`: A text at whose start a line ends.
* `Text.EndsPlain`: A text after which a line feed is not escaped.
* `Text.IsDropped`, `Text.IsHidden`, `Text.IsClosing`, `Text.IsContinued`: The four sorts.
* `Text.IsDirectiveLine`: A preprocessor line that ends with the line.

## Theorems

* `Text.hasPart_append`: Where a comment can end in two texts that are put together.
* `Text.isDropped_directive`, `Text.isDropped_lineComment`, `Text.isDropped_blockComment`: What
  is dropped on a line of code.
* `Text.readings_join_of_isEnded`, `Text.isDirectiveLine_join`: Several preprocessor lines.
-/

namespace DialectBuild

namespace Text

theorem readings_blanks_append {lineStart : Bool} {b : Text}
    (hb : ∀ x ∈ b, Lexeme.isInnerBlank x = true) (s : Text) :
    readings lineStart (b ++ s) = readings lineStart s := by
  induction b with
  | nil => rfl
  | cons x b ih =>
      rcases List.forall_mem_cons.mp hb with ⟨hx, hb⟩
      rw [List.cons_append, readings_blank_cons hx, ih hb]

/-- A text at whose start a line ends: carriage returns, and then a line feed or nothing. -/
def StartsEnded (u : Text) : Prop :=
  ∃ cr rest : Text, u = cr ++ rest ∧ (∀ x ∈ cr, x = '\r') ∧
    (rest = [] ∨ rest.head? = some (.char '\n'))

theorem isInnerBlank_of_return {cr : Text} (hcr : ∀ x ∈ cr, x = '\r') :
    ∀ x ∈ cr, Lexeme.isInnerBlank x = true := by
  intro x hx
  rw [hcr x hx]
  rfl

theorem isInnerBlank_of_isBlankRun {b : Text} (hb : IsBlankRun b) :
    ∀ x ∈ b, Lexeme.isInnerBlank x = true := by
  intro x hx
  rcases Directive.isSpaceOrTab_iff.mp (hb x hx) with rfl | rfl <;> rfl

/-- At the end of a line it does not matter what stood on it. -/
theorem StartsEnded.readings_eq {u : Text} (hu : StartsEnded u) (lineStart : Bool) :
    readings lineStart u = readings true u := by
  rcases hu with ⟨cr, rest, rfl, hcr, hrest⟩
  have hblank := isInnerBlank_of_return hcr
  rw [readings_blanks_append hblank, readings_blanks_append hblank]
  rcases hrest with rfl | hrest
  · rw [readings_nil, readings_nil]
  · rcases List.head?_eq_some_iff.mp hrest with ⟨r, rfl⟩
    rw [readings_eq_append (.newline r), readings_eq_append (.newline r)]
    rfl

theorem StartsEnded.head?_ne_slash {u : Text} (hu : StartsEnded u) :
    u.head? ≠ some (.char '/') := by
  rcases hu with ⟨cr, rest, rfl, hcr, hrest⟩
  rcases cr with _ | ⟨x, cr⟩
  · rcases hrest with rfl | hrest
    · decide
    · rw [List.nil_append, hrest]
      decide
  · rw [hcr x List.mem_cons_self]
    exact fun h => absurd (Option.some.inj h) (by decide)

theorem hasPart_cons_of_ne {x : Symbol} (hx : x ≠ '*') (r : Text) :
    hasPart "*/" (x :: r) = hasPart "*/" r := by
  rw [hasPart]
  simp [Text.ofString, List.isPrefixOf, Ne.symm hx]

/-- Two texts that are put together end a comment where one of them does, unless one ends with
    a star and the other starts with a slash. -/
theorem hasPart_append {r : Text} (hr : r.head? ≠ some (.char '/')) (s : Text) :
    hasPart "*/" (s ++ r) = (hasPart "*/" s || hasPart "*/" r) := by
  induction s with
  | nil => rfl
  | cons y s ih =>
      rw [List.cons_append, hasPart, hasPart, ih, Bool.or_assoc]
      rcases s with _ | ⟨z, s⟩
      · rcases r with _ | ⟨x, r⟩
        · rfl
        · have hslash : Symbol.char '/' ≠ x := fun h => hr (by rw [← h]; rfl)
          simp [Text.ofString, List.isPrefixOf, hslash]
      · simp [Text.ofString, List.isPrefixOf]

theorem hasPart_append_of_noStar {s : Text} (h : .char '*' ∉ s) (r : Text) :
    hasPart "*/" (s ++ r) = hasPart "*/" r := by
  induction s with
  | nil => rfl
  | cons x s ih =>
      rw [List.mem_cons, not_or] at h
      rw [List.cons_append, hasPart_cons_of_ne (Ne.symm h.1), ih h.2]

theorem hasPart_of_noStar {t : Text} (h : .char '*' ∉ t) : hasPart "*/" t = false := by
  rw [← List.append_nil t, hasPart_append_of_noStar h]
  rfl

/-- Quotes keep what they enclose apart from what is around them. -/
theorem hasPart_quoted (s path r : Text) :
    hasPart "*/" (s ++ ("\"" ++ (path ++ ("\"" ++ r)))) =
      (hasPart "*/" s || (hasPart "*/" path || hasPart "*/" r)) := by
  have hquote : ∀ t : Text, hasPart "*/" ("\"" ++ t) = hasPart "*/" t :=
    fun t => hasPart_cons_of_ne (by decide) t
  have hhead : ∀ t : Text, (("\"" : Text) ++ t).head? ≠ some (.char '/') :=
    fun t h => absurd (Option.some.inj h) (by decide)
  rw [hasPart_append (hhead _), hquote, hasPart_append (hhead _), hquote]

theorem noStar_of_isBlankRun {t : Text} (ht : IsBlankRun t) : .char '*' ∉ t :=
  fun h => absurd (ht _ h) (by decide)

/-- The text does not end with a backslash. -/
def EndsPlain (t : Text) : Prop :=
  t.getLast? ≠ some (.char '\\')

instance (t : Text) : Decidable (EndsPlain t) :=
  inferInstanceAs (Decidable (t.getLast? ≠ some (.char '\\')))

theorem endsPlain_append {t r : Text} (ht : EndsPlain t) (hr : EndsPlain r) :
    EndsPlain (t ++ r) := by
  intro h
  rw [List.getLast?_append] at h
  rcases hlast : r.getLast? with _ | x
  · rw [hlast, Option.none_or] at h
    exact ht h
  · rw [hlast, Option.some_or] at h
    exact hr (hlast.trans h)

theorem endsPlain_append_of_ne_nil {r : Text} (hne : r ≠ []) (hr : EndsPlain r) (t : Text) :
    EndsPlain (t ++ r) := by
  intro h
  rw [List.getLast?_append, List.getLast?_eq_some_getLast hne, Option.some_or] at h
  exact hr ((List.getLast?_eq_some_getLast hne).trans h)

theorem endsPlain_of_cons {x : Symbol} {t : Text} (h : EndsPlain (x :: t)) : EndsPlain t := by
  rcases t with _ | ⟨y, t⟩
  · decide
  · exact h

theorem endsPlain_of_isBlankRun {t : Text} (ht : IsBlankRun t) : EndsPlain t :=
  fun h => absurd (ht _ (List.mem_of_getLast? h)) (by decide)

end Text

namespace Tail

open Text

/-- A preprocessor line, or what is left of one, ends at a line feed that no backslash escapes. -/
theorem takeEscaped_line {stop : Symbol → Bool} {w rest : Text} (hfeed : .char '\n' ∉ w)
    (hstop : ∀ x ∈ w, stop x = false) (hlast : EndsPlain w)
    (hrest : rest = [] ∨ rest.head? = some (.char '\n')) :
    takeEscaped stop (w ++ rest) = (w, rest) := by
  fun_induction takeEscaped stop w with
  | case1 =>
      rcases hrest with rfl | hrest
      · rfl
      · rcases List.head?_eq_some_iff.mp hrest with ⟨r, rfl⟩
        rw [List.nil_append, takeEscaped_cons (by decide), if_pos (Or.inl rfl)]
  | case2 x w ih =>
      simp only [List.mem_cons, not_or] at hfeed
      have htail := ih hfeed.2.2
        (fun y hy => hstop y (List.mem_cons_of_mem _ (List.mem_cons_of_mem _ hy)))
        (endsPlain_of_cons (endsPlain_of_cons hlast))
      simp only [List.cons_append, takeEscaped, htail]
  | case3 x w hnot hx =>
      -- The symbol would have to be a last backslash, a line feed or one that stops the scan.
      rcases hx with rfl | rfl | hx
      · rcases w with _ | ⟨y, w⟩
        · exact absurd rfl hlast
        · exact absurd rfl (hnot y w rfl)
      · exact absurd List.mem_cons_self hfeed
      · rw [hstop x List.mem_cons_self] at hx
        exact absurd hx Bool.false_ne_true
  | case4 x w hnot hx ih =>
      rw [not_or] at hx
      rw [List.mem_cons, not_or] at hfeed
      have htail := ih hfeed.2 (fun y hy => hstop y (List.mem_cons_of_mem _ hy))
        (endsPlain_of_cons hlast)
      rw [List.cons_append, takeEscaped_cons hx.1, if_neg hx.2, htail]

/-- A line comment takes all that is left of its line. -/
theorem run_line {w rest : Text} (hw : .char '\n' ∉ w)
    (hrest : rest = [] ∨ rest.head? = some (.char '\n')) :
    (run (· != .char '\n')).take (w ++ rest) = (w, rest) := by
  have hall : ∀ x ∈ w, (x != .char '\n') = true := by
    intro x hx
    rw [bne_iff_ne]
    rintro rfl
    exact hw hx
  refine take_eq_iff.mpr ?_
  rw [show ((run (· != .char '\n')).take (w ++ rest)).1 =
    (w ++ rest).takeWhile (· != .char '\n') from rfl, List.takeWhile_append_of_pos hall]
  rcases hrest with rfl | hrest
  · simp
  · rcases List.head?_eq_some_iff.mp hrest with ⟨r, rfl⟩
    simp

/-- A comment goes on through a text that does not close it. -/
theorem takeBlock_append_of_open {v w : Text} (hv : hasPart "*/" v = false)
    (hw : w.head? ≠ some (.char '/')) :
    takeBlock (v ++ w) = (v ++ (takeBlock w).1, (takeBlock w).2) := by
  induction v with
  | nil => rfl
  | cons x v ih =>
      rw [hasPart, Bool.or_eq_false_iff] at hv
      -- No end of a comment starts here: not inside `v`, and not where it meets `w`.
      have hstep : takeBlock (x :: (v ++ w)) =
          (x :: (takeBlock (v ++ w)).1, (takeBlock (v ++ w)).2) := by
        rw [takeBlock]
        intro r hx hr
        rcases v with _ | ⟨y, v⟩
        · rw [List.nil_append] at hr
          exact hw (by rw [hr]; rfl)
        · rw [hx, (List.cons.inj hr).1] at hv
          exact absurd hv.1 (by simp [Text.ofString, List.isPrefixOf])
      rw [List.cons_append, hstep, ih hv.2]
      rfl

theorem takeBlock_of_open {v : Text} (hv : hasPart "*/" v = false) : takeBlock v = (v, []) := by
  have htake := takeBlock_append_of_open (w := []) hv (by decide)
  rw [List.append_nil] at htake
  rw [htake]
  exact congrArg (·, []) (List.append_nil v)

end Tail

namespace Text

/-- The text, on a line of code, is read as nothing up to the end of the line. -/
def IsDropped (lineStart : Bool) (b : Text) : Prop :=
  ∀ u, StartsEnded u → readings lineStart (b ++ u) = readings true u

/-- The text, on a line inside a comment, does not end the comment. -/
def IsHidden (b : Text) : Prop :=
  ∀ lineStart u, StartsEnded u →
    (Context.comment lineStart).readings (b ++ u) = (Context.comment lineStart).readings u

/-- The text, on a line inside a comment, ends the comment and is read as nothing. -/
def IsClosing (b : Text) : Prop :=
  ∀ lineStart u, StartsEnded u → (Context.comment lineStart).readings (b ++ u) = readings true u

/-- The text ends a preprocessor line that goes on with it. -/
def IsContinued (b : Text) : Prop :=
  ∀ u, StartsEnded u → Context.directive.readings (b ++ u) = readings true u

variable {lineStart : Bool} {b v : Text}

/-- What is left of a preprocessor line ends with the line. -/
theorem readings_directive_take (hfeed : .char '\n' ∉ v) (hlast : EndsPlain v)
    {u : Text} (hu : StartsEnded u) :
    readings true (Tail.directive.take (v ++ u)).2 = readings true u := by
  rcases hu with ⟨cr, rest, rfl, hcr, hrest⟩
  have htake : Tail.directive.take (v ++ (cr ++ rest)) = (v ++ cr, rest) := by
    rw [← List.append_assoc]
    refine Tail.takeEscaped_line ?_ (fun _ _ => rfl) ?_ hrest
    · intro h
      rcases List.mem_append.mp h with h | h
      · exact hfeed h
      · exact absurd (hcr _ h) (by decide)
    · refine endsPlain_append hlast fun h => ?_
      exact absurd (hcr _ (List.mem_of_getLast? h)) (by decide)
  rw [htake, readings_blanks_append (isInnerBlank_of_return hcr)]

theorem isContinued_of_noFeed (hfeed : .char '\n' ∉ v) (hlast : EndsPlain v) :
    IsContinued v := by
  intro u hu
  rw [Context.readings_directive, readings_directive_take hfeed hlast hu]

theorem isDropped_directive (hfeed : .char '\n' ∉ v) (hlast : EndsPlain v) :
    IsDropped true (.char '#' :: v) := by
  intro u hu
  rw [List.cons_append, readings_eq_append (.directive rfl rfl)]
  exact readings_directive_take hfeed hlast hu

theorem isDropped_lineComment (hfeed : .char '\n' ∉ v) : IsDropped lineStart ("//" ++ v) := by
  intro u hu
  rcases hu with ⟨cr, rest, rfl, hcr, hrest⟩
  have hline : .char '\n' ∉ v ++ cr := by
    intro h
    rcases List.mem_append.mp h with h | h
    · exact hfeed h
    · exact absurd (hcr _ h) (by decide)
  have htake := Tail.run_line hline hrest
  rw [List.append_assoc] at htake
  have hread : Lexeme.Reads lineStart (("//" : Text) ++ v ++ (cr ++ rest)) _ rest :=
    .lineComment htake
  have hrest' : StartsEnded rest := ⟨[], rest, rfl, fun x hx => absurd hx List.not_mem_nil, hrest⟩
  rw [readings_eq_append hread, readings_blanks_append (isInnerBlank_of_return hcr)]
  exact hrest'.readings_eq _

theorem isDropped_blanks (hb : IsBlankRun b) : IsDropped lineStart b := by
  intro u hu
  rw [readings_blanks_append (isInnerBlank_of_isBlankRun hb), hu.readings_eq]

theorem IsDropped.indent (h : IsDropped lineStart v) (hb : IsBlankRun b) :
    IsDropped lineStart (b ++ v) := by
  intro u hu
  rw [List.append_assoc, readings_blanks_append (isInnerBlank_of_isBlankRun hb), h u hu]

/-- What closes a comment is what stands before the first end of one. -/
theorem takeBlock_close (hv : hasPart "*/" v = false) (r : Text) :
    Tail.takeBlock (v ++ ("*/" ++ r)) = (v ++ "*/", r) :=
  Tail.takeBlock_append_of_open hv fun h => absurd (Option.some.inj h) (by decide)

theorem isDropped_blockComment (hv : hasPart "*/" v = false) (hb : IsBlankRun b) :
    IsDropped lineStart ("/*" ++ (v ++ ("*/" ++ b))) := by
  intro u hu
  have hread : Lexeme.Reads lineStart (("/*" : Text) ++ (v ++ ("*/" ++ (b ++ u)))) _ (b ++ u) :=
    .blockComment (takeBlock_close hv (b ++ u))
  simp only [List.append_assoc]
  rw [readings_eq_append hread]
  exact isDropped_blanks hb u hu

theorem isHidden_of_hasPart (hv : hasPart "*/" v = false) : IsHidden v := by
  intro lineStart u hu
  rw [Context.readings_comment, Context.readings_comment,
    Tail.takeBlock_append_of_open hv hu.head?_ne_slash]

theorem isClosing_of_hasPart (hv : hasPart "*/" v = false) (hb : IsBlankRun b) :
    IsClosing (v ++ ("*/" ++ b)) := by
  intro lineStart u hu
  simp only [List.append_assoc]
  rw [Context.readings_comment, takeBlock_close hv]
  exact isDropped_blanks hb u hu

/-- A preprocessor line, indented and not carried over to the next line. -/
def IsDirectiveLine (k : Text) : Prop :=
  ∃ indent v : Text, IsBlankRun indent ∧ .char '\n' ∉ v ∧ EndsPlain v ∧ k = indent ++ .char '#' :: v

section Lines

variable {k e : Text} {ks : List Text}

theorem isDropped_of_isDirectiveLine (hk : IsDirectiveLine k) : IsDropped true k := by
  rcases hk with ⟨indent, v, hi, hv, hplain, rfl⟩
  exact (isDropped_directive hv hplain).indent hi

theorem isContinued_of_isDirectiveLine (hk : IsDirectiveLine k) : IsContinued k := by
  rcases hk with ⟨indent, v, hi, hv, hplain, rfl⟩
  refine isContinued_of_noFeed ?_ ?_
  · rw [List.mem_append, List.mem_cons]
    rintro (h | h | h)
    · exact noFeed_of_noLineEnd (noLineEnd_of_isBlankRun hi) h
    · exact absurd h (by decide)
    · exact hv h
  · exact endsPlain_append (endsPlain_of_isBlankRun hi)
      (endsPlain_append (t := "#") (by decide) hplain)

/-- Line ends of code start a line that is ended. -/
theorem startsEnded_append (he : ∀ x ∈ e, x.isLineEnd = true) (hfeed : .char '\n' ∉ e.dropLast)
    {r : Text} (hr : IsEnded e ∨ r = []) : StartsEnded (e ++ r) := by
  -- A line end without a line feed is made of carriage returns.
  have hreturn : ∀ s : Text, (∀ x ∈ s, x.isLineEnd = true) → .char '\n' ∉ s →
      ∀ x ∈ s, x = '\r' := by
    intro s hs hnot x hx
    have hx' := hs x hx
    rw [Symbol.isLineEnd, Bool.or_eq_true, decide_eq_true_eq, decide_eq_true_eq] at hx'
    rcases hx' with rfl | rfl
    · rfl
    · exact absurd hx hnot
  by_cases hend : IsEnded e
  · rcases List.getLast?_eq_some_iff.mp hend with ⟨cr, rfl⟩
    rw [List.dropLast_concat] at hfeed
    exact ⟨cr, .char '\n' :: r, by simp,
      hreturn cr (fun x hx => he x (List.mem_append_left _ hx)) hfeed, Or.inr rfl⟩
  · have hnil : r = [] := hr.resolve_left hend
    exact ⟨e, [], by rw [hnil], hreturn e he (noFeed_of_not_isEnded hfeed hend), Or.inl rfl⟩

theorem readings_ended (he : ∀ x ∈ e, x.isLineEnd = true) (hend : IsEnded e) (r : Text) :
    readings true (e ++ r) = readings true r := by
  induction e with
  | nil => exact absurd hend not_isEnded_nil
  | cons x e ih =>
      rcases List.forall_mem_cons.mp he with ⟨hx, he⟩
      have hstep : readings true (x :: (e ++ r)) = readings true (e ++ r) := by
        rw [Symbol.isLineEnd, Bool.or_eq_true, decide_eq_true_eq, decide_eq_true_eq] at hx
        rcases hx with rfl | rfl
        · exact readings_blank_cons rfl _
        · exact readings_eq_append (.newline _)
      by_cases hne : e = []
      · rw [hne] at hstep ⊢
        exact hstep
      · rw [List.cons_append, hstep, ih he (isEnded_of_cons hend hne)]

/-- Preprocessor lines with line feeds between them are read one by one. -/
theorem readings_join_of_isEnded {c : Context} (hc : c = .code true ∨ c = .directive)
    (hks : ∀ k ∈ ks, IsDirectiveLine k) (hne : ks ≠ [])
    (he : ∀ x ∈ e, x.isLineEnd = true) (hfeed : .char '\n' ∉ e.dropLast) (hend : IsEnded e)
    {u : Text} (hu : StartsEnded u) :
    c.readings (Text.join e ks ++ u) = readings true u := by
  induction ks generalizing c with
  | nil => exact absurd rfl hne
  | cons k ks ih =>
      rcases List.forall_mem_cons.mp hks with ⟨hk, hks⟩
      -- The first line is dropped, whether it starts a preprocessor line or goes on with one.
      have hfirst : ∀ u, StartsEnded u → c.readings (k ++ u) = readings true u := by
        intro u hu
        rcases hc with rfl | rfl
        · rw [Context.readings_code]
          exact isDropped_of_isDirectiveLine hk u hu
        · exact isContinued_of_isDirectiveLine hk u hu
      rcases ks with _ | ⟨k', ks⟩
      · rw [join_singleton]
        exact hfirst u hu
      · rw [join_cons_cons_append, List.append_assoc,
          hfirst _ (startsEnded_append he hfeed (Or.inl hend)), readings_ended he hend,
          ← Context.readings_code]
        exact ih (Or.inl rfl) hks (List.cons_ne_nil k' ks)

/-- Preprocessor lines with carriage returns between them are one. -/
theorem isDirectiveLine_join (hks : ∀ k ∈ ks, IsDirectiveLine k) (hne : ks ≠ [])
    (hfeed : .char '\n' ∉ e) : IsDirectiveLine (Text.join e ks) := by
  induction ks with
  | nil => exact absurd rfl hne
  | cons k ks ih =>
      rcases List.forall_mem_cons.mp hks with ⟨hk, hrest⟩
      rcases ks with _ | ⟨k', ks⟩
      · rw [join_singleton]
        exact hk
      · rcases hk with ⟨indent, v, hi, hv, _, rfl⟩
        rcases ih hrest (List.cons_ne_nil k' ks) with ⟨indent', v', hi', hv', hplain', hjoin⟩
        have hshape := join_cons_cons_append e (indent ++ .char '#' :: v) k' ks []
        rw [List.append_nil, List.append_nil, hjoin] at hshape
        -- The joined lines are one directive: the first line opens it and the last one ends it.
        refine ⟨indent, v ++ (e ++ (indent' ++ .char '#' :: v')), hi, ?_, ?_, ?_⟩
        · simp only [List.mem_append, List.mem_cons, not_or]
          exact ⟨hv, hfeed, noFeed_of_noLineEnd (noLineEnd_of_isBlankRun hi'), by decide, hv'⟩
        · have htail : EndsPlain (.char '#' :: v') :=
            endsPlain_append (t := "#") (by decide) hplain'
          rw [← List.append_assoc, ← List.append_assoc]
          exact endsPlain_append_of_ne_nil (List.cons_ne_nil _ _) htail _
        · rw [hshape]
          simp

end Lines

end Text

end DialectBuild
