import DialectBuild.Import.Expansion
import DialectBuild.Proofs.DirectiveFree
import DialectBuild.Proofs.Outcome

/-!
# Texts That Need No Expansion

A text is settled if it has neither directives nor markers. Stripping and expanding leave
such a text as it is, and what expansion makes of any text without directives is settled.

The second half has to look at everything that expansion writes. An include line and a remark
are recognized by how they start: after the blanks comes `#include` or `/* czbuild`, and no
directive and no marker starts like that. This settles a line whatever follows on it, which is
needed because the include lines that stand for a marker are joined by the line end that the
marker had. If that is a carriage return, they all become one line of code.

## Main definitions

* `Text.IsSettled`: A text without directives and markers.
* `ExpandedLine.Becomes`: What a line can become.
* `Path.IsQuotable`: A name that can stand between quotes on a line.

## Theorems

* `Text.splitEnding_append`: The line end of a line.
* `ExpandedLine.becomes_of_ofLine`: Expansion does one of six things to a line.
* `Expansion.isSettled_text`: Expansion settles a text.
* `Expansion.ofText_of_isSettled`: A settled text is not changed.
-/

namespace DialectBuild

namespace Text

theorem trimEnd_append_of_all {p : Symbol → Bool} (t : Text) {e : Text} (he : ∀ x ∈ e, p x = true) :
    trimEnd p (t ++ e) = trimEnd p t := by
  rw [trimEnd, trimEnd, List.reverse_append, List.dropWhile_append_of_pos]
  exact fun x hx => he x (List.mem_reverse.mp hx)

theorem mem_of_mem_trimEnd {p : Symbol → Bool} {t : Text} {x : Symbol} (h : x ∈ trimEnd p t) :
    x ∈ t := by
  rw [trimEnd, List.mem_reverse] at h
  exact List.mem_reverse.mp ((List.dropWhile_suffix p).subset h)

theorem trimEnd_of_last {p : Symbol → Bool} {t : Text} (ht : ∀ x ∈ t.getLast?, p x = false) :
    trimEnd p t = t := by
  rcases List.eq_nil_or_concat t with rfl | ⟨b, x, rfl⟩
  · rfl
  · rw [List.concat_eq_append] at ht ⊢
    rw [trimEnd, List.reverse_append, List.reverse_singleton, List.singleton_append,
      List.dropWhile_cons, ht x List.getLast?_concat, if_neg Bool.false_ne_true,
      List.reverse_cons, List.reverse_reverse]

/-- Nothing before a symbol that stays is taken away. -/
theorem trimEnd_append_of_last {p : Symbol → Bool} {t : Text}
    (ht : ∀ x ∈ t.getLast?, p x = false) (r : Text) : trimEnd p (t ++ r) = t ++ trimEnd p r := by
  have hself := trimEnd_of_last ht
  rw [trimEnd] at hself
  rw [trimEnd, trimEnd, List.reverse_append, List.dropWhile_append]
  by_cases hr : (r.reverse.dropWhile p).isEmpty = true
  · rw [if_pos hr, hself, List.isEmpty_iff.mp hr, List.reverse_nil, List.append_nil]
  · rw [if_neg hr, List.reverse_append, List.reverse_reverse]

/-- A body that does not end a line, followed by line ends, is split there. -/
theorem splitEnding_append {b e : Text} (hb : ∀ x ∈ b.getLast?, x.isLineEnd = false)
    (he : ∀ x ∈ e, x.isLineEnd = true) : splitEnding (b ++ e) = (b, e) := by
  rw [splitEnding, trimEnd_append_of_all b he, trimEnd_of_last hb, List.drop_left]

theorem splitEnding_eq (t : Text) :
    ∃ b e, t = b ++ e ∧ t.splitEnding = (b, e) ∧ (∀ x ∈ e, x.isLineEnd = true) ∧
      ∀ x ∈ b.getLast?, x.isLineEnd = false := by
  -- Seen from the back, the ending is the longest run of line ends.
  have happ := congrArg List.reverse
    (List.takeWhile_append_dropWhile (p := Symbol.isLineEnd) (l := t.reverse))
  rw [List.reverse_append, List.reverse_reverse] at happ
  have he : ∀ x ∈ (t.reverse.takeWhile Symbol.isLineEnd).reverse, x.isLineEnd = true := by
    intro x hx
    exact List.all_eq_true.mp List.all_takeWhile x (List.mem_reverse.mp hx)
  have hb : ∀ x ∈ (t.reverse.dropWhile Symbol.isLineEnd).reverse.getLast?,
      x.isLineEnd = false := by
    intro x hx
    have h := List.head?_dropWhile_not Symbol.isLineEnd t.reverse
    rw [List.getLast?_reverse] at hx
    rw [hx] at h
    exact h
  refine ⟨_, _, happ.symm, ?_, he, hb⟩
  conv => lhs; rw [← happ]
  exact splitEnding_append hb he

/-- A line is split into a body without line feeds and its line ends. -/
theorem splitEnding_of_codeLines {l : Text} (hline : codeLines l = [l]) :
    ∃ b e, l = b ++ e ∧ l.splitEnding = (b, e) ∧ .char '\n' ∉ b ∧
      (∀ x ∈ e, x.isLineEnd = true) ∧ .char '\n' ∉ e.dropLast := by
  rcases splitEnding_eq l with ⟨b, e, hl, hsplit, he, hb⟩
  have hdrop := noFeed_dropLast_of_codeLines hline
  by_cases hempty : e = []
  · refine ⟨b, e, hl, hsplit, ?_, he, by simp [hempty]⟩
    rw [hl, hempty, List.append_nil] at hdrop
    refine noFeed_of_not_isEnded hdrop fun hend => ?_
    exact absurd (hb _ hend) (by decide)
  · rw [hl, List.dropLast_append_of_ne_nil hempty, List.mem_append, not_or] at hdrop
    exact ⟨b, e, hl, hsplit, hdrop.1, he, hdrop.2⟩

/-- What follows a body without line feeds ends the line, if anything does. -/
theorem isEnded_of_append {b e : Text} (hb : .char '\n' ∉ b) (h : IsEnded (b ++ e)) :
    IsEnded e := by
  by_cases hempty : e = []
  · rw [hempty, List.append_nil] at h
    exact absurd (List.mem_of_getLast? h) hb
  · exact (isEnded_append_iff hempty).mp h

theorem noLineEnd_of_isBlankRun {t : Text} (ht : IsBlankRun t) : NoLineEnd t := by
  intro x hx
  rcases Directive.isSpaceOrTab_iff.mp (ht x hx) with rfl | rfl
  · rfl
  · rfl

/-- How the lines start that expansion and injection write. -/
def IsLead (t : Text) : Prop :=
  t = "#include" ∨ t = "/* czbuild"

/-- The text starts like a line that expansion or injection writes. -/
def IsWritten (t : Text) : Prop :=
  ∃ indent lead r : Text, IsBlankRun indent ∧ IsLead lead ∧ t = indent ++ (lead ++ r)

theorem isWritten_append {t : Text} (ht : IsWritten t) (r : Text) : IsWritten (t ++ r) := by
  rcases ht with ⟨indent, lead, u, hi, hlead, rfl⟩
  exact ⟨indent, lead, u ++ r, hi, hlead, by simp only [List.append_assoc]⟩

theorem startsDark_lead {lead : Text} (h : IsLead lead) (r : Text) : StartsDark (lead ++ r) := by
  rcases h with rfl | rfl
  · exact startsDark_cons.mpr rfl
  · exact startsDark_cons.mpr rfl

theorem isDirective_of_isWritten {t : Text} (ht : IsWritten t) : isDirective t = false := by
  rcases ht with ⟨indent, lead, r, hi, hlead, rfl⟩
  rw [isDirective, Directive.afterMark?, skipBlanks_append hi (startsDark_lead hlead r)]
  rcases hlead with rfl | rfl
  · rfl
  · rfl

/-- No marker starts like a line that is written: after the sign or the start of a comment
    stands another word. -/
theorem marker_of_isWritten {t : Text} (ht : IsWritten t) : Marker.ofLine? t = none := by
  rcases ht with ⟨indent, lead, r, hi, hlead, rfl⟩
  rw [Marker.ofLine?, skipBlanks_append hi (startsDark_lead hlead r)]
  rcases hlead with rfl | rfl
  · rfl
  · rfl

theorem isWritten_splitEnding {t : Text} (ht : IsWritten t) : IsWritten t.splitEnding.1 := by
  rcases ht with ⟨indent, lead, r, hi, hlead, rfl⟩
  refine ⟨indent, lead, trimEnd Symbol.isLineEnd r, hi, hlead, ?_⟩
  rw [splitEnding, ← List.append_assoc, trimEnd_append_of_last, List.append_assoc]
  intro x hx
  rw [List.getLast?_append] at hx
  rcases hlead with rfl | rfl
  · have hlast : .char 'e' = x := Option.some.inj hx
    rw [← hlast]
    rfl
  · have hlast : .char 'd' = x := Option.some.inj hx
    rw [← hlast]
    rfl

theorem ne_nil_of_isWritten {t : Text} (ht : IsWritten t) : t ≠ [] := by
  rcases ht with ⟨indent, lead, r, _, rfl | rfl, rfl⟩
  · exact List.append_ne_nil_of_right_ne_nil indent (List.cons_ne_nil _ _)
  · exact List.append_ne_nil_of_right_ne_nil indent (List.cons_ne_nil _ _)

/-- The text has neither directives nor markers. -/
def IsSettled (t : Text) : Prop :=
  IsDirectiveFree t ∧ ∀ l ∈ codeLines t, Marker.ofLine? l.splitEnding.1 = none

theorem isSettled_nil : IsSettled [] :=
  ⟨isDirectiveFree_nil, fun _ hl => absurd hl List.not_mem_nil⟩

theorem isSettled_append {t r : Text} (hend : IsEnded t) (ht : IsSettled t) (hr : IsSettled r) :
    IsSettled (t ++ r) := by
  constructor
  · refine isDirectiveFree_append ?_ ht.1 hr.1
    intro x hx
    rw [hend, Option.mem_some_iff] at hx
    rw [← hx]
    rfl
  · rw [codeLines_append_of_isEnded hend]
    intro l hl
    rcases List.mem_append.mp hl with hl | hl
    · exact ht.2 l hl
    · exact hr.2 l hl

/-- It is enough to look at each code line. -/
theorem isSettled_iff_codeLines {t : Text} : IsSettled t ↔ ∀ l ∈ codeLines t, IsSettled l := by
  constructor
  · intro ht l hl
    refine ⟨isDirectiveFree_iff_codeLines.mp ht.1 l hl, ?_⟩
    rw [codeLines_of_mem hl, List.forall_mem_singleton]
    exact ht.2 l hl
  · intro h
    refine ⟨isDirectiveFree_iff_codeLines.mpr (fun l hl => (h l hl).1), fun l hl => ?_⟩
    refine (h l hl).2 l ?_
    rw [codeLines_of_mem hl]
    exact List.mem_singleton_self l

/-- Written lines that are joined by line ends are settled, whether they stay lines of their
    own or are joined to one. -/
theorem isSettled_of_isWritten {t : Text} (ht : IsWritten t) (hfree : IsDirectiveFree t)
    (hline : codeLines t = [t]) : IsSettled t := by
  refine ⟨hfree, ?_⟩
  rw [hline, List.forall_mem_singleton]
  exact marker_of_isWritten (isWritten_splitEnding ht)

theorem isDirectiveFree_of_isWritten {t e : Text} (hline : NoLineEnd t) (ht : IsWritten t)
    (he : ∀ x ∈ e, x.isLineEnd = true) : IsDirectiveFree (t ++ e) :=
  isDirectiveFree_append_lineEnds
    (isDirectiveFree_of_noLineEnd hline (isDirective_of_isWritten ht)) he

/-- A written line is settled, with line ends after it or without. -/
theorem isSettled_append_lineEnds {k e : Text} (hline : NoLineEnd k) (hk : IsWritten k)
    (he : ∀ x ∈ e, x.isLineEnd = true) (hfeed : .char '\n' ∉ e.dropLast) : IsSettled (k ++ e) := by
  refine isSettled_of_isWritten (isWritten_append hk e) (isDirectiveFree_of_isWritten hline hk he)
    (codeLines_of_noFeed_dropLast ?_ ?_)
  · exact List.append_ne_nil_of_left_ne_nil (ne_nil_of_isWritten hk) e
  · by_cases hempty : e = []
    · rw [hempty, List.append_nil]
      exact fun h => noFeed_of_noLineEnd hline (List.dropLast_subset k h)
    · rw [List.dropLast_append_of_ne_nil hempty]
      intro h
      rcases List.mem_append.mp h with h | h
      · exact noFeed_of_noLineEnd hline h
      · exact hfeed h

theorem join_cons_cons_append (b k k' : Text) (ks : List Text) (e : Text) :
    Text.join b (k :: k' :: ks) ++ e = (k ++ b) ++ (Text.join b (k' :: ks) ++ e) := by
  simp only [Text.join, List.intercalate_cons_cons, List.append_assoc]

theorem join_singleton (b k : Text) : Text.join b [k] = k :=
  List.intercalate_singleton

/-- Written lines with line feeds between them stay lines of their own. -/
theorem isSettled_join_of_isEnded {ks : List Text} (hks : ∀ k ∈ ks, NoLineEnd k ∧ IsWritten k)
    (hne : ks ≠ []) {b e : Text} (hb : ∀ x ∈ b, x.isLineEnd = true)
    (hbfeed : .char '\n' ∉ b.dropLast)
    (hend : IsEnded b) (he : ∀ x ∈ e, x.isLineEnd = true) (hfeed : .char '\n' ∉ e.dropLast) :
    IsSettled (Text.join b ks ++ e) := by
  -- The last text has the ending `e`, those before it the ending `b`.
  induction ks with
  | nil => exact absurd rfl hne
  | cons k ks ih =>
      rcases List.forall_mem_cons.mp hks with ⟨⟨hline, hk⟩, hks⟩
      cases ks with
      | nil =>
          rw [join_singleton]
          exact isSettled_append_lineEnds hline hk he hfeed
      | cons k' ks =>
          rw [join_cons_cons_append]
          refine isSettled_append ?_ (isSettled_append_lineEnds hline hk hb hbfeed)
            (ih hks (List.cons_ne_nil k' ks))
          exact (isEnded_append_iff (fun h => not_isEnded_nil (h ▸ hend))).mpr hend

/-- Written lines with carriage returns after each of them become one line of code. -/
theorem isSettled_join_of_noFeed {ks : List Text} (hks : ∀ k ∈ ks, NoLineEnd k ∧ IsWritten k)
    (hne : ks ≠ []) {e : Text} (he : ∀ x ∈ e, x.isLineEnd = true) (hempty : e ≠ [])
    (hfeed : .char '\n' ∉ e) : IsSettled (Text.join e ks ++ e) := by
  have hends : ∀ k, EndsLine (k ++ e) := by
    intro k
    rw [endsLine_append hempty]
    exact fun x hx => he x (List.mem_of_getLast? hx)
  -- No line feed stands between the lines, so they are one line that starts as the first does.
  have hwhole : IsWritten (Text.join e ks ++ e) ∧ IsDirectiveFree (Text.join e ks ++ e) ∧
      .char '\n' ∉ Text.join e ks ++ e := by
    induction ks with
    | nil => exact absurd rfl hne
    | cons k ks ih =>
        rcases List.forall_mem_cons.mp hks with ⟨⟨hline, hk⟩, hks⟩
        have hfree := isDirectiveFree_of_isWritten hline hk he
        have hkfeed : .char '\n' ∉ k ++ e :=
          fun h => (List.mem_append.mp h).elim (noFeed_of_noLineEnd hline) hfeed
        cases ks with
        | nil =>
            rw [join_singleton]
            exact ⟨isWritten_append hk e, hfree, hkfeed⟩
        | cons k' ks =>
            rcases ih hks (List.cons_ne_nil k' ks) with ⟨_, hrest, hrestfeed⟩
            rw [join_cons_cons_append]
            refine ⟨isWritten_append (isWritten_append hk e) _, ?_, ?_⟩
            · exact isDirectiveFree_append (hends k) hfree hrest
            · exact fun h => (List.mem_append.mp h).elim hkfeed hrestfeed
  refine isSettled_of_isWritten hwhole.1 hwhole.2.1 (codeLines_of_noFeed hwhole.2.2 ?_)
  exact ne_nil_of_isWritten hwhole.1

end Text

namespace Marker

open Text

theorem isPathSymbol_of_request? {t p r : Text} (h : request? t = some (p, r)) :
    ∀ x ∈ p, isPathSymbol x = true := by
  simp only [request?, bind, Option.bind_eq_some_iff, pure, Option.some.injEq, Prod.mk.injEq] at h
  rcases h with ⟨_, _, _, _, _, _, t, _, _, _, rfl, _⟩
  exact List.all_eq_true.mp List.all_takeWhile

theorem isPathSymbol_of_ofLine? {line : Text} {m : Marker} (h : ofLine? line = some m) :
    ∀ x ∈ m.modulePath, isPathSymbol x = true := by
  simp only [ofLine?, bind, Option.bind_eq_some_iff, pure, Option.some.injEq] at h
  rcases h with ⟨⟨p, r⟩, hread, _, _, rfl⟩
  -- The request stands in a block comment, in a line comment or by itself.
  rcases hblock : blockRequest? line.skipBlanks with _ | q
  · rw [hblock] at hread
    rcases hline : lineRequest? line.skipBlanks with _ | q
    · rw [hline] at hread
      exact isPathSymbol_of_request? hread
    · rw [hline] at hread
      rw [Option.some.inj hread] at hline
      simp only [lineRequest?, bind, Option.bind_eq_some_iff] at hline
      rcases hline with ⟨t, _, h⟩
      exact isPathSymbol_of_request? h
  · rw [hblock] at hread
    rw [Option.some.inj hread] at hblock
    simp only [blockRequest?, bind, Option.bind_eq_some_iff, pure, Option.some.injEq,
      Prod.mk.injEq] at hblock
    rcases hblock with ⟨_, _, ⟨p, r⟩, h, _, _, rfl, _⟩
    exact isPathSymbol_of_request? h

theorem isBlankRun_indent {line : Text} {m : Marker} (h : ofLine? line = some m) :
    IsBlankRun m.indent := by
  simp only [ofLine?, bind, Option.bind_eq_some_iff, pure, Option.some.injEq] at h
  rcases h with ⟨_, _, _, _, rfl⟩
  exact List.all_eq_true.mp List.all_takeWhile

theorem noLineEnd_of_isPathSymbol {t : Text} (h : ∀ x ∈ t, isPathSymbol x = true) :
    NoLineEnd t := by
  intro x hx
  have hp := h x hx
  rw [isPathSymbol, Bool.and_eq_true, Bool.not_eq_true'] at hp
  exact hp.2

end Marker

/-- The name of the path can stand between quotes on a line. -/
def Path.IsQuotable (p : Path) : Prop :=
  ∀ x ∈ p.name, x ≠ '\x22' ∧ x ≠ '\r' ∧ x ≠ '\n'

instance (p : Path) : Decidable p.IsQuotable :=
  inferInstanceAs (Decidable (∀ x ∈ p.name, x ≠ '\x22' ∧ x ≠ '\r' ∧ x ≠ '\n'))

theorem Path.isPathSymbol_of_isQuotable {p : Path} (h : p.IsQuotable) :
    ∀ x ∈ p.name, Marker.isPathSymbol x = true := by
  intro x hx
  rcases h x hx with ⟨hq, hr, hn⟩
  rw [Marker.isPathSymbol, bne_iff_ne.mpr hq, Symbol.isLineEnd, decide_eq_false hr,
    decide_eq_false hn]
  rfl

theorem Path.IsQuotable.noLineEnd {p : Path} (h : p.IsQuotable) : Text.NoLineEnd p.name :=
  Marker.noLineEnd_of_isPathSymbol (isPathSymbol_of_isQuotable h)

namespace ExpandedLine

open Text

/-- What a line can become: it stays what it is if it is no marker, and a marker becomes a
    remark or the include lines of the directory it names. -/
inductive Becomes (f : Files) (base : Path) (known : List Place) (n : Nat) (source : Text) :
    ExpandedLine → Prop where
  | plain (hm : Marker.ofLine? source.splitEnding.1 = none) :
      Becomes f base known n source { text := source }
  | blank {m : Marker} (hm : Marker.ofLine? source.splitEnding.1 = some m)
      (hb : m.modulePath.all Symbol.isBlank = true) :
      Becomes f base known n source {
        text := remark m.indent [] "empty module path" ++ source.splitEnding.2
        request := some { modulePath := m.modulePath, line := n } }
  | again {m : Marker} {place : Place} (hm : Marker.ofLine? source.splitEnding.1 = some m)
      (hb : m.modulePath.all Symbol.isBlank = false)
      (hp : f.resolve (base.join (Path.ofText m.modulePath)) = .ok place) (hk : place ∈ known) :
      Becomes f base known n source {
        text := remark m.indent m.modulePath "already imported" ++ source.splitEnding.2 }
  | missing {m : Marker} {place : Place} (hm : Marker.ofLine? source.splitEnding.1 = some m)
      (hb : m.modulePath.all Symbol.isBlank = false)
      (hp : f.resolve (base.join (Path.ofText m.modulePath)) = .ok place) (hk : place ∉ known)
      (hd : f.isDir (base.join (Path.ofText m.modulePath)) = .ok false) :
      Becomes f base known n source {
        text := remark m.indent m.modulePath "directory not found" ++ source.splitEnding.2
        request := some { modulePath := m.modulePath, line := n }
        directory := some place
        notice := some (importWarning { modulePath := m.modulePath, line := n }
          ("directory not found: " ++ (base.join (Path.ofText m.modulePath)).text)) }
  | bare {m : Marker} {place : Place} (hm : Marker.ofLine? source.splitEnding.1 = some m)
      (hb : m.modulePath.all Symbol.isBlank = false)
      (hp : f.resolve (base.join (Path.ofText m.modulePath)) = .ok place) (hk : place ∉ known)
      (hd : f.isDir (base.join (Path.ofText m.modulePath)) = .ok true)
      (hh : f.headersIn (base.join (Path.ofText m.modulePath)) = .ok []) :
      Becomes f base known n source {
        text := remark m.indent m.modulePath "no headers found" ++ source.splitEnding.2
        request := some { modulePath := m.modulePath, line := n }
        directory := some place
        notice := some (importWarning { modulePath := m.modulePath, line := n }
          ("no headers found in " ++ (base.join (Path.ofText m.modulePath)).text)) }
  | found {m : Marker} {place : Place} {headers : List Path}
      (hm : Marker.ofLine? source.splitEnding.1 = some m)
      (hb : m.modulePath.all Symbol.isBlank = false)
      (hp : f.resolve (base.join (Path.ofText m.modulePath)) = .ok place) (hk : place ∉ known)
      (hd : f.isDir (base.join (Path.ofText m.modulePath)) = .ok true)
      (hh : f.headersIn (base.join (Path.ofText m.modulePath)) = .ok headers)
      (hne : headers ≠ []) :
      Becomes f base known n source {
        text := includeLines m.indent m.modulePath source.splitEnding.2 headers ++
          source.splitEnding.2
        request := some { modulePath := m.modulePath, line := n, headers := headers }
        directory := some place }

/-- Expansion does one of six things to a line. -/
theorem becomes_of_ofLine {f : Files} {base : Path} {known : List Place} {n : Nat} {source : Text}
    {x : ExpandedLine} (h : ofLine f base known n source = .ok x) :
    Becomes f base known n source x := by
  unfold ofLine at h
  dsimp only at h
  -- One check after the other; each that ends the treatment gives a kind of its own.
  rcases hm : Marker.ofLine? source.splitEnding.1 with _ | m
  · rw [hm] at h
    rw [← Outcome.pure_eq_ok_iff.mp h]
    exact Becomes.plain hm
  · rw [hm] at h
    dsimp only at h
    by_cases hb : m.modulePath.all Symbol.isBlank = true
    · rw [if_pos hb] at h
      rw [← Outcome.pure_eq_ok_iff.mp h]
      exact Becomes.blank hm hb
    · rw [if_neg hb, Outcome.bind_eq_ok_iff] at h
      rw [Bool.not_eq_true] at hb
      rcases h with ⟨place, hp, h⟩
      by_cases hk : place ∈ known
      · rw [if_pos (List.contains_iff_mem.mpr hk)] at h
        rw [← Outcome.pure_eq_ok_iff.mp h]
        exact Becomes.again hm hb hp hk
      · rw [if_neg (mt List.contains_iff_mem.mp hk), Outcome.bind_eq_ok_iff] at h
        rcases h with ⟨y, hy, h⟩
        rw [← Outcome.pure_eq_ok_iff.mp h]
        unfold Marker.expand at hy
        dsimp only at hy
        rw [Outcome.bind_eq_ok_iff] at hy
        rcases hy with ⟨d, hd, hy⟩
        cases d with
        | false =>
            rw [Bool.not_false, if_pos rfl] at hy
            rw [← Outcome.pure_eq_ok_iff.mp hy]
            exact Becomes.missing hm hb hp hk hd
        | true =>
            rw [Bool.not_true, if_neg Bool.false_ne_true, Outcome.bind_eq_ok_iff] at hy
            rcases hy with ⟨headers, hh, hy⟩
            by_cases hempty : headers.isEmpty = true
            · rw [if_pos hempty] at hy
              rw [← Outcome.pure_eq_ok_iff.mp hy]
              exact Becomes.bare hm hb hp hk hd (List.isEmpty_iff.mp hempty ▸ hh)
            · rw [if_neg hempty] at hy
              rw [← Outcome.pure_eq_ok_iff.mp hy]
              exact Becomes.found hm hb hp hk hd hh (fun h => hempty (List.isEmpty_iff.mpr h))

theorem isWritten_remark {indent : Text} (hi : IsBlankRun indent) (path reason : Text) :
    IsWritten (remark indent path reason) := by
  refine ⟨indent, "/* czbuild",
    ": #import \"" ++ path ++ "\" - " ++ reason ++ " */", hi, Or.inr rfl, ?_⟩
  simp only [remark, List.append_assoc]
  rfl

theorem noLineEnd_remark {indent path reason : Text} (hi : IsBlankRun indent)
    (hp : NoLineEnd path) (hr : NoLineEnd reason) : NoLineEnd (remark indent path reason) := by
  simp only [remark, noLineEnd_append]
  exact ⟨⟨⟨⟨⟨noLineEnd_of_isBlankRun hi, by decide⟩, hp⟩, by decide⟩, hr⟩, by decide⟩

/-- The include lines of a directory are written lines. -/
theorem isWritten_includeLine {indent path : Text} (hi : IsBlankRun indent) (hp : NoLineEnd path)
    {h : Path} (hname : NoLineEnd h.name) :
    NoLineEnd (indent ++ "#include \"" ++ path ++ "/" ++ h.name ++ "\"") ∧
      IsWritten (indent ++ "#include \"" ++ path ++ "/" ++ h.name ++ "\"") := by
  constructor
  · simp only [noLineEnd_append]
    exact ⟨⟨⟨⟨⟨noLineEnd_of_isBlankRun hi, by decide⟩, hp⟩, by decide⟩, hname⟩, by decide⟩
  · refine ⟨indent, "#include", " \"" ++ path ++ "/" ++ h.name ++ "\"", hi, Or.inl rfl, ?_⟩
    simp only [List.append_assoc]
    rfl

theorem isSettled_includeLines {indent path e : Text} (hi : IsBlankRun indent)
    (hp : NoLineEnd path) {headers : List Path} (hne : headers ≠ [])
    (hq : ∀ h ∈ headers, NoLineEnd h.name) (he : ∀ x ∈ e, x.isLineEnd = true)
    (hfeed : .char '\n' ∉ e.dropLast) : IsSettled (includeLines indent path e headers ++ e) := by
  have hpath : NoLineEnd (trimEnd (· == .char '/') path) :=
    fun x hx => hp x (mem_of_mem_trimEnd hx)
  rw [includeLines]
  generalize hks : headers.map (fun h => indent ++ ("#include \"" : Text) ++
    trimEnd (· == .char '/') path ++ "/" ++ h.name ++ "\"") = ks
  have hwritten : ∀ k ∈ ks, NoLineEnd k ∧ IsWritten k := by
    intro k hk
    rw [← hks] at hk
    rcases List.mem_map.mp hk with ⟨h, hh, rfl⟩
    exact isWritten_includeLine hi hpath (hq h hh)
  have hksne : ks ≠ [] := by
    rw [← hks]
    exact fun h => hne (List.map_eq_nil_iff.mp h)
  -- A line without an end stands last, and its includes are parted by line feeds.
  by_cases hempty : e = []
  · rw [hempty]
    refine isSettled_join_of_isEnded hwritten hksne ?_ (by decide) rfl (by decide) (by decide)
    decide
  · rw [if_neg (fun h => hempty (List.isEmpty_iff.mp h))]
    by_cases hend : IsEnded e
    · exact isSettled_join_of_isEnded hwritten hksne he hfeed hend he hfeed
    · exact isSettled_join_of_noFeed hwritten hksne he hempty (noFeed_of_not_isEnded hfeed hend)

/-- What a line becomes is settled, and ends with a line feed if the line does. -/
theorem isSettled_of_becomes {f : Files} {base : Path} {known : List Place} {n : Nat}
    {source : Text} {x : ExpandedLine} (h : Becomes f base known n source x)
    (hline : codeLines source = [source]) (hfree : IsDirectiveFree source)
    (hq : ∀ i ∈ x.request, ∀ h ∈ i.headers, NoLineEnd h.name) :
    IsSettled x.text ∧ (IsEnded source → IsEnded x.text) := by
  rcases splitEnding_of_codeLines hline with ⟨b, e, hsource, hsplit, hb, he, hfeed⟩
  -- Whatever stands in place of the body, the line end is kept.
  have hended : ∀ t, IsEnded source → IsEnded (t ++ e) := by
    intro t hs
    rw [hsource] at hs
    have hend := isEnded_of_append hb hs
    exact (isEnded_append_iff fun h => not_isEnded_nil (h ▸ hend)).mpr hend
  have hremark : ∀ m path reason, Marker.ofLine? source.splitEnding.1 = some m →
      NoLineEnd path → NoLineEnd reason → IsSettled (remark m.indent path reason ++ e) := by
    intro m path reason hm hp hr
    have hi := Marker.isBlankRun_indent hm
    exact isSettled_append_lineEnds (noLineEnd_remark hi hp hr) (isWritten_remark hi path reason)
      he hfeed
  have hpath : ∀ m, Marker.ofLine? source.splitEnding.1 = some m → NoLineEnd m.modulePath :=
    fun m hm => Marker.noLineEnd_of_isPathSymbol (Marker.isPathSymbol_of_ofLine? hm)
  have hsnd : source.splitEnding.2 = e := by rw [hsplit]
  cases h with
  | plain hm =>
      refine ⟨⟨hfree, ?_⟩, id⟩
      rw [hline, List.forall_mem_singleton]
      exact hm
  | blank hm _ =>
      rw [hsnd]
      exact ⟨hremark _ [] _ hm noLineEnd_nil (by decide), hended _⟩
  | again hm _ _ _ =>
      rw [hsnd]
      exact ⟨hremark _ _ _ hm (hpath _ hm) (by decide), hended _⟩
  | missing hm _ _ _ _ =>
      rw [hsnd]
      exact ⟨hremark _ _ _ hm (hpath _ hm) (by decide), hended _⟩
  | bare hm _ _ _ _ _ =>
      rw [hsnd]
      exact ⟨hremark _ _ _ hm (hpath _ hm) (by decide), hended _⟩
  | found hm _ _ _ _ _ hne =>
      rw [hsnd]
      refine ⟨?_, hended _⟩
      exact isSettled_includeLines (Marker.isBlankRun_indent hm) (hpath _ hm) hne
        (hq _ rfl) he hfeed

end ExpandedLine

namespace Expansion

open Text

theorem mem_imports_cons {x : ExpandedLine} {more : Expansion} {i : Import} :
    i ∈ ({ more with lines := x :: more.lines } : Expansion).imports ↔
      i ∈ x.request ∨ i ∈ more.imports := by
  rw [imports, List.filterMap_cons, imports]
  rcases x.request with _ | j
  · simp
  · simp [eq_comm]

theorem isSettled_ofLines {f : Files} {base : Path} {known : List Place} {n : Nat}
    {ls : List Text} (hline : ∀ l ∈ ls, codeLines l = [l]) (hend : ∀ l ∈ ls.dropLast, IsEnded l)
    (hfree : ∀ l ∈ ls, IsDirectiveFree l) (hok : (ofLines f base known n ls).failure = none)
    (hq : ∀ i ∈ (ofLines f base known n ls).imports, ∀ h ∈ i.headers, NoLineEnd h.name) :
    IsSettled (ofLines f base known n ls).text := by
  induction ls generalizing known n with
  | nil => exact isSettled_nil
  | cons l ls ih =>
      rcases List.forall_mem_cons.mp hline with ⟨hl, hline⟩
      rcases List.forall_mem_cons.mp hfree with ⟨hlfree, hfree⟩
      rw [ofLines] at hok hq ⊢
      rcases hx : ExpandedLine.ofLine f base known n l with e | x
      · rw [hx] at hok
        cases hok
      · rw [hx] at hok hq
        dsimp only at hok hq ⊢
        have hxq : ∀ i ∈ x.request, ∀ h ∈ i.headers, NoLineEnd h.name :=
          fun i hi => hq i (mem_imports_cons.mpr (Or.inl hi))
        have hrestq : ∀ i ∈ (ofLines f base (x.directory.toList ++ known) (n + 1) ls).imports,
            ∀ h ∈ i.headers, NoLineEnd h.name :=
          fun i hi => hq i (mem_imports_cons.mpr (Or.inr hi))
        rcases ExpandedLine.isSettled_of_becomes (ExpandedLine.becomes_of_ofLine hx) hl hlfree hxq
          with ⟨hsettled, hended⟩
        rw [text, List.map_cons, List.flatten_cons]
        -- Only the last line may lack its line feed.
        by_cases hls : ls = []
        · rw [hls, ofLines]
          simp only [List.map_nil, List.flatten_nil, List.append_nil]
          exact hsettled
        · rw [List.dropLast_cons_of_ne_nil hls] at hend
          rcases List.forall_mem_cons.mp hend with ⟨hlend, hend⟩
          exact isSettled_append (hended hlend) hsettled (ih hline hend hfree hok hrestq)

/-- Expansion settles a text without directives. -/
theorem isSettled_text {f : Files} {base : Path} {t : Text} (hfree : IsDirectiveFree t)
    (hok : (ofText f base t).failure = none)
    (hq : ∀ i ∈ (ofText f base t).imports, ∀ h ∈ i.headers, NoLineEnd h.name) :
    IsSettled (ofText f base t).text :=
  isSettled_ofLines (fun _ hl => codeLines_of_mem hl) (fun _ hl => isEnded_of_mem_dropLast hl)
    (isDirectiveFree_iff_codeLines.mp hfree) hok hq

theorem ofLines_of_noMarker {f : Files} {base : Path} {known : List Place} {n : Nat}
    {ls : List Text} (h : ∀ l ∈ ls, Marker.ofLine? l.splitEnding.1 = none) :
    ofLines f base known n ls = { lines := ls.map fun l => { text := l } } := by
  induction ls generalizing known n with
  | nil => rfl
  | cons l ls ih =>
      rcases List.forall_mem_cons.mp h with ⟨hl, h⟩
      have hx : ExpandedLine.ofLine f base known n l = .ok { text := l } := by
        unfold ExpandedLine.ofLine
        dsimp only
        rw [hl]
        rfl
      rw [ofLines, hx]
      dsimp only
      rw [ih h]
      rfl

/-- A settled text is not changed, and nothing is imported. -/
theorem ofText_of_isSettled (f : Files) (base : Path) {t : Text} (ht : IsSettled t) :
    (ofText f base t).failure = none ∧ (ofText f base t).text = t ∧
      (ofText f base t).imports = [] := by
  rw [ofText, ofLines_of_noMarker ht.2]
  refine ⟨rfl, ?_, ?_⟩
  · rw [text, List.map_map]
    exact (congrArg List.flatten (List.map_id _)).trans (flatten_codeLines t)
  · rw [imports, List.filterMap_map]
    exact List.filterMap_eq_nil_iff.mpr (fun _ _ => rfl)

end Expansion

end DialectBuild
