import DialectBuild.Proofs.LeadingBlock

/-!
# Includes That Are Read

An include line counts if it is read for itself. One that stands inside a block comment, inside
a literal or on a preprocessor line that goes on is taken in by what began above it, and
includes nothing: `Context.isLive` tells the two apart by the context in which a line starts.

Injection does not. It goes by the look of a line, so an include that is commented out counts as
one that is there, and the header is not added; and new lines go to a place that is found by the
look of lines too. `Injection.live_iff` says when it does what it is for all the same: when every
header that some line leads to is led to by a line that is read, and the place for the new lines
is one where lines are read. The new lines then do not get into each other's way, since a header's
name has no slash to open a comment with, and a quote before the line end, so that no backslash
carries the line over.

## Main definitions

* `Context.isLive`: Whether a line is read for itself.
* `Include.ReachesLive`: A header that a line leads to which is read for itself.
* `StandsLive`: A line that stands somewhere in a text and is read for itself.

## Theorems

* `Context.isLive_after`: One line that is read for itself lets the next one be.
* `Injection.live_iff`: When injection adds what is lacking, and where it is read.
-/

namespace DialectBuild

open Text

namespace Context

/-- Whether a line is read for itself, with no comment, no literal and no preprocessor line that
    takes it in. -/
def isLive : Context → Bool
  | code _ => true
  | stopped => true
  | _ => false

/-- Without a slash no comment is opened. -/
theorem not_isComment_afterCode {lineStart : Bool} {s : Text} (hs : .char '/' ∉ s) :
    (afterCode lineStart s).isComment = false := by
  fun_induction afterCode lineStart s with
  | case1 lineStart hnone => rfl
  | case2 lineStart s hnone hne => rfl
  | case3 lineStart s l hnext =>
      cases Lexeme.next?_eq_some_iff.mp hnext with
      | lineComment htake => exact absurd List.mem_cons_self hs
      | blockComment htake => exact absurd List.mem_cons_self hs
      | _ => rfl
  | case4 lineStart s l rest hnext hrest ih =>
      rw [← (Lexeme.next?_eq_some hnext).2] at hs
      exact ih fun hmem => hs (List.mem_append_right l.text hmem)

/-- A line that is read for itself lets the next one be, if it opens no comment and is not
    carried over. -/
theorem isLive_after {c : Context} {s : Text} (hc : c.isLive = true) (hs : IsEnded s)
    (hslash : .char '/' ∉ s) (hend : ∀ b, s ≠ b ++ "\\\n") : (c.after s).isLive = true := by
  have hcarried : (c.after s).isCarried = false := by
    rw [Bool.eq_false_iff]
    intro hcarried
    rcases endsWith_of_isCarried hs hcarried with ⟨b, hb⟩
    exact hend b hb
  have hcomment : (c.after s).isComment = false := by
    cases c with
    | code lineStart =>
        rw [after_code]
        exact not_isComment_afterCode hslash
    | stopped => rfl
    | comment lineStart => cases hc
    | directive => cases hc
    | literal kind opened => cases hc
  -- What is neither carried over the line end nor a comment is live.
  cases h : c.after s with
  | code lineStart => rfl
  | stopped => rfl
  | comment lineStart =>
      rw [h] at hcomment
      cases hcomment
  | directive =>
      rw [h] at hcarried
      cases hcarried
  | literal kind opened =>
      rw [h] at hcarried
      cases hcarried

end Context

/-- What comes after the text is at the start of a line. -/
def Text.StartsLine (before : Text) : Prop :=
  before = [] ∨ IsEnded before

/-- A line stands after `before` in a text, and is read for itself there. -/
structure StandsLive (t before l : Text) : Prop where
  /-- The line is there. -/
  stands : before ++ l <+: t
  /-- It is at the start of a line. -/
  starts : before.StartsLine
  /-- It is read for itself. -/
  live : ((Context.code true).after before).isLive = true

theorem Text.StartsLine.append {a b : Text} (ha : a.StartsLine) (hb : b.StartsLine) :
    (a ++ b).StartsLine := by
  by_cases hnil : b = []
  · rw [hnil, List.append_nil]
    exact ha
  · exact Or.inr ((isEnded_append_iff hnil).mpr (hb.resolve_left hnil))

theorem Text.startsLine_flatten {ls : List Text} (h : ∀ l ∈ ls, IsEnded l) :
    StartsLine ls.flatten := by
  induction ls with
  | nil => exact Or.inl rfl
  | cons l ls ih =>
      rcases List.forall_mem_cons.mp h with ⟨hl, h⟩
      exact StartsLine.append (Or.inr hl) (ih h)

theorem Context.after_append_of_startsLine {c : Context} {s : Text} (hs : s.StartsLine)
    (r : Text) : c.after (s ++ r) = (c.after s).after r := by
  rcases hs with rfl | hs
  · rw [List.nil_append, after_nil]
  · exact after_append c hs r

theorem Text.startsLine_upTo (t : Text) (n : Nat) : (t.upTo n).StartsLine := by
  rw [upTo]
  rcases List.eq_nil_or_concat (t.codeLines.take n) with htake | ⟨before, l, htake⟩
  · rw [htake]
    exact Or.inl rfl
  · rw [List.concat_eq_append] at htake
    have hended := isEnded_closed (isEnding_endingInUse t.codeLines) l
    have hne : closed (endingInUse t.codeLines) l ≠ [] :=
      fun hnil => not_isEnded_nil (hnil ▸ hended)
    rw [htake, closeLast_concat, List.flatten_append, List.flatten_singleton]
    exact Or.inr ((isEnded_append_iff hne).mpr hended)

namespace Include

/-- A line that is read for itself leads to where the header is. -/
def ReachesLive (f : Files) (base : Path) (t : Text) (header : Path) : Prop :=
  ∃ place, f.resolve header = .ok place ∧ ∃ n l, t.codeLines[n]? = some l ∧
    target f base l = .ok (some place) ∧ (contextAt t n).isLive = true

section Line

variable {header : Path} {ending : Text}

theorem isEnded_line (he : IsEnding ending) : IsEnded (line header ending) :=
  he.isEnded_append _

theorem noSlash_line (he : IsEnding ending) (h : .char '/' ∉ header.name) :
    .char '/' ∉ line header ending := by
  have hending : .char '/' ∉ ending := by
    rcases he with rfl | rfl <;> decide
  simp only [line, List.mem_append, not_or]
  exact ⟨⟨⟨by decide, h⟩, by decide⟩, hending⟩

/-- The quote before the line end keeps an include line from being carried over. -/
theorem line_ne_carried (he : IsEnding ending) (b : Text) : line header ending ≠ b ++ "\\\n" := by
  intro h
  rcases he with rfl | rfl
  · rw [line, List.append_assoc] at h
    exact absurd (List.append_inj' h rfl).2 (by decide)
  · exact absurd (List.append_inj' h rfl).2 (by decide)

/-- Include lines, put where lines are read, are read one after the other. -/
theorem isLive_after_lines {c : Context} (hc : c.isLive = true) (he : IsEnding ending)
    {headers : List Path} (hslash : ∀ h ∈ headers, .char '/' ∉ h.name) :
    (c.after (headers.map (line · ending)).flatten).isLive = true := by
  induction headers generalizing c with
  | nil =>
      rw [List.map_nil, List.flatten_nil, Context.after_nil]
      exact hc
  | cons h headers ih =>
      rcases List.forall_mem_cons.mp hslash with ⟨hh, hslash⟩
      rw [List.map_cons, List.flatten_cons, Context.after_append c (isEnded_line he)]
      exact ih (Context.isLive_after hc (isEnded_line he) (noSlash_line he hh)
        (line_ne_carried he)) hslash

end Line

end Include

namespace Injection

open Include

variable {f : Files} {base own : Path} {siblings : List Path} {t : Text} {i : Injection}

/-- The new lines go between the text before their place and the rest. -/
theorem text_of_added (h : ofText f base own siblings t = .ok i) (hne : i.added ≠ []) :
    i.text = t.upTo (place f base own t) ++
      ((i.added.map (line · (endingInUse t.codeLines))).flatten ++
        (t.codeLines.drop (place f base own t)).flatten) := by
  rw [(ofText_eq_ok h).2.2, if_neg hne, insertLines_eq, List.flatten_append, List.flatten_append,
    List.append_assoc]
  rfl

/-- New lines that go to a place where lines are read are all read. -/
theorem standsLive_of_added (h : ofText f base own siblings t = .ok i)
    (hslash : ∀ s ∈ i.added, .char '/' ∉ s.name)
    (hlive : (contextAt t (place f base own t)).isLive = true) {done more : List Path} {s : Path}
    (hadded : i.added = done ++ s :: more) :
    StandsLive i.text
      (t.upTo (place f base own t) ++ (done.map (line · (endingInUse t.codeLines))).flatten)
      (line s (endingInUse t.codeLines)) := by
  have he := isEnding_endingInUse t.codeLines
  have hdone : ∀ h ∈ done, .char '/' ∉ h.name := fun h hh =>
    hslash h (hadded ▸ List.mem_append_left _ hh)
  -- What follows in the text, that the line starts a line, and that it is read as code.
  refine ⟨⟨(more.map (line · (endingInUse t.codeLines))).flatten ++
    (t.codeLines.drop (place f base own t)).flatten, ?_⟩, ?_, ?_⟩
  · have hne : i.added ≠ [] := by
      rw [hadded]
      exact List.append_ne_nil_of_right_ne_nil done (List.cons_ne_nil s more)
    rw [text_of_added h hne, hadded, List.map_append, List.map_cons, List.flatten_append,
      List.flatten_cons]
    simp only [List.append_assoc]
  · refine (startsLine_upTo t _).append (startsLine_flatten fun l hl => ?_)
    rcases List.mem_map.mp hl with ⟨h, _, rfl⟩
    exact isEnded_line he
  · rw [Context.after_append_of_startsLine (startsLine_upTo t _)]
    exact isLive_after_lines hlive he hdone

/-- Injection adds every header that no line leads to which is read for itself, and puts the
    include lines where they are read for themselves, exactly if it is known where all lines
    lead, no header is led to by lines alone that are not read, and the place for new lines, if
    there are any, is one where lines are read. -/
theorem live_iff (hslash : ∀ h ∈ own :: siblings, .char '/' ∉ h.name) :
    (∃ i, ofText f base own siblings t = .ok i ∧
      (∀ h ∈ own :: siblings, ¬ ReachesLive f base t h → h ∈ i.added) ∧
      ∀ done h more, i.added = done ++ h :: more →
        StandsLive i.text
          (t.upTo (place f base own t) ++ (done.map (line · (endingInUse t.codeLines))).flatten)
          (line h (endingInUse t.codeLines))) ↔
    Resolves f base (own :: siblings) t ∧
      (∀ h ∈ own :: siblings, Reaches f base t.codeLines h → ReachesLive f base t h) ∧
      ((∃ h ∈ own :: siblings, ¬ Reaches f base t.codeLines h) →
        (contextAt t (place f base own t)).isLive = true) := by
  constructor
  · rintro ⟨i, hi, hmissing, hlive⟩
    refine ⟨(ofText_eq_ok hi).1, ?_, ?_⟩
    · intro h hh hreach
      by_contra hnot
      exact ((mem_added_iff hi).mp (hmissing h hh hnot)).2 hreach
    · rintro ⟨h, hh, hnot⟩
      have hmem : h ∈ i.added := (mem_added_iff hi).mpr ⟨hh, hnot⟩
      -- The first of the new lines stands right at the place.
      rcases hadded : i.added with _ | ⟨first, more⟩
      · rw [hadded] at hmem
        exact absurd hmem List.not_mem_nil
      · have hfirst := (hlive [] first more hadded).live
        rwa [List.map_nil, List.flatten_nil, List.append_nil] at hfirst
  · rintro ⟨hresolves, hread, hplace⟩
    have hi := ofText_of_resolves hresolves
    refine ⟨_, hi, ?_, ?_⟩
    · intro h hh hnot
      exact (mem_added_iff hi).mpr ⟨hh, fun hreach => hnot (hread h hh hreach)⟩
    · intro done h more hadded
      have hmem := (mem_added_iff hi).mp (hadded ▸ List.mem_append_right done List.mem_cons_self)
      exact standsLive_of_added hi (fun s hs => hslash s ((mem_added_iff hi).mp hs).1)
        (hplace ⟨h, hmem⟩) hadded

/-- A tree with one directory. -/
def oneDirectory : Files :=
  ⟨{ entries := [(["p"], .dir)] }, ["p"]⟩

/-- A unit that includes one of two other headers. -/
def partlyIncluding : Text :=
  "/* a\n*/\n#include \"./b.cz.h\"\n\nint f(void) { return 0; }"

theorem live_iff_partlyIncluding :
    (∀ h ∈ (["a.cz.h", "b.cz.h", "c.cz.h"] : List Path), .char '/' ∉ h.name) ∧
    ∃ i, ofText oneDirectory "." "a.cz.h" ["b.cz.h", "c.cz.h"] partlyIncluding = .ok i ∧
      (∀ h ∈ (["a.cz.h", "b.cz.h", "c.cz.h"] : List Path),
        ¬ ReachesLive oneDirectory "." partlyIncluding h → h ∈ i.added) ∧
      ∀ done h more, i.added = done ++ h :: more →
        StandsLive i.text
          (partlyIncluding.upTo (place oneDirectory "." "a.cz.h" partlyIncluding) ++
            (done.map (line · (endingInUse partlyIncluding.codeLines))).flatten)
          (line h (endingInUse partlyIncluding.codeLines)) := by
  have hslash : ∀ h ∈ (["a.cz.h", "b.cz.h", "c.cz.h"] : List Path), .char '/' ∉ h.name := by
    decide
  have hplace : place oneDirectory "." "a.cz.h" partlyIncluding = 3 := by
    have hfind : partlyIncluding.codeLines.findIdx? (leadsTo oneDirectory "." "a.cz.h") = none := by
      cbv
    rw [place, hfind]
    decide +kernel
  have hlines : partlyIncluding.codeLines = ([ "/* a\n", "*/\n", "#include \"./b.cz.h\"\n",
      "\n", "int f(void) { return 0; }"] : List Text) := by decide +kernel
  have hb : ReachesLive oneDirectory "." partlyIncluding "b.cz.h" := by
    refine ⟨["p", "b.cz.h"], by cbv, 2, "#include \"./b.cz.h\"\n", ?_, by cbv, by decide +kernel⟩
    rw [hlines]
    rfl
  refine ⟨hslash, (live_iff hslash).mpr ⟨⟨?_, ?_⟩, ?_, ?_⟩⟩
  · rw [hlines]
    simp only [List.forall_mem_cons]
    refine ⟨⟨none, by cbv⟩, ⟨none, by cbv⟩, ⟨some ["p", "b.cz.h"], by cbv⟩, ⟨none, by cbv⟩,
      ⟨none, by cbv⟩, ?_⟩
    exact fun l hl => absurd hl List.not_mem_nil
  · simp only [List.forall_mem_cons]
    refine ⟨⟨["p", "a.cz.h"], by cbv⟩, ⟨["p", "b.cz.h"], by cbv⟩, ⟨["p", "c.cz.h"], by cbv⟩, ?_⟩
    exact fun l hl => absurd hl List.not_mem_nil
  · have hnone : ∀ h ∈ (["a.cz.h", "c.cz.h"] : List Path),
        partlyIncluding.codeLines.any (leadsTo oneDirectory "." h) = false := by
      simp only [List.forall_mem_cons]
      refine ⟨by cbv, by cbv, ?_⟩
      exact fun l hl => absurd hl List.not_mem_nil
    intro h hh hreach
    rw [reaches_iff_any] at hreach
    simp only [List.mem_cons, List.not_mem_nil, or_false] at hh
    rcases hh with rfl | rfl | rfl
    · rw [hnone _ (by decide)] at hreach
      cases hreach
    · exact hb
    · rw [hnone _ (by decide)] at hreach
      cases hreach
  · intro _
    rw [hplace]
    decide +kernel

/-- An include that is commented out keeps its header from being added, and a new include may be
    put inside a comment. -/
theorem ofText_inside_comment :
    (ofText oneDirectory "." "a.cz.h" [] "/*\n#include \"a.cz.h\"\n*/\nint x;\n" =
      .ok ⟨"/*\n#include \"a.cz.h\"\n*/\nint x;\n", []⟩ ∧
      ¬ ReachesLive oneDirectory "." "/*\n#include \"a.cz.h\"\n*/\nint x;\n" "a.cz.h") ∧
    ofText oneDirectory "." "a.cz.h" [] "/* open" =
      .ok ⟨"/* open\n#include \"a.cz.h\"\n", ["a.cz.h"]⟩ ∧
    contextAt "/* open\n#include \"a.cz.h\"\n" 1 = .comment true := by
  refine ⟨⟨by cbv, ?_⟩, by cbv, by decide +kernel⟩
  rintro ⟨place, -, n, l, hl, htarget, hlive⟩
  have hlines : codeLines "/*\n#include \"a.cz.h\"\n*/\nint x;\n" =
      ([ "/*\n", "#include \"a.cz.h\"\n", "*/\n", "int x;\n"] : List Text) := by decide +kernel
  rw [hlines] at hl
  -- Only the second line leads anywhere, and it is inside the comment.
  rcases n with _ | _ | _ | _ | n
  · cases hl
    exact absurd htarget (by cbv; simp)
  · exact absurd hlive (by decide +kernel)
  · cases hl
    exact absurd htarget (by cbv; simp)
  · cases hl
    exact absurd htarget (by cbv; simp)
  · cases hl

end Injection

end DialectBuild
