import DialectBuild.Proofs.DeskWork
import DialectBuild.Proofs.LiveInclude
import DialectBuild.Proofs.NameOrder
import DialectBuild.Proofs.TokenPlaces

/-!
# Includes Are Only Inserted

What injection does to a unit. It puts include lines between two lines of the text and leaves
all else as it is, but for a line end where the line above them has none.

The place for them comes from three sources that know nothing of each other: an include of the
own header, the look of the leading lines, and the line that the first exported function is said
to be on. The last one is counted while the text is read as tokens, and the lines are cut
elsewhere. That there is such a line is due to the count never being too high: a token stands
behind as many line feeds as are counted before it, or more, and what stands behind a number of
line feeds is on a line of its own after as many lines. `Position.includes?` asks for lines that
may be missing, and `Position.includes?_eq` says that none is.

## Main definitions

* `headerOf`: The header of a source.
* `Position.includes?`: Where includes go, unless a line is asked for that is not there.
* `Desk.Inserts`: What injection does to a unit.

## Theorems

* `line_le_of_mem_exported`: No exported function is behind the last line.
* `Position.includes?_eq`: Every line that is asked for is there.
* `Injection.place_le`: New lines go between lines that are there.
* `Text.upTo_eq`: The text before new lines, with a line end if it has none.
* `Desk.exists_inserts`: Injection returns, and only inserts.
-/

namespace DialectBuild

open Text

/-- What stands behind some line feeds is on a line after as many lines. -/
theorem Text.lineFeeds_lt_length_codeLines (front : Text) {s : Text} (hs : s ≠ []) :
    front.lineFeeds < (front ++ s).codeLines.length := by
  -- A symbol that is no line feed joins a line, and so the number of lines does not go down.
  have hjoined : ∀ (x : Symbol) (ls : List Text),
      ls.length ≤ (consToFirst x ls).length ∧ 0 < (consToFirst x ls).length := by
    intro x ls
    cases ls with
    | nil => exact ⟨Nat.zero_le _, Nat.one_pos⟩
    | cons l ls => exact ⟨Nat.le_refl _, Nat.succ_pos _⟩
  induction front with
  | nil =>
      rcases List.exists_cons_of_ne_nil hs with ⟨x, r, rfl⟩
      rw [List.nil_append, codeLines]
      split
      · exact Nat.succ_pos _
      · exact (hjoined x _).2
  | cons x front ih =>
      rw [List.cons_append, codeLines, lineFeeds, List.count_cons, ← lineFeeds]
      by_cases hx : x = '\n'
      · rw [if_pos hx, hx, if_pos (beq_self_eq_true _), List.length_cons]
        omega
      · rw [if_neg hx, if_neg (fun h => hx (beq_iff_eq.mp h))]
        have := (hjoined x (codeLines (front ++ s))).1
        omega

theorem Token.text_ne_nil_of_mem_tokenize {s : Text} {t : Token} (h : t ∈ tokenize s) :
    t.text ≠ [] := by
  rcases isRead_of_mem_tokenize h with ⟨lineStart, s', rest, hreads⟩
  exact (Lexeme.next?_eq_some (Lexeme.next?_eq_some_iff.mpr hreads)).1

/-- No exported function is said to be on a line behind the last one. -/
theorem line_le_of_mem_exported {t : Text} {d : Declaration} (h : d ∈ exported t) :
    d.line ≤ t.codeLines.length := by
  rcases Export.exists_places_of_mem_exported h with
    ⟨earlier, first, more, brace, later, hplaces, _, hline⟩
  rcases line_iff_of_places hplaces with ⟨⟨rest, hrest⟩, hcount, _⟩
  have hmem : first.token ∈ tokenize t := by
    rw [← map_token_places, hplaces]
    exact List.mem_map_of_mem (List.mem_append_right earlier List.mem_cons_self)
  have htoken := Token.text_ne_nil_of_mem_tokenize hmem
  have hlines := lineFeeds_lt_length_codeLines first.front
    (List.append_ne_nil_of_left_ne_nil htoken rest)
  rw [← List.append_assoc, hrest] at hlines
  omega

namespace Position

/-- The position moved up over blank lines, unless a line is asked for that is not there. -/
def raise? (lines : List Text) (floor : Nat) : Nat → Option Nat
  | 0 => some 0
  | p + 1 =>
      if floor < p + 1 then
        lines[p]?.bind fun line =>
          if line.all Symbol.isBlank then raise? lines floor p else some (p + 1)
      else
        some (p + 1)

/-- Where the include lines of a unit go that exports `ds`, unless a line is asked for that is
    not there. -/
def includes? (lines : List Text) (ds : List Declaration) : Option Nat :=
  let floor := leadingEnd lines
  match ds with
  | [] => some floor
  | d :: _ => raise? lines floor (max floor (d.line - 1))

theorem raise?_of_le {lines : List Text} {floor p : Nat} (hp : p ≤ lines.length) :
    raise? lines floor p = some (raise lines floor p) := by
  induction p with
  | zero => rfl
  | succ p ih =>
      have hline : lines[p]? = some lines[p] := List.getElem?_eq_getElem hp
      rw [raise?, raise, hline, Option.bind_some, Option.getD_some]
      by_cases hfloor : floor < p + 1
      · rw [if_pos hfloor]
        by_cases hblank : (lines[p].all Symbol.isBlank) = true
        · rw [if_pos hblank, if_pos ⟨hfloor, hblank⟩, ih (by omega)]
        · rw [if_neg hblank, if_neg fun h => hblank h.2]
      · rw [if_neg hfloor, if_neg fun h => hfloor h.1]

/-- The way up starts at a line of the text, or right behind the last one. -/
theorem start_le {t : Text} {d : Declaration} (hd : d ∈ exported t) :
    max (leadingEnd t.codeLines) (d.line - 1) ≤ t.codeLines.length := by
  have hfloor := leadingEnd_le t.codeLines
  have hline := line_le_of_mem_exported hd
  omega

/-- Every line that is asked for is there. -/
theorem includes?_eq (t : Text) :
    includes? t.codeLines (exported t) = some (includes t.codeLines (exported t)) := by
  rw [includes?.eq_def, includes.eq_def]
  rcases hds : exported t with _ | ⟨d, ds⟩
  · rfl
  · exact raise?_of_le (start_le (hds ▸ List.mem_cons_self))

theorem includes_le (t : Text) :
    includes t.codeLines (exported t) ≤ t.codeLines.length := by
  rw [includes.eq_def]
  rcases hds : exported t with _ | ⟨d, ds⟩
  · exact leadingEnd_le t.codeLines
  · exact Nat.le_trans (raise_le _ _ _) (start_le (hds ▸ List.mem_cons_self))

end Position

/-- New lines go between two lines of the text, before the first or behind the last. -/
theorem Injection.place_le (f : Files) (base own : Path) (t : Text) :
    place f base own t ≤ t.codeLines.length := by
  rw [place]
  rcases hfind : t.codeLines.findIdx? (Include.leadsTo f base own) with _ | n
  · exact Position.includes_le t
  · exact (List.findIdx?_eq_some_iff_getElem.mp hfind).1

/-- What comes before new lines is the text up to there, with a line end if it has none. -/
theorem Text.upTo_eq (t : Text) (n : Nat) :
    t.upTo n = (t.codeLines.take n).flatten ++
      if (t.codeLines.take n).flatten = [] ∨ endsWith (t.codeLines.take n).flatten "\n" = true
      then [] else endingInUse t.codeLines := by
  rw [upTo]
  rcases List.eq_nil_or_concat (t.codeLines.take n) with htake | ⟨before, l, htake⟩
  · rw [htake]
    rfl
  · rw [List.concat_eq_append] at htake
    have hl : l ∈ t.codeLines := by
      refine List.take_subset n _ ?_
      rw [htake]
      exact List.mem_append_right before (List.mem_singleton_self l)
    have hne : l ≠ [] := by
      rintro rfl
      have hlines := codeLines_of_mem hl
      cases hlines
    -- The last line alone tells whether the text is ended.
    have hended : endsWith (before.flatten ++ l) "\n" = true ↔ IsEnded l := by
      rw [endsWith_feed_iff, isEnded_append_iff hne]
    rw [htake, closeLast_concat, List.flatten_append, List.flatten_append, List.flatten_singleton,
      List.flatten_singleton]
    rcases closed_cases (endingInUse t.codeLines) l with ⟨hl, hclosed⟩ | ⟨hl, hclosed⟩
    · rw [hclosed, if_pos (Or.inr (hended.mpr hl)), List.append_nil]
    · have hnot : ¬ (before.flatten ++ l = [] ∨ endsWith (before.flatten ++ l) "\n" = true) := by
        rintro (h | h)
        · exact hne (List.append_eq_nil_iff.mp h).2
        · exact hl (hended.mp h)
      rw [hclosed, if_neg hnot, List.append_assoc]

/-- The header of a source. -/
def headerOf (source : Path) : Path :=
  source.parent.child (source.name ++ ".h")

namespace Desk

/-- What injection does to the unit of a desk, with the headers that it says were added. -/
structure Inserts (sources : List Path) (d : Desk) (added : List Path) (d' : Desk) : Prop where
  /-- No file changes and no tool is run. -/
  workspace : ∃ notices, d'.workspace = { d.workspace with notices := notices }
  /-- The unit gets another text, the headers beside it, and the mark that it has them. -/
  unit : d'.unit = { d.unit with
    text := d'.unit.text, siblings := d'.unit.siblings, siblingsInjected := true }
  /-- The headers beside that of the unit are in order, each once. -/
  sorted : d'.unit.siblings.Pairwise fun p q => Path.le p q = true ∧ p ≠ q
  /-- They are the headers of the other units in its directory. -/
  siblings : ∀ h, h ∈ d'.unit.siblings ↔
    ∃ s ∈ sources, s.parent = d.unit.directory ∧ s ≠ d.unit.source ∧ h = headerOf s
  /-- The own header is added and then these, as far as no line of the text leads to them. -/
  lacking : added = Injection.lacking d.workspace.files d.unit.directory
    (headerOf d.unit.source :: d'.unit.siblings) d.unit.text
  /-- If none is added, the text stays the same. -/
  unchanged : added = [] → d'.unit.text = d.unit.text
  /-- Otherwise the text is cut between two lines and an include line for each of them put there,
      after a line end if there is something before them that has none. -/
  inserted : added ≠ [] → ∃ n ≤ d.unit.text.codeLines.length, ∃ before after ending gap : Text,
    before = (d.unit.text.codeLines.take n).flatten ∧
    after = (d.unit.text.codeLines.drop n).flatten ∧
    d.unit.text = before ++ after ∧
    ending = endingInUse d.unit.text.codeLines ∧ IsEnding ending ∧
    (gap = if before = [] ∨ before.endsWith "\n" = true then [] else ending) ∧
    d'.unit.text = before ++ gap ++ (added.map (Include.line · ending)).flatten ++ after

variable {d : Desk} {sources : List Path}

/-- Injection returns if it is known where all lines lead and where the headers are. It does
    nothing but insert include lines, and every line it asks for is there. -/
theorem exists_inserts (hfresh : d.unit.siblingsInjected = false)
    (hlines : ∀ l ∈ d.unit.text.codeLines, ∃ place,
      Include.target d.workspace.files d.unit.directory l = .ok place)
    (hheaders : ∀ s ∈ d.unit.source :: sources, s.parent = d.unit.directory →
      s.parts ≠ [] ∧ ∃ place, d.workspace.files.resolve (headerOf s) = .ok place) :
    (∃ added d', inject sources d = .ok added d' ∧ Inserts sources d added d') ∧
    Position.includes? d.unit.text.codeLines (exported d.unit.text) =
      some (Position.includes d.unit.text.codeLines (exported d.unit.text)) := by
  refine ⟨?_, Position.includes?_eq d.unit.text⟩
  rcases List.forall_mem_cons.mp hheaders with ⟨hown, hothers⟩
  have hnamed := fun s hs hparent => (hothers s hs hparent).1
  rcases exists_headersBeside d.unit.source hnamed with ⟨siblings, hs⟩
  have ha := Artifacts.ofSource_eq_ok_iff.mpr ⟨(hown rfl).1, rfl⟩
  have hmem : ∀ h, h ∈ siblings ↔
      ∃ s ∈ sources, s.parent = d.unit.directory ∧ s ≠ d.unit.source ∧ h = headerOf s := by
    intro h
    rw [mem_headersBeside_iff hs]
    constructor
    · rintro ⟨s, hsource, hparent, hne, _, rfl⟩
      exact ⟨s, hsource, hparent, hne, by rw [headerOf, hparent]⟩
    · rintro ⟨s, hsource, hparent, hne, rfl⟩
      refine ⟨s, hsource, hparent, hne, (hothers s hsource hparent).1, ?_⟩
      rw [headerOf, hparent]
      rfl
  -- All headers are known to be somewhere, and so it is known which ones the text lacks.
  have hresolves : Injection.Resolves d.workspace.files d.unit.directory
      (headerOf d.unit.source :: siblings) d.unit.text := by
    refine ⟨hlines, List.forall_mem_cons.mpr ⟨(hown rfl).2, ?_⟩⟩
    intro h hh
    rcases (hmem h).mp hh with ⟨s, hsource, hparent, _, rfl⟩
    exact (hothers s hsource hparent).2
  have hi := Injection.ofText_of_resolves hresolves
  rcases exists_inject hfresh hs ha hi with ⟨d', hinject, _⟩
  refine ⟨_, d', hinject, ?_⟩
  rcases inject_eq_ok hfresh hinject with ⟨siblings', a, i, notices, hs', ha', hi', hadded, rfl⟩
  cases hs.symm.trans hs'
  cases ha.symm.trans ha'
  cases hi.symm.trans hi'
  refine ⟨⟨notices, rfl⟩, rfl, pairwise_headersBeside hs, hmem, rfl, fun hnone => if_pos hnone,
    fun hsome => ?_⟩
  refine ⟨_, Injection.place_le d.workspace.files d.unit.directory (headerOf d.unit.source)
    d.unit.text, _, _, _, _, rfl, rfl, ?_, rfl, isEnding_endingInUse _, rfl, ?_⟩
  · rw [← List.flatten_append, List.take_append_drop, flatten_codeLines]
  · rw [Injection.text_of_added hi hsome, upTo_eq]
    simp only [List.append_assoc]

/-- A unit that includes one of the two other headers in its last line, which does not end. -/
def openEnded : Desk :=
  ⟨{ files := Injection.oneDirectory, tools := default },
    { TranslationUnit.ofSource "a.cz" with text := "// a\r\n#include \"./b.cz.h\"" }⟩

theorem exists_inserts_openEnded :
    openEnded.unit.siblingsInjected = false ∧
    (∃ added d', inject ["c.cz", "a.cz", "b.cz"] openEnded = .ok added d' ∧
      Inserts ["c.cz", "a.cz", "b.cz"] openEnded added d') ∧
    Position.includes? openEnded.unit.text.codeLines (exported openEnded.unit.text) =
      some (Position.includes openEnded.unit.text.codeLines (exported openEnded.unit.text)) := by
  have hlines : openEnded.unit.text.codeLines =
      ([ "// a\r\n", "#include \"./b.cz.h\""] : List Text) := by decide +kernel
  refine ⟨rfl, exists_inserts rfl ?_ ?_⟩
  · rw [hlines]
    simp only [List.forall_mem_cons]
    refine ⟨⟨none, by cbv⟩, ⟨some ["p", "b.cz.h"], by cbv⟩, ?_⟩
    exact fun l hl => absurd hl List.not_mem_nil
  · have hsources : openEnded.unit.source :: ["c.cz", "a.cz", "b.cz"] =
        (["a.cz", "c.cz", "a.cz", "b.cz"] : List Path) := rfl
    rw [hsources]
    simp only [List.forall_mem_cons]
    refine ⟨fun _ => ⟨by decide, ["p", "a.cz.h"], by cbv⟩,
      fun _ => ⟨by decide, ["p", "c.cz.h"], by cbv⟩,
      fun _ => ⟨by decide, ["p", "a.cz.h"], by cbv⟩,
      fun _ => ⟨by decide, ["p", "b.cz.h"], by cbv⟩, ?_⟩
    exact fun s hs => absurd hs List.not_mem_nil

end Desk

end DialectBuild
