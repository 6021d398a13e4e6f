import DialectBuild.Proofs.DeskWork
import DialectBuild.Proofs.Injecting

/-!
# Treating a Text Again

The text of a unit passes three treatments: its directives are removed, its markers are
expanded and its includes are added. A text that has passed all three is left alone by each
of them, so that a build may be repeated on what a build has made.

Removing directives alone may be repeated with buffers of other sizes. A line that is removed may
leave a carriage return before a line feed, so that the text that remains has other lines than
those that were kept. What counts is that none of them is a directive either.

The three do not agree on what a line is, and each works on what the one before it made. What
carries the argument is that the last two keep a text settled: nothing that they write is a
directive or a marker, whatever line ends stand around it. The includes that are added are
read back by the search for includes that are there already.

## Main definitions

* `Treated`: What the treatments made of a text and what they found in it.
* `treat`: The three treatments of the text of a fresh unit.

## Theorems

* `Stripped.ofText_ofText_text`: A text without directives is what stripping leaves, and leaves
  alone.
* `treat_treat_text`: A treated text is left alone.
-/

namespace DialectBuild

/-- Stripping what stripping has left removes nothing, whatever the sizes of the buffers. What it
    leaves are the texts in which no line is a directive. -/
theorem Stripped.ofText_ofText_text (n m : BufferSize) (t : Text) :
    ofText m (ofText n t).text = ⟨(ofText n t).text, []⟩ ∧
    ((∃ u, (ofText n u).text = t) ↔ Text.IsDirectiveFree t) := by
  refine ⟨ofText_of_isDirectiveFree m (isDirectiveFree_text n t), ?_, ?_⟩
  · rintro ⟨u, rfl⟩
    exact isDirectiveFree_text n u
  · intro ht
    refine ⟨t, ?_⟩
    rw [ofText_of_isDirectiveFree n ht]

/-- What the treatments made of a text and what they found in it. -/
structure Treated where
  /-- The text. -/
  text : Text
  /-- The directives that were removed. -/
  removed : List Text
  /-- The imports that were expanded. -/
  imports : List Import
  /-- The headers that were added. -/
  added : List Path
  deriving DecidableEq

/-- The three treatments of the text of a unit of which nothing but the source is known. The
    buffer for reading lines has size `n`. -/
def treat (n : BufferSize) (w : Workspace) (source : Path) (sources : List Path) (t : Text) :
    Except Failure Treated :=
  let s := Stripped.ofText n t
  let x := Expansion.ofText w.files source.parent s.text
  match x.failure with
  | some e => .error e
  | none =>
      match Desk.inject sources ⟨w, { TranslationUnit.ofSource source with text := x.text }⟩ with
      | .error e _ => .error e
      | .ok added d => .ok ⟨d.unit.text, s.removed, x.imports, added⟩

section Treatment

variable {n m : BufferSize} {w : Workspace} {source : Path} {sources : List Path} {t : Text}
  {r : Treated}

/-- How the treatments come about. -/
theorem treat_eq_ok_iff : treat n w source sources t = .ok r ↔
    ∃ siblings a i, headersBeside source sources = .ok siblings ∧
      Artifacts.ofSource source = .ok a ∧
      (Expansion.ofText w.files source.parent (Stripped.ofText n t).text).failure = none ∧
      Injection.ofText w.files source.parent a.header siblings
        (Expansion.ofText w.files source.parent (Stripped.ofText n t).text).text = .ok i ∧
      r = ⟨i.text, (Stripped.ofText n t).removed,
        (Expansion.ofText w.files source.parent (Stripped.ofText n t).text).imports, i.added⟩ := by
  rw [treat]
  dsimp only
  -- The expansion is the same on both sides and is not looked into.
  generalize Expansion.ofText w.files source.parent (Stripped.ofText n t).text = x
  constructor
  · intro h
    rcases hfailure : x.failure with _ | e
    · rw [hfailure] at h
      dsimp only at h
      rcases hinject : Desk.inject sources
        ⟨w, { TranslationUnit.ofSource source with text := x.text }⟩ with ⟨added, d⟩ | ⟨e, d⟩
      · rw [hinject] at h
        rcases Desk.inject_eq_ok rfl hinject with ⟨siblings, a, i, ns, hs, ha, hi, rfl, rfl⟩
        exact ⟨siblings, a, i, hs, ha, rfl, hi, (Except.ok.inj h).symm⟩
      · rw [hinject] at h
        cases h
    · rw [hfailure] at h
      cases h
  · rintro ⟨siblings, a, i, hs, ha, hfailure, hi, rfl⟩
    rcases Desk.exists_inject (d := ⟨w, { TranslationUnit.ofSource source with text := x.text }⟩)
      rfl hs ha hi with ⟨d, hinject, hd⟩
    rw [hfailure]
    dsimp only
    rw [hinject]
    dsimp only
    rw [hd]

/-- A settled text in which every header is reached is left alone. -/
theorem treat_of_isSettled {siblings : List Path} {a : Artifacts}
    (hs : headersBeside source sources = .ok siblings) (ha : Artifacts.ofSource source = .ok a)
    (ht : Text.IsSettled t)
    (htargets : ∀ l ∈ t.codeLines, ∃ p, Include.target w.files source.parent l = .ok p)
    (hreach : ∀ h ∈ a.header :: siblings, Include.Reaches w.files source.parent t.codeLines h) :
    treat n w source sources t = .ok ⟨t, [], [], []⟩ := by
  rcases Expansion.ofText_of_isSettled w.files source.parent ht with ⟨hfailure, htext, himports⟩
  refine treat_eq_ok_iff.mpr ⟨siblings, a, ⟨t, []⟩, hs, ha, ?_⟩
  rw [Stripped.ofText_of_isDirectiveFree n ht.1, hfailure, htext, himports]
  exact ⟨rfl, Injection.ofText_of_reaches htargets hreach, rfl⟩

/-- A treated text is left alone: nothing is removed, expanded or added again. File names are
    such that they can stand between quotes on a line. -/
theorem treat_treat_text (h : treat n w source sources t = .ok r)
    (hproper : ∀ s ∈ source :: sources, s.IsProper)
    (hunits : ∀ s ∈ source :: sources, s.IsQuotable)
    (hheaders : ∀ i ∈ r.imports, ∀ header ∈ i.headers, header.IsQuotable) :
    treat m w source sources r.text = .ok ⟨r.text, [], [], []⟩ := by
  rcases treat_eq_ok_iff.mp h with ⟨siblings, a, i, hs, ha, hfailure, hi, rfl⟩
  have hlisted := Include.isListed_of_headersBeside hs ha (fun s hs => (hproper s hs).noSlash_name)
    hunits
  -- Stripping leaves no directive, and neither expansion nor injection writes one.
  have hfree := Stripped.isDirectiveFree_text n t
  have hsettled := Expansion.isSettled_text hfree hfailure fun i hi header hheader =>
    (hheaders i hi header hheader).noLineEnd
  have hnames := fun s hs => (hlisted s hs).quotable.noLineEnd
  exact treat_of_isSettled hs ha (Injection.isSettled_text hi hnames hsettled)
    (Injection.target_text hi hlisted) (Injection.reaches_text hi hlisted)

end Treatment

/-- A project with one header in a directory below it. -/
def sampleWorkspace : Workspace where
  files := ⟨{ entries :=
    [(["p"], .dir), (["p", "lib"], .dir), (["p", "lib", "m.cz.h"], .file [])] }, ["p"]⟩
  tools := default

/-- What becomes of a directive, a marker and an include that has no line end. -/
def sampleTreated : Treated where
  text := "#include \"lib/m.cz.h\"\r\n#include \"./b.cz.h\"\r\n#include \"a.cz.h\"\r\n"
  removed := ["#pragma czar debug off\r\n"]
  imports := [{ modulePath := "lib", line := 1, headers := ["lib/m.cz.h"] }]
  added := ["a.cz.h"]

theorem treat_treat_text_sample :
    treat BufferSize.default sampleWorkspace "a.cz" ["a.cz", "b.cz"]
        "#pragma czar debug off\r\n#import \"lib\"\r\n#include \"./b.cz.h\"" =
      .ok sampleTreated ∧
    treat BufferSize.default sampleWorkspace "a.cz" ["a.cz", "b.cz"] sampleTreated.text =
      .ok ⟨sampleTreated.text, [], [], []⟩ := by
  have hstripped : Stripped.ofText BufferSize.default
      "#pragma czar debug off\r\n#import \"lib\"\r\n#include \"./b.cz.h\"" =
      ⟨"#import \"lib\"\r\n#include \"./b.cz.h\"", ["#pragma czar debug off\r\n"]⟩ := by
    rw [stripped_ofText]
    decide +kernel
  have hexpanded : Expansion.ofText sampleWorkspace.files (Path.parent "a.cz")
      "#import \"lib\"\r\n#include \"./b.cz.h\"" =
      { lines := [
          { text := "#include \"lib/m.cz.h\"\r\n"
            request := some { modulePath := "lib", line := 1, headers := ["lib/m.cz.h"] }
            directory := some ["p", "lib"] },
          { text := "#include \"./b.cz.h\"" }] } := by
    cbv
  have hinjected : Injection.ofText sampleWorkspace.files (Path.parent "a.cz") "a.cz.h" ["b.cz.h"]
      "#include \"lib/m.cz.h\"\r\n#include \"./b.cz.h\"" =
      .ok ⟨sampleTreated.text, ["a.cz.h"]⟩ := by
    cbv
  -- The treatments are put together from the parts that were just evaluated.
  have htreated : treat BufferSize.default sampleWorkspace "a.cz" ["a.cz", "b.cz"]
      "#pragma czar debug off\r\n#import \"lib\"\r\n#include \"./b.cz.h\"" =
      .ok sampleTreated := by
    refine treat_eq_ok_iff.mpr ⟨["b.cz.h"], ⟨"a.cz.c", "a.cz.h", "a.o"⟩,
      ⟨sampleTreated.text, ["a.cz.h"]⟩, by cbv, by cbv, ?_⟩
    rw [hstripped, hexpanded]
    exact ⟨rfl, hinjected, rfl⟩
  exact ⟨htreated, treat_treat_text htreated (by decide +kernel) (by decide +kernel)
    (by decide +kernel)⟩

end DialectBuild
