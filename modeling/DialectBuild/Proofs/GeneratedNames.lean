import DialectBuild.Proofs.BuiltFiles

/-!
# Generated Files Never Collide

A unit puts five files next to its source: the C text, the header and the object, and the two
temporary files through which the texts are written. Their names are made in three ways. The texts
add an ending to the whole name of the source, the object replaces the ending of sources, and a
temporary file adds one more ending to the name of a text.

Names of sources are arbitrary before their ending, and may look like generated ones themselves, as
`a.cz.c.cz` does. What keeps all files apart is that the three ways come to one: every name is the
stem of the source with one of five endings, and none of these endings is the end of another one or
of the ending of sources. So a name tells the stem and the ending it was made from.

## Main definitions

* `unitFiles`: The files that a unit puts next to its source.

## Theorems

* `unitFiles_eq_ok`: The files of a source are its stem with each of the endings.
* `eq_of_unitFile_eq`: A file tells which source it belongs to, and which of its files it is.
* `unitFile_endsWith_header_iff`: Which files are taken for generated headers.
* `unitFiles_nodup`: No two files of any units are the same, and none is a source.
-/

namespace DialectBuild

/-- The files that a unit puts next to its source: the artifacts and what the texts among them are
    written to first. -/
def unitFiles (source : Path) : Except Failure (List Path) := do
  let artifacts ← Artifacts.ofSource source
  let code ← temporaryFor artifacts.code
  let header ← temporaryFor artifacts.header
  return artifacts.toList ++ [code, header]

section UnitFiles

variable {s s' : Path} {e e' : Text}

/-- The file of a source whose name goes on after the stem with the given ending. -/
def unitFile (s : Path) (e : Text) : Path :=
  s.parent.child (stem s ++ e)

/-- A path that the scanner takes for a source by its name has one, with the ending of sources. -/
theorem named_of_isCandidate (h : Discovery.isCandidate s.parts = true) :
    s.parts ≠ [] ∧ sourceEnding <:+ s.name := by
  rw [Discovery.isCandidate, Option.any_eq_true] at h
  rcases h with ⟨name, hname, hends⟩
  constructor
  · intro hparts
    rw [hparts] at hname
    cases hname
  · rw [Path.name, Path.name?, hname, Option.getD_some]
    exact List.isSuffixOf_iff_suffix.mp hends

/-- The three ways of naming come to one. -/
theorem unitFiles_eq_ok (hs : Discovery.isCandidate s.parts = true) :
    unitFiles s = .ok (unitEndings.map (unitFile s)) := by
  rcases named_of_isCandidate hs with ⟨hparts, hends⟩
  have hchild : ∀ x : Text, (s.parent.child x).parts ≠ [] := fun x =>
    List.append_ne_nil_of_right_ne_nil _ (List.cons_ne_nil x [])
  simp only [unitFiles, Outcome.bind_eq_ok_iff, Outcome.pure_eq_ok_iff,
    Artifacts.ofSource_eq_ok_iff, temporaryFor_eq_ok_iff]
  refine ⟨_, ⟨hparts, rfl⟩, _, ⟨hchild _, rfl⟩, _, ⟨hchild _, rfl⟩, ?_⟩
  simp only [Path.temporary, Path.parent_child, Path.name_child, Artifacts.toList,
    ← stem_append_sourceEnding hends, List.append_assoc]
  rfl

/-- A file tells which source it belongs to, and which of its files it is. -/
theorem eq_of_unitFile_eq (hs : Discovery.isCandidate s.parts = true)
    (hs' : Discovery.isCandidate s'.parts = true) (he : e ∈ unitEndings) (he' : e' ∈ unitEndings)
    (h : unitFile s e = unitFile s' e') : s = s' ∧ e = e' := by
  rcases named_of_isCandidate hs with ⟨hparts, hends⟩
  rcases named_of_isCandidate hs' with ⟨hparts', hends'⟩
  have hparent := congrArg Path.parent h
  have hname := congrArg Path.name h
  simp only [unitFile, Path.parent_child, Path.name_child] at hparent hname
  rcases eq_of_append_endings unitEndings_eq_of_suffix he he' hname with ⟨hstem, hending⟩
  refine ⟨?_, hending⟩
  calc s = s.parent.child s.name := (Path.child_parent hparts).symm
    _ = s'.parent.child s'.name := by
        rw [hparent, ← stem_append_sourceEnding hends, ← stem_append_sourceEnding hends', hstem]
    _ = s' := Path.child_parent hparts'

/-- No file of a unit has the name of a source. -/
theorem isCandidate_unitFile (s : Path) (he : e ∈ unitEndings) :
    Discovery.isCandidate (unitFile s e).parts = false := by
  have hends : ∀ e ∈ unitEndings, ¬ e <:+ sourceEnding ∧ ¬ sourceEnding <:+ e := by decide
  rw [Discovery.isCandidate, unitFile, Path.child, List.getLast?_concat, Option.any_some]
  exact not_endsWith_append (hends e he).1 (hends e he).2

/-- Of the files of a unit, the header is the one that has the name of a generated header. -/
theorem unitFile_endsWith_header_iff (s : Path) (he : e ∈ unitEndings) :
    (unitFile s e).name.endsWith headerEnding = true ↔ e = headerEnding := by
  have hends : ∀ e ∈ unitEndings,
      e = headerEnding ∨ ¬ e <:+ headerEnding ∧ ¬ headerEnding <:+ e := by decide
  rw [unitFile, Path.name_child]
  rcases hends e he with rfl | ⟨hends, hends'⟩
  · exact iff_of_true (List.isSuffixOf_iff_suffix.mpr (List.suffix_append _ _)) rfl
  · refine iff_of_false ?_ ?_
    · rw [not_endsWith_append hends hends']
      decide
    · rintro rfl
      exact hends List.suffix_rfl

end UnitFiles

/-- Where the header of a source is, among its files. -/
theorem Artifacts.header_eq_unitFile {s : Path} {a : Artifacts}
    (hs : Discovery.isCandidate s.parts = true) (h : Artifacts.ofSource s = .ok a) :
    a.header = unitFile s headerEnding := by
  simp only [(Artifacts.ofSource_eq_ok_iff.mp h).2, unitFile,
    ← stem_append_sourceEnding (named_of_isCandidate hs).2, List.append_assoc]
  rfl

/-- The files that the units of different sources put next to them are all different. None is one
    of the sources or has the name of one, and those that have the name of a generated header are
    the headers. -/
theorem unitFiles_nodup {sources : List Path} (hdistinct : sources.Nodup)
    (hsources : ∀ s ∈ sources, Discovery.isCandidate s.parts = true) :
    ∃ files, sources.mapM unitFiles = .ok files ∧ files.flatten.Nodup ∧
      ∀ p ∈ files.flatten, p ∉ sources ∧ Discovery.isCandidate p.parts = false ∧
        (p.name.endsWith headerEnding = true ↔
          ∃ s ∈ sources, ∃ a, Artifacts.ofSource s = .ok a ∧ p = a.header) := by
  refine ⟨sources.map fun s => unitEndings.map (unitFile s), ?_, ?_, ?_⟩
  · rw [Outcome.mapM_eq_ok_iff, List.map_map]
    exact List.map_congr_left fun s hs => unitFiles_eq_ok (hsources s hs)
  · rw [← List.flatMap_def, List.nodup_flatMap]
    refine ⟨fun s hs => ?_, hdistinct.imp_of_mem fun {s s'} hs hs' hne p hp hp' => ?_⟩
    · -- Within a unit the endings differ.
      have hendings : unitEndings.Nodup := by decide
      exact List.pairwise_map.mpr (hendings.imp_of_mem fun {e e'} he he' hne heq =>
        hne (eq_of_unitFile_eq (hsources s hs) (hsources s hs) he he' heq).2)
    · -- Files of two units would tell the same source.
      rcases List.mem_map.mp hp with ⟨e, he, rfl⟩
      rcases List.mem_map.mp hp' with ⟨e', he', heq⟩
      exact hne (eq_of_unitFile_eq (hsources s' hs') (hsources s hs) he' he heq).1.symm
  · intro p hp
    rw [← List.flatMap_def, List.mem_flatMap] at hp
    rcases hp with ⟨s, hs, hp⟩
    rcases List.mem_map.mp hp with ⟨e, he, rfl⟩
    have hcandidate := isCandidate_unitFile s he
    refine ⟨fun hmem => ?_, hcandidate, ?_⟩
    · rw [hsources _ hmem] at hcandidate
      cases hcandidate
    · rw [unitFile_endsWith_header_iff s he]
      constructor
      · rintro rfl
        have hofSource := Artifacts.ofSource_eq_ok_iff.mpr
          ⟨(named_of_isCandidate (hsources s hs)).1, rfl⟩
        exact ⟨s, hs, _, hofSource, (Artifacts.header_eq_unitFile (hsources s hs) hofSource).symm⟩
      · rintro ⟨s', hs', a, ha, heq⟩
        rw [Artifacts.header_eq_unitFile (hsources s' hs') ha] at heq
        exact (eq_of_unitFile_eq (hsources s hs) (hsources s' hs') he (by decide) heq).2

/-- Sources with names that look like generated ones. -/
def lookalikeSources : List Path :=
  ["p/a.cz", "p/a.cz.c.cz", "p/a.cz.h.tmp.cz", "p/a.o.cz", "q/a.cz", "a.cz.h.cz"]

theorem unitFiles_lookalike_nodup : lookalikeSources.Nodup ∧
    (∀ s ∈ lookalikeSources, Discovery.isCandidate s.parts = true) ∧
    ∃ files, lookalikeSources.mapM unitFiles = .ok files ∧ files.flatten.Nodup ∧
      ∀ p ∈ files.flatten, p ∉ lookalikeSources ∧ Discovery.isCandidate p.parts = false ∧
        (p.name.endsWith headerEnding = true ↔
          ∃ s ∈ lookalikeSources, ∃ a, Artifacts.ofSource s = .ok a ∧ p = a.header) := by
  have hdistinct : lookalikeSources.Nodup := by decide +kernel
  have hsources : ∀ s ∈ lookalikeSources, Discovery.isCandidate s.parts = true := by decide
  exact ⟨hdistinct, hsources, unitFiles_nodup hdistinct hsources⟩

end DialectBuild
