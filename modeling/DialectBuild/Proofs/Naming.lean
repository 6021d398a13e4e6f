import DialectBuild.Proofs.Outcome
import DialectBuild.Unit.Basic

/-!
# Names of Sources and Artifacts

Where the artifacts of a source are, in terms of its directory and its name. Every artifact
stands in the directory of its source, so a name alone, read as a path and seen from that
directory, leads to it. This is what makes an include line with nothing but a file name on it
mean the header it was written for.

A path that is read from a text has parts that could stand in a directory: none is empty or
the dot, and none holds a slash. Paths that are put together from such parts have this in
common with them, and it is all that is needed here.

## Main definitions

* `Path.IsProper`: A path whose parts hold no slash, and none of which is empty or the dot.

## Theorems

* `Path.isProper_ofText`: A path that is read is proper.
* `Path.join_ofText`: A name, seen from a directory, is a child of it.
* `Artifacts.ofSource_eq_ok_iff`: Where the artifacts of a source are.
* `mem_headersBeside_iff`: Which headers stand beside that of a unit.
-/

namespace DialectBuild

namespace Text

theorem fields_of_not_mem {sep : Symbol} {t : Text} (h : sep ∉ t) : fields sep t = [t] := by
  induction t with
  | nil => rfl
  | cons x t ih =>
      rw [List.mem_cons, not_or] at h
      rw [fields, if_neg (Ne.symm h.1), ih h.2]

theorem not_mem_of_mem_fields {sep : Symbol} {t f : Text} (h : f ∈ fields sep t) : sep ∉ f := by
  induction t generalizing f with
  | nil =>
      rw [fields, List.mem_singleton] at h
      rw [h]
      exact List.not_mem_nil
  | cons x t ih =>
      rw [fields] at h
      by_cases hx : x = sep
      · rw [if_pos hx, List.mem_cons] at h
        rcases h with rfl | h
        · exact List.not_mem_nil
        · exact ih h
      · rw [if_neg hx] at h
        -- The symbol joins the first field and leaves the others as they are.
        rcases hfs : fields sep t with _ | ⟨g, gs⟩
        · rw [hfs, List.mem_singleton] at h
          rw [h, List.mem_singleton]
          exact Ne.symm hx
        · rw [hfs, List.mem_cons] at h
          rcases h with rfl | h
          · rw [List.mem_cons, not_or]
            exact ⟨Ne.symm hx, ih (hfs ▸ List.mem_cons_self)⟩
          · exact ih (hfs ▸ List.mem_cons_of_mem g h)

end Text

namespace Path

/-- Every part of the path could be read as a part. -/
def IsProper (p : Path) : Prop :=
  ∀ x ∈ p.parts, isPart x = true ∧ .char '/' ∉ x

instance (p : Path) : Decidable p.IsProper :=
  inferInstanceAs (Decidable (∀ x ∈ p.parts, isPart x = true ∧ .char '/' ∉ x))

theorem isProper_ofText (t : Text) : (ofText t).IsProper := by
  intro x hx
  rw [ofText, List.mem_filter] at hx
  exact ⟨hx.2, Text.not_mem_of_mem_fields hx.1⟩

theorem ofText_of_isPart {t : Text} (ht : isPart t = true) (hslash : .char '/' ∉ t) :
    ofText t = ⟨.relative, [t]⟩ := by
  have hnone : t.takeWhile (· == Symbol.char '/') = [] := by
    cases t with
    | nil => rfl
    | cons x t =>
        rw [List.mem_cons, not_or] at hslash
        rw [List.takeWhile_cons, if_neg (fun h => hslash.1 (beq_iff_eq.mp h).symm)]
  rw [ofText, hnone, Text.fields_of_not_mem hslash, List.filter_cons_of_pos ht]
  rfl

/-- A name, read as a path and seen from a directory, is a child of the directory. -/
theorem join_ofText (base : Path) {t : Text} (ht : isPart t = true) (hslash : .char '/' ∉ t) :
    base.join (ofText t) = base.child t := by
  rw [ofText_of_isPart ht hslash, join_of_relative rfl, child]

theorem name_child (p : Path) (t : Text) : (p.child t).name = t := by
  rw [name, name?, child, List.getLast?_concat, Option.getD_some]

theorem parent_child (p : Path) (t : Text) : (p.child t).parent = p := by
  rw [parent, child, List.dropLast_concat]

/-- A path with parts is a child of its parent. -/
theorem child_parent {p : Path} (h : p.parts ≠ []) : p.parent.child p.name = p := by
  rw [child, parent, name, name?, List.getLast?_eq_some_getLast h, Option.getD_some,
    List.dropLast_concat_getLast h]

theorem child_injective {p : Path} {s t : Text} (h : p.child s = p.child t) : s = t := by
  rw [← name_child p s, h, name_child]

theorem name_mem_parts {p : Path} (h : p.parts ≠ []) : p.name ∈ p.parts := by
  rw [name, name?, List.getLast?_eq_some_getLast h, Option.getD_some]
  exact List.getLast_mem h

theorem IsProper.noSlash_name {p : Path} (h : p.IsProper) : .char '/' ∉ p.name := by
  by_cases hparts : p.parts = []
  · rw [name, name?, hparts]
    exact List.not_mem_nil
  · exact (h _ (name_mem_parts hparts)).2

end Path

/-- Every artifact of a source is a child of its directory. -/
theorem Artifacts.ofSource_eq_ok_iff {source : Path} {a : Artifacts} :
    Artifacts.ofSource source = .ok a ↔ source.parts ≠ [] ∧
      a = ⟨source.parent.child (source.name ++ ".c"), source.parent.child (source.name ++ ".h"),
        source.parent.child (stem source ++ ".o")⟩ := by
  simp only [Artifacts.ofSource, Outcome.bind_eq_ok_iff, sibling_eq_ok_iff, Outcome.pure_eq_ok_iff]
  constructor
  · rintro ⟨_, ⟨hne, rfl⟩, _, ⟨_, rfl⟩, _, ⟨_, rfl⟩, rfl⟩
    exact ⟨hne, rfl⟩
  · rintro ⟨hne, rfl⟩
    exact ⟨_, ⟨hne, rfl⟩, _, ⟨hne, rfl⟩, _, ⟨hne, rfl⟩, rfl⟩

/-- The headers beside that of a unit are those of the other sources in its directory. -/
theorem mem_headersBeside_iff {source : Path} {sources hs : List Path}
    (hok : headersBeside source sources = .ok hs) {h : Path} :
    h ∈ hs ↔ ∃ s ∈ sources, s.parent = source.parent ∧ s ≠ source ∧ s.parts ≠ [] ∧
      h = source.parent.child (s.name ++ ".h") := by
  simp only [headersBeside, Outcome.bind_eq_ok_iff, Outcome.pure_eq_ok_iff,
    Outcome.mapM_eq_ok_iff] at hok
  rcases hok with ⟨headers, hmap, rfl⟩
  rw [List.mem_mergeSort, List.mem_eraseDups, Outcome.mem_iff_of_map_eq hmap]
  simp only [List.mem_filter, decide_eq_true_eq, sibling_eq_ok_iff]
  constructor
  · rintro ⟨s, ⟨hs, hparent, hne⟩, hparts, heq⟩
    exact ⟨s, hs, hparent, hne, hparts, hparent ▸ heq⟩
  · rintro ⟨s, hs, hparent, hne, hparts, heq⟩
    rw [← hparent] at heq
    exact ⟨s, ⟨hs, hparent, hne⟩, hparts, heq⟩

/-- A name that an ending is added to is a part. -/
theorem isPart_append_header (t : Text) : Path.isPart (t ++ ".h") = true := by
  have hlen : (t ++ (".h" : Text)).length = t.length + 2 := List.length_append
  rw [Path.isPart, Bool.and_eq_true, Bool.not_eq_true', bne_iff_ne]
  constructor
  · rw [List.isEmpty_eq_false_iff]
    exact List.append_ne_nil_of_right_ne_nil t (List.cons_ne_nil _ _)
  · intro h
    rw [h] at hlen
    have hone : Path.here.length = 1 := rfl
    omega

end DialectBuild
