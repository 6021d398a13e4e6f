import DialectBuild.Build.Discovery
import DialectBuild.Proofs.PlainFiles

/-!
# The Places That Belong to a Unit

A unit writes four files: its C text and its header, and for each of them a temporary one. No
two units write to the same place, and none writes where a source is. Both follow from the
names alone: the four endings are no ends of one another, nor of the ending of sources.

Names that a directory can hold are followed as they are, so that paths which differ in the names
below one root lead to different places.

## Main definitions

* `Files.Owns`: The places that a unit may write to.
* `Path.IsSource`: A path whose last part is the name of a source.
* `Files.Apart`: Sources that lead to different places.
* `Tree.IsSound`: A tree as a file system has it.

## Theorems

* `Files.not_owns_of_ne`: Different units own different places.
* `Files.not_owns_source`: No unit owns the place of a source.
* `Files.placeOf_descend`: Where names below a root lead.
-/

namespace DialectBuild

/-- How the names of the files end that a unit writes before it is compiled. -/
def writtenEndings : List Text :=
  [".c", ".h", ".c.tmp", ".h.tmp"]

theorem writtenEndings_eq_of_suffix :
    ∀ e ∈ writtenEndings, ∀ e' ∈ writtenEndings, e <:+ e' → e = e' := by
  decide

theorem writtenEndings_sourceEnding :
    ∀ e ∈ writtenEndings, ¬ e <:+ sourceEnding ∧ ¬ sourceEnding <:+ e := by
  decide

/-- A name tells which ending was added to which name, if none ends with another one. -/
theorem eq_of_append_endings {endings : List Text}
    (hends : ∀ e ∈ endings, ∀ e' ∈ endings, e <:+ e' → e = e') {n n' e e' : Text}
    (he : e ∈ endings) (he' : e' ∈ endings) (h : n ++ e = n' ++ e') : n = n' ∧ e = e' := by
  have heq : e = e' := by
    rcases List.suffix_or_suffix_of_suffix (List.suffix_append n e)
      (h ▸ List.suffix_append n' e') with hsuffix | hsuffix
    · exact hends e he e' he' hsuffix
    · exact (hends e' he' e he hsuffix).symm
  rw [heq] at h
  exact ⟨List.append_cancel_right h, heq⟩

theorem eq_of_append_writtenEndings {n n' e e' : Text} (he : e ∈ writtenEndings)
    (he' : e' ∈ writtenEndings) (h : n ++ e = n' ++ e') : n = n' ∧ e = e' :=
  eq_of_append_endings writtenEndings_eq_of_suffix he he' h

/-- The last part of the path is the name of a source. -/
structure Path.IsSource (p : Path) : Prop where
  /-- There is a last part. -/
  parts : p.parts ≠ []
  /-- It ends like the name of a source. -/
  ending : sourceEnding <:+ p.name
  /-- It is one part. -/
  noSlash : .char '/' ∉ p.name

/-- A name that ends with more than dots is followed as it is. -/
theorem plain_of_suffix {e t : Text} (he : ∃ x ∈ e, x ≠ '.') (h : e <:+ t) :
    t ≠ Path.up ∧ t ≠ Path.here := by
  rcases he with ⟨x, hx, hne⟩
  have hmem := h.subset hx
  constructor
  · rintro rfl
    rcases List.mem_cons.mp hmem with heq | hmem
    · exact hne heq
    · exact hne (List.mem_singleton.mp hmem)
  · rintro rfl
    exact hne (List.mem_singleton.mp hmem)

namespace Files

variable {f g : Files} {source source' p : Path}

theorem placeOf_child {x : Text} (hx : x ≠ Path.up ∧ x ≠ Path.here) (f : Files) (p : Path) :
    f.placeOf (p.child x) = f.placeOf p ++ [x] := by
  have hstart : f.start (p.child x) = f.start p := rfl
  rw [placeOf, hstart, Path.child, extendPlace_append, ← placeOf, extendPlace_name hx.1 hx.2]
  rfl

/-- The places that the unit of a source may write to. -/
def Owns (f : Files) (source : Path) (place : Place) : Prop :=
  ∃ e ∈ writtenEndings, place = f.placeOf source.parent ++ [source.name ++ e]

/-- A source is where its directory and its name say. -/
theorem placeOf_source (h : source.IsSource) (f : Files) :
    f.placeOf source = f.placeOf source.parent ++ [source.name] := by
  have hplain := plain_of_suffix (by decide : ∃ x ∈ sourceEnding, x ≠ '.') h.ending
  rw [← placeOf_child hplain, Path.child_parent h.parts]

/-- Units of different sources own different places. -/
theorem not_owns_of_ne (h : source.IsSource) (h' : source'.IsSource)
    (hne : f.placeOf source ≠ f.placeOf source') {place : Place} (hown : f.Owns source place) :
    ¬ f.Owns source' place := by
  rintro ⟨e', he', hplace'⟩
  rcases hown with ⟨e, he, hplace⟩
  rw [hplace] at hplace'
  rcases List.append_inj' hplace' rfl with ⟨hdir, hname⟩
  refine hne ?_
  rw [placeOf_source h, placeOf_source h', hdir,
    (eq_of_append_writtenEndings he he' (List.singleton_inj.mp hname)).1]

/-- No unit owns the place of a source. -/
theorem not_owns_source (h' : source'.IsSource) : ¬ f.Owns source (f.placeOf source') := by
  rintro ⟨e, he, hplace⟩
  rw [placeOf_source h'] at hplace
  have hname := List.singleton_inj.mp (List.append_inj' hplace rfl).2
  have hends := h'.ending
  rw [hname] at hends
  rcases List.suffix_or_suffix_of_suffix hends (List.suffix_append _ e) with hsuffix | hsuffix
  · exact (writtenEndings_sourceEnding e he).2 hsuffix
  · exact (writtenEndings_sourceEnding e he).1 hsuffix

theorem placeOf_written {e : Text} (he : e ∈ writtenEndings) (f : Files) (source : Path) :
    f.placeOf (source.parent.child (source.name ++ e)) =
      f.placeOf source.parent ++ [source.name ++ e] := by
  have hdark : ∀ e ∈ writtenEndings, ∃ x ∈ e, x ≠ '.' := by decide
  exact placeOf_child (plain_of_suffix (hdark e he) (List.suffix_append _ e)) f _

/-- The temporary file for one of a unit's files is next to it. -/
theorem temporaryFor_written {e : Text} {temporary : Path}
    (h : temporaryFor (source.parent.child (source.name ++ e)) = .ok temporary) :
    temporary = source.parent.child (source.name ++ (e ++ ".tmp")) := by
  rw [temporaryFor, Path.name_child] at h
  rw [(sibling_eq_ok_iff.mp h).2, ← List.append_assoc]
  exact congrArg (Path.child · _) (Path.parent_child source.parent _)

/-- Writing one of a unit's files touches that file and the temporary one for it. -/
theorem changesOnly_writeAtomic {e t : Text} {u : Unit} (hl : f.IsLinkless)
    (he : e ∈ writtenEndings) (he' : e ++ ".tmp" ∈ writtenEndings)
    (h : writeAtomic (source.parent.child (source.name ++ e)) t f = .ok u g) :
    ChangesOnly (fun place => place = f.placeOf source.parent ++ [source.name ++ e] ∨
        place = f.placeOf source.parent ++ [source.name ++ (e ++ ".tmp")]) f g ∧
      g.read (source.parent.child (source.name ++ e)) = .ok (Encoding.encode t) := by
  rcases writeAtomic_eq_ok hl h with ⟨temporary, htemporary, hchanges, hread⟩
  rw [placeOf_written he, temporaryFor_written htemporary, placeOf_written he'] at hchanges
  exact ⟨hchanges, hread⟩

/-- Writing one kind of file leaves the files of another kind. -/
theorem read_of_writeAtomic {d e t : Text} {u : Unit} {b : Bytes} (hl : f.IsLinkless)
    (hd : d ∈ writtenEndings) (he : e ∈ writtenEndings) (he' : e ++ ".tmp" ∈ writtenEndings)
    (hne : d ≠ e ∧ d ≠ e ++ ".tmp")
    (h : writeAtomic (source.parent.child (source.name ++ e)) t f = .ok u g)
    (hread : f.read (source'.parent.child (source'.name ++ d)) = .ok b) :
    g.read (source'.parent.child (source'.name ++ d)) = .ok b := by
  have hname : ∀ {c}, c ∈ writtenEndings → f.placeOf source'.parent ++ [source'.name ++ d] =
      f.placeOf source.parent ++ [source.name ++ c] → d = c := by
    intro c hc heq
    have hlast := List.singleton_inj.mp (List.append_inj' heq rfl).2
    exact (eq_of_append_writtenEndings hd hc hlast).2
  refine (changesOnly_writeAtomic hl he he' h).1.read hl hread ?_
  rw [placeOf_written hd]
  rintro (heq | heq)
  · exact hne.1 (hname he heq)
  · exact hne.2 (hname he' heq)

theorem ChangesOnly.owns_eq {touched : Place → Prop} (h : ChangesOnly touched f g) :
    g.Owns source = f.Owns source := by
  funext place
  rw [Owns, Owns, h.placeOf_eq]

theorem changesOnly_owns {e t : Text} {u : Unit} (hl : f.IsLinkless) (he : e ∈ writtenEndings)
    (he' : e ++ ".tmp" ∈ writtenEndings)
    (h : writeAtomic (source.parent.child (source.name ++ e)) t f = .ok u g) :
    ChangesOnly (f.Owns source) f g :=
  (changesOnly_writeAtomic hl he he' h).1.mono (fun _ hplace =>
    hplace.elim (fun hplace => ⟨e, he, hplace⟩) (fun hplace => ⟨e ++ ".tmp", he', hplace⟩))

/-- Sources that lead to different places. -/
structure Apart (f : Files) (sources : List Path) : Prop where
  /-- They are sources. -/
  isSource : ∀ s ∈ sources, s.IsSource
  /-- No place is that of two of them. -/
  distinct : ∀ s ∈ sources, ∀ s' ∈ sources, s ≠ s' → f.placeOf s ≠ f.placeOf s'
  /-- None is listed twice. -/
  nodup : sources.Nodup

theorem Apart.of_changesOnly {sources : List Path} {touched : Place → Prop} (h : f.Apart sources)
    (hchanges : ChangesOnly touched f g) : g.Apart sources where
  isSource := h.isSource
  distinct := by
    intro s hs s' hs' hne
    rw [hchanges.placeOf_eq, hchanges.placeOf_eq]
    exact h.distinct s hs s' hs' hne
  nodup := h.nodup

/-- A change at places of one unit leaves what another one has written. -/
theorem Apart.read_of_owns {sources : List Path} (h : f.Apart sources) (hl : f.IsLinkless)
    (hchanges : ChangesOnly (f.Owns source) f g) (hsource : source ∈ sources)
    (hsource' : source' ∈ sources) (hne : source' ≠ source) {e : Text} (he : e ∈ writtenEndings)
    {b : Bytes} (hread : f.read (source'.parent.child (source'.name ++ e)) = .ok b) :
    g.read (source'.parent.child (source'.name ++ e)) = .ok b := by
  refine hchanges.read hl hread (not_owns_of_ne (h.isSource source' hsource')
    (h.isSource source hsource) (h.distinct source' hsource' source hsource hne) ⟨e, he, ?_⟩)
  rw [placeOf_written he]

end Files

/-- A tree as a file system has it: no place is listed twice, and every name is one that a
    directory can hold. -/
structure Tree.IsSound (t : Tree) : Prop where
  /-- No place is listed twice. -/
  nodup : (t.entries.map (·.1)).Nodup
  /-- The names are neither empty nor dots and hold no slash. -/
  named : ∀ place ∈ t.entries.map (·.1), ∀ x ∈ place,
    Path.isPart x = true ∧ x ≠ Path.up ∧ .char '/' ∉ x

namespace Files

/-- Names that a directory can hold are followed as they are. -/
theorem placeOf_descend (f : Files) (root : Path) {names : List Text}
    (h : ∀ x ∈ names, Path.isPart x = true ∧ x ≠ Path.up ∧ .char '/' ∉ x) :
    f.placeOf (root.descend names) = f.placeOf root ++ names := by
  have hplain : ∀ x ∈ names, x ≠ Path.up ∧ x ≠ Path.here := by
    intro x hx
    rcases h x hx with ⟨hpart, hup, _⟩
    exact ⟨hup, fun hdot => absurd (hdot ▸ hpart) (by decide)⟩
  have hstart : f.start (root.descend names) = f.start root := rfl
  rw [placeOf, hstart, Path.descend, extendPlace_append, ← placeOf, extendPlace_of_plain _ hplain]

theorem isSource_descend {root : Path} {names : List Text}
    (hcandidate : Discovery.isCandidate names = true) (hslash : ∀ x ∈ names, .char '/' ∉ x) :
    (root.descend names).IsSource := by
  rw [Discovery.isCandidate, Option.any_eq_true_iff_get] at hcandidate
  rcases hcandidate with ⟨hsome, hends⟩
  have hlast : names.getLast? = some (names.getLast?.get hsome) := (Option.some_get hsome).symm
  generalize names.getLast?.get hsome = x at hlast hends
  have hname : (root.descend names).name = x := by
    rw [Path.name, Path.name?, Path.descend, List.getLast?_append, hlast]
    rfl
  refine ⟨?_, ?_, ?_⟩
  · intro hempty
    rw [(List.append_eq_nil_iff.mp hempty).2] at hlast
    cases hlast
  · rw [hname]
    exact List.isSuffixOf_iff_suffix.mp hends
  · rw [hname]
    exact hslash x (List.mem_of_getLast? hlast)

end Files

end DialectBuild
