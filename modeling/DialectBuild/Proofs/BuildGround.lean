import DialectBuild.Proofs.BuildPhases

/-!
# The Ground of a Build

What stays the same on disk while a project is built and built again. A build writes to the
places of its units, to their objects and to the place of the program, and to nothing else. No
source is at any of these places, and the only generated headers there are those of the units.
So the files at any time during a build show the same sources as those at its start, and once
every unit has its header they show the same headers, too.

The files at the start are the ground `f` throughout, and what is said of files that a build has
made of them is said relative to this ground. The second build of a project starts with what the
first one left behind, and is on the same ground.

## Main definitions

* `IsProject`: Files with a project that can be built.
* `Built`: The places that a build writes to.
* `OnGround`: What a build makes of the files of a project.
* `Headed`: Files among which every unit has its header.

## Theorems

* `not_built_source`, `header_of_built`: Which files are not, or may be, where a build writes.
* `OnGround.sources_eq`: The same sources are discovered at any time.
* `OnGround.importAlike`: The same headers are found once they have been written.
-/

namespace DialectBuild

/-- A name with one ending does not have another one, if neither ends the other. -/
theorem not_endsWith_append {n e e' : Text} (h : ¬ e <:+ e') (h' : ¬ e' <:+ e) :
    (n ++ e).endsWith e' = false := by
  rw [Bool.eq_false_iff]
  intro hends
  rcases List.suffix_or_suffix_of_suffix (List.isSuffixOf_iff_suffix.mp hends)
    (List.suffix_append n e) with hsuffix | hsuffix
  · exact h' hsuffix
  · exact h hsuffix

/-- The place of the file that a path names: in its directory, under its last part. -/
def Files.slotOf (f : Files) (p : Path) : Place :=
  f.placeOf p.parent ++ [p.name]

/-- Files with a project that can be built: there are no links, and the program goes to a
    directory that is there, under a name that neither a source nor a generated header has, and
    not over the C text of a unit. -/
structure IsProject (f : Files) (r : BuildRequest) (sources : List Path) : Prop where
  /-- There are no links. -/
  linkless : f.IsLinkless
  /-- The tree is one that a file system has. -/
  sound : f.tree.IsSound
  /-- These are the sources of the project. -/
  discovers : f.sources r.root = .ok sources
  /-- The directory of the program is there. -/
  parent : f.isDir r.output.parent = .ok true
  /-- The program is not named like a source. -/
  notSource : r.output.name.endsWith sourceEnding = false
  /-- The program is not named like a generated header. -/
  notHeader : r.output.name.endsWith headerEnding = false
  /-- The program is not the C text of a unit. -/
  notCode : ∀ s ∈ sources, f.slotOf r.output ≠ f.placeOf (Artifacts.beside s).code

/-- The places that a build writes to. -/
def Built (f : Files) (r : BuildRequest) (sources : List Path) (q : Place) : Prop :=
  (∃ s ∈ sources, f.Owns s q) ∨ (∃ s ∈ sources, q = f.slotOf (Artifacts.beside s).object) ∨
    q = f.slotOf r.output

/-- What a build has made of the files `f` so far. -/
structure OnGround (f : Files) (r : BuildRequest) (sources : List Path) (g : Files) : Prop where
  /-- Only places that the build writes to have been touched. -/
  changes : Files.ChangesOnly (Built f r sources) f g
  /-- The tree is still one that a file system has. -/
  sound : g.tree.IsSound

/-- Every unit has its header. -/
def Headed (sources : List Path) (g : Files) : Prop :=
  ∀ s ∈ sources, ∃ b, g.read (Artifacts.beside s).header = .ok b

section Places

variable {f g : Files} {r : BuildRequest} {sources : List Path} {place : Place} {x : Text}

theorem Files.ChangesOnly.slotOf_eq {touched : Place → Prop} (h : Files.ChangesOnly touched f g)
    (p : Path) : g.slotOf p = f.slotOf p := by
  rw [Files.slotOf, Files.slotOf, h.placeOf_eq]

theorem slotOf_object (f : Files) (s : Path) :
    f.slotOf (Artifacts.beside s).object = f.placeOf s.parent ++ [stem s ++ ".o"] := by
  rw [Files.slotOf, Artifacts.beside, Path.parent_child, Path.name_child]

/-- The last name at a place that a build writes to. -/
theorem name_of_built (h : Built f r sources (place ++ [x])) :
    (∃ s ∈ sources, ∃ e ∈ writtenEndings, place = f.placeOf s.parent ∧ x = s.name ++ e) ∨
      (∃ s ∈ sources, x = stem s ++ ".o") ∨ x = r.output.name := by
  rcases h with ⟨s, hs, e, he, hq⟩ | ⟨s, hs, hq⟩ | hq
  · rcases List.append_inj' hq rfl with ⟨hplace, hx⟩
    exact Or.inl ⟨s, hs, e, he, hplace, List.singleton_inj.mp hx⟩
  · rw [slotOf_object] at hq
    exact Or.inr (Or.inl ⟨s, hs, List.singleton_inj.mp (List.append_inj' hq rfl).2⟩)
  · exact Or.inr (Or.inr (List.singleton_inj.mp (List.append_inj' hq rfl).2))

/-- A build writes nowhere where a source could be. -/
theorem not_built_source (h : IsProject f r sources) (hx : x.endsWith sourceEnding = true) :
    ¬ Built f r sources (place ++ [x]) := by
  intro hbuilt
  rw [← Bool.not_eq_false] at hx
  refine hx ?_
  rcases name_of_built hbuilt with ⟨s, _, e, he, _, rfl⟩ | ⟨s, _, rfl⟩ | rfl
  · rcases writtenEndings_sourceEnding e he with ⟨hends, hends'⟩
    exact not_endsWith_append hends hends'
  · exact not_endsWith_append (by decide) (by decide)
  · exact h.notSource

/-- The only generated headers that a build writes are those of its units. -/
theorem header_of_built (h : IsProject f r sources) (hx : x.endsWith headerEnding = true)
    (hbuilt : Built f r sources (place ++ [x])) :
    ∃ s ∈ sources, place ++ [x] = f.placeOf (Artifacts.beside s).header := by
  have hother : ∀ e ∈ writtenEndings, e = ".h" ∨ ¬ e <:+ headerEnding ∧ ¬ headerEnding <:+ e := by
    decide
  rw [← Bool.not_eq_false] at hx
  rcases name_of_built hbuilt with ⟨s, hs, e, he, rfl, rfl⟩ | ⟨s, _, rfl⟩ | rfl
  · rcases hother e he with rfl | ⟨hends, hends'⟩
    · exact ⟨s, hs, (Files.placeOf_written (by decide) f s).symm⟩
    · exact absurd (not_endsWith_append hends hends') hx
  · exact absurd (not_endsWith_append (by decide) (by decide)) hx
  · exact absurd h.notHeader hx

end Places

namespace OnGround

variable {f g k : Files} {r : BuildRequest} {sources : List Path}

theorem refl (h : IsProject f r sources) : OnGround f r sources f :=
  ⟨Files.ChangesOnly.refl _ _, h.sound⟩

theorem alike (h : OnGround f r sources g) (hp : IsProject f r sources) : Files.Alike f g :=
  h.changes.alike hp.linkless

/-- More changes at the same places. -/
theorem step (h : OnGround f r sources g) {touched : Place → Prop}
    (hchanges : Files.ChangesOnly touched g k) (htouched : ∀ q, touched q → Built f r sources q)
    (hsound : k.tree.IsSound) : OnGround f r sources k :=
  ⟨h.changes.trans (hchanges.mono htouched), hsound⟩

theorem isLinkless (h : OnGround f r sources g) (hp : IsProject f r sources) : g.IsLinkless :=
  h.changes.isLinkless hp.linkless

theorem apart (h : OnGround f r sources g) (hp : IsProject f r sources) : g.Apart sources :=
  (Files.apart_of_sources hp.sound hp.discovers).of_changesOnly h.changes

/-- A unit writes one of its files. -/
theorem write (h : OnGround f r sources g) (hp : IsProject f r sources) {s : Path}
    (hs : s ∈ sources) {e t : Text} {u : Unit} (he : e ∈ writtenEndings)
    (he' : e ++ ".tmp" ∈ writtenEndings)
    (hwrite : writeAtomic (s.parent.child (s.name ++ e)) t g = .ok u k) :
    OnGround f r sources k := by
  have hl := h.isLinkless hp
  refine h.step (Files.changesOnly_owns hl he he' hwrite) ?_ ?_
  · rw [h.changes.owns_eq]
    exact fun q hq => Or.inl ⟨s, hs, hq⟩
  · refine Files.isSound_writeAtomic hl h.sound ((h.apart hp).isSource s hs) ?_ he he' hwrite
    rw [h.changes.placeOf_eq]
    exact Files.named_of_sources hp.linkless hp.sound hp.discovers s hs

/-- The same sources are discovered at any time. -/
theorem sources_eq (h : OnGround f r sources g) (hp : IsProject f r sources) {sources' : List Path}
    (hg : g.sources r.root = .ok sources') : sources' = sources :=
  ((h.alike hp).sources_eq hp.sound h.sound
    (fun _ _ hx => h.changes.outside _ (not_built_source hp hx)) hp.discovers hg).symm

/-- A source is read as at the start. -/
theorem text_eq (h : OnGround f r sources g) (hp : IsProject f r sources) {s : Path}
    (hs : s.IsSource) {t : Text} (ht : g.text s = .ok t) : f.text s = .ok t := by
  rcases Files.text_eq_ok_iff.mp ht with ⟨b, hread, hdecode⟩
  have hnot : ¬ Built f r sources (f.placeOf s) := by
    rw [Files.placeOf_source hs]
    exact not_built_source hp (List.isSuffixOf_iff_suffix.mpr hs.ending)
  refine Files.text_eq_ok_iff.mpr ⟨b, (h.alike hp).symm.read hread ?_, hdecode⟩
  rw [h.changes.placeOf_eq]
  exact (h.changes.outside _ hnot).symm

theorem find?_of_headed (h : OnGround f r sources g) (hp : IsProject f r sources)
    (hg : Headed sources g) {s : Path} (hs : s ∈ sources) :
    ∃ b, g.tree.find? (f.placeOf (Artifacts.beside s).header) = some (.file b) := by
  rcases hg s hs with ⟨b, hb⟩
  have hl := h.isLinkless hp
  have hfind := Files.find?_of_spot hl ((Files.read_eq_ok_iff hl).mp hb)
  rw [h.changes.placeOf_eq] at hfind
  exact ⟨b, hfind⟩

/-- Where headers have been written, imports find the same ones. -/
theorem importAlike (h : OnGround f r sources g) (h' : OnGround f r sources k)
    (hp : IsProject f r sources) (hg : Headed sources g) (hk : Headed sources k) :
    Files.ImportAlike g k where
  toAlike := (h.alike hp).symm.trans (h'.alike hp)
  soundLeft := h.sound
  soundRight := h'.sound
  headers := by
    intro place x hx
    by_cases hbuilt : Built f r sources (place ++ [x])
    · -- It is the header of a unit, and both have it.
      rcases header_of_built hp hx hbuilt with ⟨s, hs, hq⟩
      have hfile := h.find?_of_headed hp hg hs
      have hfile' := h'.find?_of_headed hp hk hs
      rw [← hq] at hfile hfile'
      exact ⟨fun _ => hfile', fun _ => hfile⟩
    · rw [h.changes.outside _ hbuilt, h'.changes.outside _ hbuilt]

end OnGround

end DialectBuild
