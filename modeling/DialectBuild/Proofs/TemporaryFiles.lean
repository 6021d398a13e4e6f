import DialectBuild.Proofs.ChildPaths

/-!
# All or Nothing

What writing a file by way of a temporary one does in any tree, whether it succeeds or fails. The
temporary file is next to the file: both are in the directory that the path leads through, at two
different places. It is written first and then moved, and if anything fails, it is removed again.

If there is a link at the temporary path, it is the link that is moved, and what was written is
elsewhere. Without one there are two outcomes. Either the file is in place with its content, the
temporary one is gone, and nothing else has changed. Or nothing has changed at all, except that no
file is left at the temporary path. Only a file that was there before is left if its directory is
locked, for then it can be written but not removed.

What a place holds and what a path leads to are not the same. If there was a link at the path, it
has made way for the file, and a path that leads through that link leads nowhere then. So the file
can be read by its path if its directory can still be reached by the path of that, and this is
certain if there was no link.

## Main definitions

* `Files.Drafts`: Files in which a temporary file has been written, or nothing yet.
* `Files.Installs`: Files in which it has been moved.
* `Files.IsKept`: An entry that cannot be removed, since its directory is locked.
* `Files.Replaces`: A file has been written and nothing else has changed.
* `Files.Spares`: A file has not been written and nothing has changed.

## Theorems

* `Files.LeadsTo.ne_temporary`: A file and its temporary one are at different places.
* `Files.exists_installs_of_rename`: A temporary file is moved into place.
* `Files.Drafts.ensures_unlink`: A temporary file is removed again.
* `Files.writeAtomic_allOrNothing`: A file is written, or nothing changes.
* `Files.writeAtomic_astray`: Where a path no longer leads to the file, or a temporary one is left.
-/

namespace DialectBuild

namespace Files

section Naming

variable {f : Files} {p : Path} {place draft : Place}

theorem ne_nil_of_endsInName (h : endsInName p = true) : p.parts ≠ [] := by
  intro hparts
  rw [endsInName, hparts] at h
  cases h

theorem name_ne_up_of_endsInName (h : endsInName p = true) : p.name ≠ Path.up := by
  rw [endsInName, Option.any_eq_true] at h
  rcases h with ⟨x, hlast, hx⟩
  rw [Path.name, Path.name?, hlast, Option.getD_some]
  exact bne_iff_ne.mp hx

theorem endsInName_temporary (p : Path) : endsInName p.temporary = true := by
  have hname := plain_of_suffix (e := ".tmp") (by decide) (List.suffix_append p.name ".tmp")
  rw [endsInName, Path.temporary, Path.child, List.getLast?_concat]
  exact bne_iff_ne.mpr hname.1

/-- The temporary file of a path is in its directory. -/
theorem LeadsTo.exists_of_temporary (h : f.LeadsTo false p.temporary draft) :
    ∃ dir, f.LeadsTo true p.parent dir ∧ f.tree.find? dir = some .dir ∧
      draft = dir ++ [p.name ++ ".tmp"] := by
  rcases h.exists_directory with ⟨dir, hdir, hfind, henters⟩
  have hname := plain_of_suffix (e := ".tmp") (by decide) (List.suffix_append p.name ".tmp")
  exact ⟨dir, hdir, hfind, henters.eq_concat hname.1 hname.2⟩

/-- A path that has a name leads there from its directory. -/
theorem LeadsTo.exists_parent (h : f.LeadsTo false p place) (hparts : p.parts ≠ []) :
    ∃ dir, f.LeadsTo true p.parent dir ∧ f.tree.find? dir = some .dir ∧
      Enters dir p.name place := by
  rw [← Path.child_parent hparts] at h
  exact h.exists_directory

/-- A file and its temporary one are at different places. -/
theorem LeadsTo.ne_temporary (h : f.LeadsTo false p place) (hparts : p.parts ≠ [])
    (hdraft : f.LeadsTo false p.temporary draft) : place ≠ draft := by
  rcases h.exists_parent hparts with ⟨dir, hdir, _, henters⟩
  rcases hdraft.exists_of_temporary with ⟨dir', hdir', _, rfl⟩
  rw [← hdir.unique hdir']
  generalize p.name = x at henters
  -- By length: the draft is one name below the directory, and its name is longer.
  intro heq
  have hlength := congrArg List.length heq
  rw [List.length_append, List.length_singleton] at hlength
  cases henters with
  | up =>
      rw [List.length_dropLast] at hlength
      omega
  | dot => omega
  | into _ =>
      have hname := List.cons.inj (List.append_cancel_left heq)
      have hsuffix := congrArg List.length hname.1
      rw [List.length_append] at hsuffix
      exact absurd hsuffix (by simp [Text.ofString])

end Naming

/-- The files with a file at a place, which is not at the place of its draft any more, as far as
    anything can be found in them. -/
structure Installs (f : Files) (draft place : Place) (b : Bytes) (g : Files) : Prop where
  /-- The working directory is the same. -/
  home : g.home = f.home
  /-- The same may be done in every directory. -/
  rights : g.tree.rights = f.tree.rights
  /-- The file is there, the draft is not, and all else is as before. -/
  find? : ∀ q, g.tree.find? q =
    if q = place then some (.file b) else if q = draft then none else f.tree.find? q
  /-- The draft was somewhere else. -/
  apart : place ≠ draft
  /-- There was nothing or a file before where the draft was. -/
  plain : Tree.IsPlain (f.tree.find? draft)
  /-- There was no directory at the place before. -/
  free : f.tree.find? place ≠ some .dir

section Moving

variable {f g k : Files} {place : Place} {b : Bytes}

/-- A temporary file that has been written without a link in the way is taken from its place and
    put at that of the path. -/
theorem exists_installs_of_rename {p : Path} (h : f.Overwrites place b g)
    (hleads : f.LeadsTo false p.temporary place) (hrename : g.rename p.temporary p = .ok k) :
    ∃ c, f.LeadsTo false p c ∧ endsInName p = true ∧ f.Installs place c b k := by
  have hfile := h.leadsTo hleads
  rcases hfile.exists_of_rename h.find?_self
    (by simp only [ne_eq, reduceCtorEq, not_false_eq_true]) hrename with
    ⟨c, hc, hends, hdir, _, rfl⟩
  have hne : c ≠ place := hc.ne_temporary (ne_nil_of_endsInName hends) hfile
  -- The path led to the same place before the temporary file was written.
  have hsame : g.tree.find? c = f.tree.find? c := h.find?_of_ne hne
  have hbefore : f.LeadsTo false p c :=
    hc.of_differsPlainly h.home.symm h.differsPlainly.symm (fun hnone => hsame.trans hnone)
  refine ⟨c, hbefore, hends, h.home, h.rights, fun q => ?_, hne, h.plain, hsame ▸ hdir⟩
  rw [find?_withEntry (ne_nil_of_not_dir hdir), find?_erase g.tree (ne_nil_of_isPlain h.isPlain)]
  by_cases hq : q = place
  · rw [if_pos hq, if_pos hq]
  · rw [if_neg hq, if_neg hq, h.find?_of_ne hq]

theorem Installs.find?_self {draft : Place} (h : f.Installs draft place b g) :
    g.tree.find? place = some (.file b) := by
  rw [h.find?, if_pos rfl]

/-- If there was no link at the place, nothing but files has changed. -/
theorem Installs.differsPlainly {draft : Place} (h : f.Installs draft place b g)
    (hlink : ∀ target, f.tree.find? place ≠ some (.link target)) :
    Tree.DiffersPlainly f.tree g.tree := by
  intro q
  rw [h.find?]
  -- Two places change: the one that is written and the one of the draft.
  by_cases hq : q = place
  · rw [if_pos hq, hq]
    refine Or.inr ⟨fun e he => ?_, Tree.isPlain_file b⟩
    cases e with
    | file b' => exact ⟨b', rfl⟩
    | dir => exact absurd he h.free
    | link target => exact absurd he (hlink target)
  rw [if_neg hq]
  by_cases hdraft : q = draft
  · rw [if_pos hdraft, hdraft]
    exact Or.inr ⟨h.plain, Tree.isPlain_none⟩
  · rw [if_neg hdraft]
    exact Or.inl rfl

/-- Every directory and every link was there before. -/
theorem Installs.find?_eq {draft q : Place} {e : Entry} (h : f.Installs draft place b g)
    (he : g.tree.find? q = some e) (hnot : ∀ b, e ≠ .file b) : f.tree.find? q = some e := by
  rw [h.find?] at he
  by_cases hq : q = place
  · rw [if_pos hq, Option.some.injEq] at he
    exact absurd he.symm (hnot b)
  rw [if_neg hq] at he
  by_cases hdraft : q = draft
  · rw [if_pos hdraft] at he
    cases he
  · rw [if_neg hdraft] at he
    exact he

/-- A directory that a path leads to is one that it led to before. -/
theorem Installs.leadsTo_of_leadsTo {draft dir : Place} {p : Path} {follow : Bool}
    (h : f.Installs draft place b g) (hp : g.LeadsTo follow p dir)
    (hdir : g.tree.find? dir = some .dir) : f.LeadsTo follow p dir := by
  have hstart : f.start p = g.start p := by
    rw [start, start, h.home]
  rw [leadsTo_iff] at hp ⊢
  rw [hstart]
  exact ⟨hp.1, hp.2.1, hp.2.2.of_kept (fun q e he hnot => h.find?_eq he hnot) hdir⟩

end Moving

/-- In `g`, the file at the path `p` of `f` has been replaced by one with the given content, by way
    of its temporary file. -/
structure Replaces (f : Files) (p : Path) (content : Bytes) (g : Files) : Prop where
  /-- The working directory is the same. -/
  home : g.home = f.home
  /-- The same may be done in every directory. -/
  rights : g.tree.rights = f.tree.rights
  /-- The file is in the directory, the temporary one is not, and all else is as before. -/
  placed : ∃ dir, f.LeadsTo true p.parent dir ∧ ∀ q, g.tree.find? q =
    if q = dir ++ [p.name] then some (.file content)
    else if q = dir ++ [p.name ++ ".tmp"] then none
    else f.tree.find? q
  /-- The file can be read by its path if there is a path to its directory. -/
  read : g.isDir p.parent = .ok true → g.read p = .ok content
  /-- There is one unless the file has taken the place of a link. -/
  reached : ¬ f.IsLink p → g.isDir p.parent = .ok true
  /-- There is nothing at the temporary path. -/
  gone : ∀ place e, g.spot false p.temporary ≠ .ok (.present place e)

/-- The entry at the path is kept, whatever is done to remove it, since its directory is locked. -/
def IsKept (f : Files) (p : Path) (e : Entry) : Prop :=
  ∃ q, f.LeadsTo false p q ∧ f.tree.find? q = some e ∧ f.tree.isLocked q = true

/-- In `g`, nothing has changed but what was at the path of the temporary file for `p`, where there
    is no file, unless there was one that is kept. -/
structure Spares (f : Files) (p : Path) (g : Files) : Prop where
  /-- The working directory is the same. -/
  home : g.home = f.home
  /-- The same may be done in every directory. -/
  rights : g.tree.rights = f.tree.rights
  /-- Whatever the temporary path does not name is as before. -/
  others : ∀ q, ¬ f.LeadsTo false p.temporary q → g.tree.find? q = f.tree.find? q
  /-- So is what the path names. -/
  target : ∀ q, f.LeadsTo false p q → g.tree.find? q = f.tree.find? q
  /-- What the temporary path names may have been removed, or written where it is kept. -/
  draft : ∀ q, f.LeadsTo false p.temporary q → Keeps f g q
  /-- There is no file at the temporary path, if there is such a path, but one that is kept. -/
  gone : p.parts ≠ [] → g.isFile p.temporary = .ok true → ∃ b, f.IsKept p.temporary (.file b)

/-- In `g`, a file has been written at the path, or nothing has been done. -/
def Drafts (f : Files) (p : Path) (g : Files) : Prop :=
  g = f ∨ ∃ place b, f.LeadsTo true p place ∧ f.Overwrites place b g

section Outcomes

variable {f g k : Files} {p : Path} {place : Place} {b : Bytes}

/-- A temporary file that has been written without a link in the way replaces the file. -/
theorem replaces_of_rename (h : f.Overwrites place b g)
    (hleads : f.LeadsTo false p.temporary place) (hrename : g.rename p.temporary p = .ok k) :
    f.Replaces p b k := by
  rcases exists_installs_of_rename h hleads hrename with ⟨c, hc, hends, hinstalls⟩
  have hparts := ne_nil_of_endsInName hends
  rcases hc.exists_parent hparts with ⟨dir, hdir, hfind, henters⟩
  rcases hleads.exists_of_temporary with ⟨dir', hdir', _, rfl⟩
  rw [← hdir.unique hdir'] at hinstalls
  -- There is no directory at the place, so it is in the directory.
  have hup : p.name ≠ Path.up := name_ne_up_of_endsInName hends
  have hne : c ≠ dir := fun heq => hinstalls.free (heq ▸ hfind)
  have hstep := henters.isStep hup hne
  have hplace : c = dir ++ [p.name] := henters.eq_concat hup hstep.2.1
  subst hplace
  -- The directory is reached as before, if it is reached.
  have hsame : ∀ dir', k.LeadsTo true p.parent dir' → k.tree.find? dir' = some .dir →
      dir' = dir := fun dir' hk hdir' =>
    (hinstalls.leadsTo_of_leadsTo hk hdir').unique hdir
  refine ⟨hinstalls.home, hinstalls.rights, ⟨dir, hdir, hinstalls.find?⟩, fun hreached => ?_,
    fun hlink => ?_, fun q e hspot => ?_⟩
  · rcases isDir_eq_true_iff.mp hreached with ⟨dir', hk, hdir'⟩
    have heq := hsame dir' hk hdir'
    rw [heq] at hk hdir'
    have hleads' : k.LeadsTo true (p.parent.child p.name) (dir ++ [p.name]) := by
      refine hk.child hdir' hstep (isClear_of_spot hc).name ?_ fun _ target htarget => ?_
      · rw [Path.child_parent hparts]
        exact (leadsTo_iff.mp hc).2.1
      · rw [hinstalls.find?_self] at htarget
        cases htarget
    rw [Path.child_parent hparts] at hleads'
    exact hleads'.read_eq hinstalls.find?_self
  · have hdiffers := hinstalls.differsPlainly (hc.not_link hlink)
    have hkept : k.tree.find? dir = some .dir :=
      hdiffers.find?_eq hfind fun b => by simp only [ne_eq, reduceCtorEq, not_false_eq_true]
    refine isDir_eq_true_iff.mpr ⟨dir, hdir.of_differsPlainly hinstalls.home hdiffers ?_, hkept⟩
    intro hnone
    rw [hkept] at hnone
    cases hnone
  · have hk := leadsTo_of_spot hspot
    rcases hk.exists_of_temporary with ⟨dir', hdir', hfind', hq⟩
    rw [hsame dir' hdir' hfind'] at hq
    have hpresent := Except.ok.inj (hspot.symm.trans hk)
    rw [hq, eq_comm, Tree.spotAt_eq_present_iff, hinstalls.find?, if_neg hinstalls.apart.symm,
      if_pos rfl] at hpresent
    cases hpresent.2

/-- A temporary file that has been written without a link in the way is moved into place. -/
theorem receives_of_rename (h : f.Overwrites place b g)
    (hleads : f.LeadsTo false p.temporary place) (hrename : g.rename p.temporary p = .ok k) :
    f.Receives p b k := by
  rcases exists_installs_of_rename h hleads hrename with ⟨c, hc, _, hinstalls⟩
  have hreplaces := replaces_of_rename h hleads hrename
  refine ⟨⟨_, hc, ?_⟩, fun hlink => hreplaces.read (hreplaces.reached hlink)⟩
  rw [Tree.place_spotAt]
  exact hinstalls.find?_self

theorem Overwrites.write (h : f.Overwrites place b g) (hp : f.LeadsTo true p place) {c : Bytes}
    (hwrite : g.write p c = .ok k) : f.Overwrites place c k := by
  rcases LeadsTo.exists_of_write hwrite with ⟨place', hplace', _, _, rfl⟩
  rw [hplace'.unique (h.leadsTo hp)]
  exact h.again c

/-- A file that is written is at the place that the path leads to, where there was no directory. -/
theorem exists_overwrites_of_write (h : f.write p b = .ok g) :
    ∃ place, f.LeadsTo true p place ∧ f.Overwrites place b g := by
  rcases LeadsTo.exists_of_write h with ⟨place, hplace, hplain, hadded, rfl⟩
  exact ⟨place, hplace, overwrites_withEntry hplain hadded⟩

/-- If there was no link at the path, there is none at a draft. -/
theorem Drafts.not_isLink (h : f.Drafts p g) (hlink : ¬ f.IsLink p) : ¬ g.IsLink p := by
  rcases h with rfl | ⟨place, b, hplace, hover⟩
  · exact hlink
  · rintro ⟨q, target, hspot⟩
    have hfile := hover.leadsTo (hplace.of_not_isLink hlink)
    rw [LeadsTo, Tree.spotAt_of_some hover.find?_self, hspot] at hfile
    cases hfile

/-- A file that cannot be removed is kept, if there is no link. -/
theorem isKept_of_unlink {e : Failure} (hlink : ¬ f.IsLink p) (h : f.unlink p = .error e)
    (hfile : f.isFile p = .ok true) : ∃ b, f.IsKept p (.file b) := by
  rcases isFile_eq_true_iff.mp hfile with ⟨place, b, hplace, hfind⟩
  have hnamed := hplace.of_not_isLink hlink
  exact ⟨b, place, hnamed, hfind, hnamed.isLocked_of_unlink hfind h⟩

/-- Where something has been removed there is no file, if it was no link. -/
theorem not_isFile_of_unlinked (hlink : ¬ f.IsLink p) (h : f.unlink p = .ok g) :
    g.isFile p ≠ .ok true := by
  intro hfile
  rcases LeadsTo.exists_of_unlink h with ⟨place, e, hplace, he, hdir, hhome, _, hfind⟩
  rcases isFile_eq_true_iff.mp hfile with ⟨q, b, hq, hb⟩
  have hne : q ≠ place := by
    rintro rfl
    rw [hfind, if_pos rfl] at hb
    cases hb
  -- Only a file has gone, so that the path led to the same place before.
  have hdiffers : Tree.DiffersPlainly g.tree f.tree := by
    intro r
    by_cases hr : r = place
    · rw [hfind, if_pos hr, hr, he]
      refine Or.inr ⟨Tree.isPlain_none, fun e' he' => ?_⟩
      rw [← Option.some.inj he']
      cases e with
      | file c => exact ⟨c, rfl⟩
      | dir => exact absurd rfl hdir
      | link target => exact absurd he (hplace.not_link hlink target)
    · rw [hfind, if_neg hr]
      exact Or.inl rfl
  have hbefore : f.LeadsTo true p q := by
    refine hq.of_differsPlainly hhome.symm hdiffers fun hgone => ?_
    rw [hfind, if_neg hne]
    exact hgone
  exact hne (hbefore.unique (hplace.following (hplace.not_link hlink)))

theorem Drafts.home (h : f.Drafts p g) : g.home = f.home := by
  rcases h with rfl | ⟨place, b, _, hover⟩
  · rfl
  · exact hover.home

theorem Drafts.rights (h : f.Drafts p g) : g.tree.rights = f.tree.rights := by
  rcases h with rfl | ⟨place, b, _, hover⟩
  · rfl
  · exact hover.rights

/-- A draft is at the place that the path names. -/
theorem Drafts.find?_eq (h : f.Drafts p g) (hlink : ¬ f.IsLink p) {q : Place}
    (hq : ¬ f.LeadsTo false p q) : g.tree.find? q = f.tree.find? q := by
  rcases h with rfl | ⟨place, b, hplace, hover⟩
  · rfl
  · refine hover.find?_of_ne fun heq => hq ?_
    rw [heq]
    exact hplace.of_not_isLink hlink

theorem Drafts.leadsTo (h : f.Drafts p g) (hlink : ¬ f.IsLink p) {q : Place}
    (hq : g.LeadsTo false p q) : f.LeadsTo false p q := by
  rcases h with rfl | ⟨place, b, hplace, hover⟩
  · exact hq
  · have hbefore := hplace.of_not_isLink hlink
    rw [hq.unique (hover.leadsTo hbefore)]
    exact hbefore

/-- Nothing has changed but at the temporary path, and there is no file but one that is kept. -/
theorem spares_of_others (hparts : p.parts ≠ []) (hhome : g.home = f.home)
    (hrights : g.tree.rights = f.tree.rights)
    (hothers : ∀ q, ¬ f.LeadsTo false p.temporary q → g.tree.find? q = f.tree.find? q)
    (hdraft : ∀ q, f.LeadsTo false p.temporary q → Keeps f g q)
    (hgone : g.isFile p.temporary = .ok true → ∃ b, f.IsKept p.temporary (.file b)) :
    f.Spares p g :=
  ⟨hhome, hrights, hothers, fun q hq => hothers q fun hdraft => hq.ne_temporary hparts hdraft rfl,
    hdraft, fun _ => hgone⟩

/-- A draft that cannot be removed has taken the place of a file that is kept. -/
theorem Overwrites.isKept (h : f.Overwrites place b g) (hp : f.LeadsTo false p place)
    {e : Failure} (hunlink : g.unlink p = .error e) : ∃ c, f.IsKept p (.file c) := by
  have hlocked := (h.leadsTo hp).isLocked_of_unlink h.find?_self hunlink
  rw [Tree.isLocked_congr h.rights] at hlocked
  rcases hfind : f.tree.find? place with _ | e'
  · rw [h.added hfind] at hlocked
    cases hlocked
  · rcases h.plain e' hfind with ⟨c, rfl⟩
    exact ⟨c, place, hp, hfind, hlocked⟩

/-- If a draft cannot be removed, nothing has been done, or a file is kept. -/
theorem Drafts.spares_self (h : f.Drafts p.temporary g) (hparts : p.parts ≠ [])
    (hlink : ¬ f.IsLink p.temporary) {e : Failure} (hunlink : g.unlink p.temporary = .error e) :
    f.Spares p g := by
  refine spares_of_others hparts h.home h.rights (fun q => h.find?_eq hlink) (fun q hq => ?_)
    fun hfile => ?_
  · rcases h with rfl | ⟨place, b, hplace, hover⟩
    · exact Or.inl rfl
    · have hnamed := hplace.of_not_isLink hlink
      rcases hover.isKept hnamed hunlink with ⟨c, r, hr, hfind, hlocked⟩
      rw [hr.unique hq] at hfind hlocked
      refine Or.inr (Or.inr ⟨hlocked, ?_, b, ?_⟩)
      · rw [hfind]
        simp only [ne_eq, reduceCtorEq, not_false_eq_true]
      · rw [hq.unique hnamed]
        exact hover.find?_self
  · rcases h with rfl | ⟨place, b, hplace, hover⟩
    · exact isKept_of_unlink hlink hunlink hfile
    · exact hover.isKept (hplace.of_not_isLink hlink) hunlink

/-- A draft of a temporary file that is removed leaves everything else as it was. -/
theorem Drafts.spares (h : f.Drafts p.temporary g) (hparts : p.parts ≠ [])
    (hlink : ¬ f.IsLink p.temporary) (hk : g.unlinkIfPresent p.temporary = .ok k) :
    f.Spares p k := by
  have hlink' := h.not_isLink hlink
  rcases unlinkIfPresent_eq_ok hk with hunlink | ⟨rfl, e, hunlink, _⟩
  · have hgone := not_isFile_of_unlinked hlink' hunlink
    rcases LeadsTo.exists_of_unlink hunlink with ⟨place, e, hplace, _, _, hhome, hrights, hfind⟩
    have hnamed := h.leadsTo hlink hplace
    refine spares_of_others hparts (hhome.trans h.home) (hrights.trans h.rights) (fun q hq => ?_)
      (fun q hq => Or.inr (Or.inl ?_)) fun hfile => absurd hfile hgone
    · have hne : q ≠ place := fun heq => hq (heq ▸ hnamed)
      rw [hfind, if_neg hne]
      exact h.find?_eq hlink hq
    · rw [hfind, if_pos (hq.unique hnamed)]
  · exact h.spares_self hparts hlink hunlink

/-- A temporary file is removed again, or there is none but one that is kept. -/
theorem Drafts.ensures_unlink (h : f.Drafts p.temporary g) (hparts : p.parts ≠ [])
    (hlink : ¬ f.IsLink p.temporary) :
    Action.Ensures (· = g) (FileAction.change (·.unlinkIfPresent p.temporary))
      (fun _ => f.Spares p) fun _ => f.Spares p := by
  refine (FileAction.ensures_change g).mono (fun _ => id) (fun _ k hk => h.spares hparts hlink hk)
    ?_
  rintro e _ ⟨hk, rfl⟩
  exact h.spares_self hparts hlink (unlinkIfPresent_eq_error hk)

/-- A temporary file is written and moved, or not even a draft of it is left, unless it is kept. -/
theorem ensures_writeAtomic_outcome {t : Text} (hlink : p.parts ≠ [] → ¬ f.IsLink p.temporary) :
    Action.Ensures (· = f) (writeAtomic p t) (fun _ => f.Replaces p (Encoding.encode t))
      fun _ => f.Spares p := by
  refine .bind (q := fun temporary g => g = f ∧ p.parts ≠ [] ∧ temporary = p.temporary) ?_
    fun temporary => .given ?_
  · refine .of_except (fun x hx g hg => ⟨hg, temporaryFor_eq_ok_iff.mp hx⟩) ?_
    rintro e he g rfl
    -- A path without a name has no temporary path.
    refine ⟨rfl, rfl, fun _ _ => rfl, fun _ _ => rfl, fun _ _ => Or.inl rfl, fun hparts => ?_⟩
    rw [temporaryFor_eq_ok_iff.mpr ⟨hparts, rfl⟩] at he
    cases he
  rintro ⟨hparts, rfl⟩
  have hlink := hlink hparts
  refine .onOsError (q := fun e g => f.Drafts p.temporary g ∧
    ((∀ o, e ≠ .os o) → f.Spares p g)) ?_ (fun o => ?_) ?_
  · refine .bind ((FileAction.ensures_change f).mono (fun _ => id) (fun _ _ => id) ?_)
      fun _ => .of_each fun f₁ hwrite => ?_
    · rintro e g ⟨hwrite, rfl⟩
      refine ⟨Or.inl rfl, fun _ =>
        spares_of_others hparts rfl rfl (fun _ _ => rfl) (fun _ _ => Or.inl rfl) ?_⟩
      -- A file that is there could have been written.
      intro hfile
      rcases isFile_eq_true_iff.mp hfile with ⟨place, b, hplace, hfind⟩
      rw [LeadsTo, Tree.spotAt_of_some hfind] at hplace
      rw [write, hplace] at hwrite
      cases hwrite
    rcases exists_overwrites_of_write hwrite with ⟨place, hplace, hover⟩
    refine (FileAction.ensures_change f₁).mono (fun _ => id) (fun _ g hrename => ?_) ?_
    · exact replaces_of_rename hover (hplace.of_not_isLink hlink) hrename
    · rintro e _ ⟨hrename, rfl⟩
      refine ⟨Or.inr ⟨place, _, hplace, hover⟩, fun hother => ?_⟩
      have hnull := (exists_spot_of_write hwrite).2
      rcases rename_failsOs hnull (fun h => hnull (Path.null_mem_temporary h)) e hrename with
        ⟨o, rfl⟩
      exact absurd rfl (hother o)
  · refine .bind (q := fun _ => f.Spares p) (.of_each fun g hg => ?_)
      fun _ => .of_throw fun g hg => hg
    exact hg.1.ensures_unlink hparts hlink
  · exact fun e g hother hg => hg.2 hother

/-- Writing a file is all or nothing. In any tree without a link at the temporary path, for any path
    and any text, it either succeeds and replaces the file, or fails and spares everything. The path
    leads to the new file if there is still a path to its directory, which is certain unless there
    was a link in place of the file. A failure leaves no file at the temporary path but one that was
    there before, in a locked directory. -/
theorem writeAtomic_allOrNothing (f : Files) (p : Path) (t : Text)
    (hlink : ∀ temporary, temporaryFor p = .ok temporary → ¬ f.IsLink temporary) :
    (∃ g, writeAtomic p t f = .ok () g ∧ f.Replaces p (Encoding.encode t) g) ∨
      ∃ e g, writeAtomic p t f = .error e g ∧ f.Spares p g := by
  have hensures : Action.Ensures (· = f) (writeAtomic p t) _ _ := ensures_writeAtomic_outcome
    fun hparts => hlink _ (temporaryFor_eq_ok_iff.mpr ⟨hparts, rfl⟩)
  rcases h : writeAtomic p t f with ⟨u, g⟩ | ⟨e, g⟩
  · exact Or.inl ⟨g, rfl, hensures.ok rfl h⟩
  · exact Or.inr ⟨e, g, rfl, hensures.error rfl h⟩

/-- There is no link at a free name. -/
theorem not_isLink_of_absent (place : Place)
    (h : f.spot false p = .ok (.absent place)) : ¬ f.IsLink p := by
  rintro ⟨place', target, hlink⟩
  rw [h] at hlink
  cases hlink

end Outcomes

/-- A directory with a link in it that leads nowhere, and a link to the directory. -/
def linkedOutput : Files :=
  ⟨{ entries := [(["d"], .dir), (["l"], .link "d"), (["d", "out"], .link "gone")] }, []⟩

/-- The same with a file in place of the link in the directory. -/
def filedOutput : Files :=
  ⟨{ entries :=
    [(["d", "out"], .file (Encoding.encode "x")), (["d"], .dir), (["l"], .link "d")] }, []⟩

theorem writeAtomic_allOrNothing_linked :
    (writeAtomic "/l/out" "x" linkedOutput = .ok () filedOutput ∧
      linkedOutput.Replaces "/l/out" (Encoding.encode "x") filedOutput) ∧
    ∃ e, writeAtomic "/l/.." "x" linkedOutput = .error e linkedOutput ∧
      linkedOutput.Spares "/l/.." linkedOutput := by
  have hlink : ∀ temporary, temporaryFor "/l/out" = .ok temporary →
      ¬ linkedOutput.IsLink temporary := by
    intro temporary htemporary
    rw [(temporaryFor_eq_ok_iff.mp htemporary).2]
    exact not_isLink_of_absent ["d", "out.tmp"] (by cbv)
  have hlink' : ∀ temporary, temporaryFor "/l/.." = .ok temporary →
      ¬ linkedOutput.IsLink temporary := by
    intro temporary htemporary
    rw [(temporaryFor_eq_ok_iff.mp htemporary).2]
    exact not_isLink_of_absent ["d", "...tmp"] (by cbv)
  have hwritten : writeAtomic "/l/out" "x" linkedOutput = .ok () filedOutput := by cbv
  have hrefused : writeAtomic "/l/.." "x" linkedOutput =
      .error (refuseMove .busy "/l/...tmp" "/l/..") linkedOutput := by cbv
  refine ⟨⟨hwritten, ?_⟩, _, hrefused, ?_⟩
  · rcases writeAtomic_allOrNothing linkedOutput "/l/out" "x" hlink with
      ⟨g, hg, hreplaces⟩ | ⟨e, g, hg, _⟩
    · rw [hwritten] at hg
      cases hg
      exact hreplaces
    · rw [hwritten] at hg
      cases hg
  · rcases writeAtomic_allOrNothing linkedOutput "/l/.." "x" hlink' with
      ⟨g, hg, _⟩ | ⟨e, g, hg, hspares⟩
    · rw [hrefused] at hg
      cases hg
    · rw [hrefused] at hg
      cases hg
      exact hspares

/-- A link to the directory in which it is. -/
def loopedOutput : Files :=
  ⟨{ entries := [(["l"], .link ".")] }, []⟩

/-- A file in place of the link. -/
def severedOutput : Files :=
  ⟨{ entries := [(["l"], .file (Encoding.encode "x"))] }, []⟩

/-- A locked directory with a temporary file in it. -/
def lockedOutput (content : Text) : Files :=
  ⟨{ entries := [(["out.tmp"], .file (Encoding.encode content))],
     rights := { locked := [[]] } }, []⟩

/-- Where a path leads through the link that makes way for the file, the file is in place, but the
    path does not lead to it. Where a temporary file is kept, it is written and is left behind. -/
theorem writeAtomic_astray :
    (¬ loopedOutput.IsLink (Path.temporary "/l/l") ∧
      writeAtomic "/l/l" "x" loopedOutput = .ok () severedOutput ∧
      severedOutput.isFile "/l/l" = .ok false ∧
      severedOutput.read "/l/l" = .error (refuse .notDirectory "/l/l")) ∧
    ¬ (lockedOutput "").IsLink (Path.temporary "/out") ∧
    (∃ e, writeAtomic "/out" "x" (lockedOutput "") = .error e (lockedOutput "x")) ∧
    (lockedOutput "x").isFile (Path.temporary "/out") = .ok true := by
  refine ⟨⟨not_isLink_of_absent ["l.tmp"] (by cbv), by cbv, by cbv, by cbv⟩, ?_,
    ⟨refuse .permission "/out.tmp", by cbv⟩, by cbv⟩
  rintro ⟨place, target, hlink⟩
  have hfile : (lockedOutput "").spot false (Path.temporary "/out") =
      .ok (.present ["out.tmp"] (.file [])) := by cbv
  rw [hfile] at hlink
  cases hlink

end Files

end DialectBuild
