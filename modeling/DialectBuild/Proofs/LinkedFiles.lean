import DialectBuild.Proofs.Leftovers

/-!
# Writing Files among Links

What writing a file does in a tree that may have links anywhere. A walk that succeeds goes through
directories and links only, and meets anything else at its end. So files can be written, overwritten
and moved without any successful walk taking another way.

A file that is overwritten is the one that its path leads to, through a link at its end. What is
moved or removed is what the path names, be it a link.

## Main definitions

* `Tree.DiffersPlainly`: Trees that differ in nothing but files.
* `Files.LeadsTo`: Where a path leads.
* `Files.IsLink`, `Files.SameFile`: Whether there is a link at a path, and whether two paths lead to
  one file.
* `Files.Receives`: The file at a path is given its content.
* `Files.Overwrites`: Files in which one has been written.

## Theorems

* `Files.Walks.of_differsPlainly`: Walks take no other way.
* `Files.LeadsTo.exists_of_write`, `Files.LeadsTo.exists_of_unlink`,
  `Files.LeadsTo.exists_of_rename`: What writing, removing and moving do.
* `Files.ask_eq_true_iff`: Questions about a path.
-/

namespace DialectBuild

namespace Tree

/-- Nothing or a file. -/
def IsPlain (o : Option Entry) : Prop :=
  ∀ e ∈ o, ∃ b, e = .file b

theorem isPlain_file (b : Bytes) : IsPlain (some (.file b)) := by
  intro e he
  exact ⟨b, (Option.some.inj he).symm⟩

theorem isPlain_none : IsPlain none := by
  intro e he
  cases he

theorem IsPlain.ne_dir {o : Option Entry} (h : IsPlain o) : o ≠ some .dir := by
  intro ho
  rcases h _ ho with ⟨b, hb⟩
  cases hb

theorem IsPlain.ne_link {o : Option Entry} (h : IsPlain o) (target : Text) :
    o ≠ some (.link target) := by
  intro ho
  rcases h _ ho with ⟨b, hb⟩
  cases hb

/-- Trees that differ at most at places which have nothing or a file in both. -/
def DiffersPlainly (t t' : Tree) : Prop :=
  ∀ q, t'.find? q = t.find? q ∨ (IsPlain (t.find? q) ∧ IsPlain (t'.find? q))

namespace DiffersPlainly

variable {t t' : Tree} {q : Place} {e : Entry}

theorem symm (h : DiffersPlainly t t') : DiffersPlainly t' t :=
  fun q => (h q).imp Eq.symm And.symm

/-- A directory or a link of the one is in the other. -/
theorem find?_eq (h : DiffersPlainly t t') (he : t.find? q = some e)
    (hne : ∀ b, e ≠ .file b) : t'.find? q = some e := by
  rcases h q with hq | ⟨hplain, _⟩
  · exact hq.trans he
  · rcases hplain e he with ⟨b, hb⟩
    exact absurd hb (hne b)

/-- Where the one has nothing or a file, so has the other. -/
theorem isPlain (h : DiffersPlainly t t') (hq : IsPlain (t.find? q)) : IsPlain (t'.find? q) := by
  rcases h q with heq | ⟨_, hplain⟩
  · rw [heq]
    exact hq
  · exact hplain

end DiffersPlainly

end Tree

namespace Files

section Walking

variable {t t' : Tree} {follow : Bool} {links : Nat} {here place : Place} {names : List Text}

/-- Among trees that differ in nothing but files a walk takes the same way, unless the file at its
    end is missing. -/
theorem Walks.of_differsPlainly (hdiffers : Tree.DiffersPlainly t t')
    (h : Walks t follow links here names place)
    (hend : t'.find? place = none → t.find? place = none) :
    Walks t' follow links here names place := by
  have hdirs : ∀ {q : Place}, t.find? q = some .dir → t'.find? q = some .dir := fun hq =>
    hdiffers.find?_eq hq fun b => by simp only [ne_eq, reduceCtorEq, not_false_eq_true]
  have hlinks : ∀ {q : Place} {target : Text}, t.find? q = some (.link target) →
      t'.find? q = some (.link target) := fun hq =>
    hdiffers.find?_eq hq fun b => by simp only [ne_eq, reduceCtorEq, not_false_eq_true]
  induction h with
  | @stay links here e he =>
      rcases he' : t'.find? here with _ | e'
      · rw [hend he'] at he
        cases he
      · exact .stay he'
  | up hdir _ ih => exact .up (hdirs hdir) (ih hend)
  | dot hdir _ ih => exact .dot (hdirs hdir) (ih hend)
  | @free links here x hdir hx hfree =>
      rcases he' : t'.find? (here ++ [x]) with _ | e'
      · exact .free (hdirs hdir) hx he'
      · -- What the other tree has there is a file.
        have hplain : Tree.IsPlain (t'.find? (here ++ [x])) :=
          hdiffers.isPlain (hfree ▸ Tree.isPlain_none)
        rcases hplain e' he' with ⟨b, rfl⟩
        exact .into (hdirs hdir) hx he'
          (fun target => by simp only [ne_eq, reduceCtorEq, not_false_eq_true]) (.stay he')
  | stop hdir hx hlink hfollow => exact .stop (hdirs hdir) hx (hlinks hlink) hfollow
  | along hdir hx hlink hmore _ ih =>
      exact .along (hdirs hdir) hx (hlinks hlink) hmore (ih hend)
  | @into links here x e rest place hdir hx he hnot h ih =>
      cases e with
      | link target => exact absurd rfl (hnot target)
      | dir => exact .into (hdirs hdir) hx (hdirs he) hnot (ih hend)
      | file b =>
          rcases h.eq_nil_of_not_dir (by rw [he]; simp) with ⟨rfl, rfl⟩
          rcases he' : t'.find? (here ++ [x]) with _ | e'
          · rw [hend he'] at he
            cases he
          · rcases hdiffers.isPlain (he ▸ Tree.isPlain_file b) e' he' with ⟨b', rfl⟩
            exact .into (hdirs hdir) hx he'
              (fun target => by simp only [ne_eq, reduceCtorEq, not_false_eq_true]) (.stay he')

end Walking

/-- The path leads to the place. -/
def LeadsTo (f : Files) (follow : Bool) (p : Path) (place : Place) : Prop :=
  f.spot follow p = .ok (f.tree.spotAt place)

/-- There is a link at the path. -/
def IsLink (f : Files) (p : Path) : Prop :=
  ∃ place target, f.spot false p = .ok (.present place (.link target))

/-- The paths lead to one file. -/
def SameFile (f : Files) (p q : Path) : Prop :=
  ∃ place, f.openRead p = .ok place ∧ f.openRead q = .ok place

/-- In `g`, the file at the path `p` of `f` has the given content: it is at the place that the path
    names, and the path leads to it unless there was a link. -/
structure Receives (f : Files) (p : Path) (content : Bytes) (g : Files) : Prop where
  /-- The content is in place. -/
  placed : ∃ s, f.spot false p = .ok s ∧ g.tree.find? s.place = some (.file content)
  /-- It can be read. -/
  read : ¬ f.IsLink p → g.read p = .ok content

section Leading

variable {f g : Files} {p q : Path} {follow : Bool} {place : Place} {s : Spot}

/-- A path leads to a place exactly if it is one that can be looked up and the walk gets there. -/
theorem leadsTo_iff : f.LeadsTo follow p place ↔ p.text.contains (.char '\x00') = false ∧
    p.text.byteLength < maxPath ∧ Walks f.tree follow maxLinks (f.start p) p.parts place := by
  rw [LeadsTo, spot_eq_ok_iff, walk_eq_ok_iff]
  constructor
  · rintro ⟨hnull, hlong, place', hwalks, heq⟩
    have hplace : place = place' := by
      rw [← Tree.place_spotAt f.tree place, heq, Tree.place_spotAt]
    exact ⟨hnull, hlong, hplace ▸ hwalks⟩
  · exact fun h => ⟨h.1, h.2.1, place, h.2.2, rfl⟩

theorem leadsTo_of_spot (h : f.spot follow p = .ok s) : f.LeadsTo follow p s.place := by
  rcases walk_eq_ok_iff.mp (spot_eq_ok_iff.mp h).2.2 with ⟨place, _, rfl⟩
  rw [LeadsTo, Tree.place_spotAt]
  exact h

theorem LeadsTo.unique {place' : Place} (h : f.LeadsTo follow p place)
    (h' : f.LeadsTo follow p place') : place = place' := by
  have heq := Except.ok.inj (h.symm.trans h')
  rw [← Tree.place_spotAt f.tree place, heq, Tree.place_spotAt]

/-- A path leads to the same place as before if only files have changed, unless the file that it
    leads to is missing. -/
theorem LeadsTo.of_differsPlainly (h : f.LeadsTo follow p place) (hhome : g.home = f.home)
    (hdiffers : Tree.DiffersPlainly f.tree g.tree)
    (hend : g.tree.find? place = none → f.tree.find? place = none) :
    g.LeadsTo follow p place := by
  have hstart : g.start p = f.start p := by
    rw [start, start, hhome]
  rw [leadsTo_iff] at h ⊢
  rw [hstart]
  exact ⟨h.1, h.2.1, h.2.2.of_differsPlainly hdiffers hend⟩

/-- A path that leads to anything but a link leads there also if links are followed. -/
theorem LeadsTo.following (h : f.LeadsTo false p place)
    (hend : ∀ target, f.tree.find? place ≠ some (.link target)) : f.LeadsTo true p place := by
  rw [leadsTo_iff] at h ⊢
  exact ⟨h.1, h.2.1, h.2.2.following hend⟩

/-- A path at which there is no link leads where it leads also if links are not followed. -/
theorem LeadsTo.of_not_isLink (h : f.LeadsTo true p place) (hlink : ¬ f.IsLink p) :
    f.LeadsTo false p place := by
  rcases leadsTo_iff.mp h with ⟨hnull, hlong, hwalks⟩
  rcases hwalks.not_following with hwalks | ⟨q, target, hwalks, hq⟩
  · exact leadsTo_iff.mpr ⟨hnull, hlong, hwalks⟩
  · have hleads : f.LeadsTo false p q := leadsTo_iff.mpr ⟨hnull, hlong, hwalks⟩
    rw [LeadsTo, Tree.spotAt_of_some hq] at hleads
    exact absurd ⟨q, target, hleads⟩ hlink

theorem LeadsTo.not_link (h : f.LeadsTo false p place) (hlink : ¬ f.IsLink p) :
    ∀ target, f.tree.find? place ≠ some (.link target) := by
  intro target htarget
  rw [LeadsTo, Tree.spotAt_of_some htarget] at h
  exact hlink ⟨place, target, h⟩

theorem LeadsTo.openRead_eq (h : f.LeadsTo true p place) {b : Bytes}
    (hfile : f.tree.find? place = some (.file b)) : f.openRead p = .ok place := by
  rw [LeadsTo, Tree.spotAt_of_some hfile] at h
  exact openRead_eq_ok_iff.mpr ⟨b, h⟩

theorem LeadsTo.read_eq (h : f.LeadsTo true p place) {b : Bytes}
    (hfile : f.tree.find? place = some (.file b)) : f.read p = .ok b := by
  rw [read, h.openRead_eq hfile]
  refine congrArg Except.ok ?_
  unfold contentAt
  rw [hfile]

/-- A file that can be opened is where its path leads. -/
theorem exists_of_openRead (h : f.openRead p = .ok place) :
    ∃ b, f.LeadsTo true p place ∧ f.tree.find? place = some (.file b) ∧ f.contentAt place = b := by
  rcases openRead_eq_ok_iff.mp h with ⟨b, hspot⟩
  have hleads : f.LeadsTo true p place := leadsTo_of_spot hspot
  have hfile : f.tree.find? place = some (.file b) := by
    rw [LeadsTo, hspot, Except.ok.injEq, eq_comm] at hleads
    exact (Tree.spotAt_eq_present_iff.mp hleads).2
  refine ⟨b, hleads, hfile, ?_⟩
  unfold contentAt
  rw [hfile]

/-- A question about a path is answered with yes if it is so where the path leads. -/
theorem ask_eq_true_iff {question : Entry → Bool} : f.ask p question = .ok true ↔
    ∃ place e, f.LeadsTo true p place ∧ f.tree.find? place = some e ∧ question e = true := by
  constructor
  · intro h
    rw [ask] at h
    -- A path that leads nowhere is answered with no, or not at all.
    rcases hspot : f.spot true p with e | s
    · rw [hspot] at h
      dsimp only at h
      by_cases hno : meansNo e = true
      · rw [if_pos hno] at h
        cases h
      · rw [if_neg hno] at h
        cases h
    · have hleads := leadsTo_of_spot hspot
      have hs := Except.ok.inj (hspot.symm.trans hleads)
      cases s with
      | present place e =>
          rw [hspot] at h
          exact ⟨place, e, hleads, (Tree.spotAt_eq_present_iff.mp hs.symm).2, Except.ok.inj h⟩
      | absent place =>
          rw [hspot] at h
          cases h
  · rintro ⟨place, e, hleads, hfind, he⟩
    rw [LeadsTo, Tree.spotAt_of_some hfind] at hleads
    rw [ask, hleads]
    exact congrArg Except.ok he

theorem isDir_eq_true_iff : f.isDir p = .ok true ↔
    ∃ place, f.LeadsTo true p place ∧ f.tree.find? place = some .dir := by
  rw [isDir, ask_eq_true_iff]
  constructor
  · rintro ⟨place, e, hleads, hfind, he⟩
    exact ⟨place, hleads, beq_iff_eq.mp he ▸ hfind⟩
  · rintro ⟨place, hleads, hfind⟩
    exact ⟨place, .dir, hleads, hfind, rfl⟩

theorem isFile_eq_true_iff : f.isFile p = .ok true ↔
    ∃ place b, f.LeadsTo true p place ∧ f.tree.find? place = some (.file b) := by
  rw [isFile, ask_eq_true_iff]
  constructor
  · rintro ⟨place, e, hleads, hfind, he⟩
    cases e with
    | file b => exact ⟨place, b, hleads, hfind⟩
    | dir => cases he
    | link target => cases he
  · rintro ⟨place, b, hleads, hfind⟩
    exact ⟨place, .file b, hleads, hfind, rfl⟩

/-- A file is written where the path leads, over nothing or a file. No name is added to a locked
    directory. -/
theorem LeadsTo.exists_of_write {b : Bytes} (h : f.write p b = .ok g) :
    ∃ place, f.LeadsTo true p place ∧ Tree.IsPlain (f.tree.find? place) ∧
      (f.tree.find? place = none → f.tree.isLocked place = false) ∧
      g = f.withEntry place (.file b) := by
  rw [write, Outcome.bind_eq_ok_iff] at h
  rcases h with ⟨s, hspot, h⟩
  have hleads := leadsTo_of_spot hspot
  refine ⟨s.place, hleads, ?_⟩
  rw [LeadsTo, hspot, Except.ok.injEq] at hleads
  rcases hfind : f.tree.find? s.place with _ | e
  · rw [Tree.spotAt_of_none hfind] at hleads
    rw [hleads] at h
    rcases create_eq_ok_iff.mp h with ⟨hfree, hg⟩
    exact ⟨Tree.isPlain_none, fun _ => hfree, hg⟩
  · rw [Tree.spotAt_of_some hfind] at hleads
    rw [hleads] at h
    cases e with
    -- A directory and a link are refused, so a file or nothing stood there.
    | file c => exact ⟨Tree.isPlain_file c, fun hnone => (by cases hnone), (Except.ok.inj h).symm⟩
    | _ => cases h

/-- What is removed is what the path names, and no directory. -/
theorem LeadsTo.exists_of_unlink (h : f.unlink p = .ok g) :
    ∃ place e, f.LeadsTo false p place ∧ f.tree.find? place = some e ∧ e ≠ .dir ∧
      g.home = f.home ∧ g.tree.rights = f.tree.rights ∧
      ∀ q, g.tree.find? q = if q = place then none else f.tree.find? q := by
  rw [unlink, Outcome.bind_eq_ok_iff] at h
  rcases h with ⟨s, hspot, h⟩
  have hleads := leadsTo_of_spot hspot
  have hs := Except.ok.inj (hspot.symm.trans hleads)
  rcases hfind : f.tree.find? s.place with _ | e
  · rw [hs, Tree.spotAt_of_none hfind] at h
    cases h
  · rw [hs, Tree.spotAt_of_some hfind] at h
    dsimp only at h
    split at h
    next => cases h
    split at h
    next => cases h
    next hdir =>
      have hne : s.place ≠ [] := by
        refine ne_nil_of_not_dir (f := f) fun heq => hdir ?_
        exact Option.some.inj (hfind.symm.trans heq)
      refine ⟨s.place, e, hleads, hfind, hdir, ?_⟩
      rw [← Except.ok.inj h]
      exact ⟨rfl, rfl, find?_erase f.tree hne⟩

/-- A file that cannot be removed is in a locked directory. -/
theorem LeadsTo.isLocked_of_unlink (h : f.LeadsTo false p place) {b : Bytes}
    (hfind : f.tree.find? place = some (.file b)) {e : Failure} (hunlink : f.unlink p = .error e) :
    f.tree.isLocked place = true := by
  rw [LeadsTo, Tree.spotAt_of_some hfind] at h
  exact (Files.isLocked_of_unlink h hunlink).1

/-- What is no directory is moved by taking it from the place of the one path and putting it at that
    of the other, over anything but a directory, where names can be removed and added. -/
theorem LeadsTo.exists_of_rename (hp : f.LeadsTo false p place) {e : Entry}
    (he : f.tree.find? place = some e) (hdir : e ≠ .dir) (h : f.rename p q = .ok g) :
    ∃ place', f.LeadsTo false q place' ∧ endsInName q = true ∧
      f.tree.find? place' ≠ some .dir ∧ f.tree.isLocked place = false ∧
      g = withEntry { f with tree := f.tree.erase place } place' e := by
  rcases Files.exists_of_rename h with ⟨a, e', target, hsource, htarget, hends, hmove, hg⟩
  rw [LeadsTo, Tree.spotAt_of_some he, hsource, Except.ok.injEq, Spot.present.injEq] at hp
  rcases hp with ⟨rfl, rfl⟩
  have hq := leadsTo_of_spot htarget
  rw [moveError?_eq_none_iff hdir] at hmove
  refine ⟨target.place, hq, hends, fun hthere => ?_, hmove.1, hg hdir⟩
  rw [LeadsTo, Tree.spotAt_of_some hthere, htarget, Except.ok.injEq] at hq
  exact hmove.2.2 _ hq

end Leading

/-- The files with a file at a place, as far as anything can be found in them. -/
structure Overwrites (f : Files) (place : Place) (b : Bytes) (g : Files) : Prop where
  /-- The working directory is the same. -/
  home : g.home = f.home
  /-- The same may be done in every directory. -/
  rights : g.tree.rights = f.tree.rights
  /-- The file is there, and all else is as before. -/
  find? : ∀ q, g.tree.find? q = if q = place then some (.file b) else f.tree.find? q
  /-- There was nothing or a file before. -/
  plain : Tree.IsPlain (f.tree.find? place)
  /-- No name was added to a locked directory. -/
  added : f.tree.find? place = none → f.tree.isLocked place = false

section Overwriting

variable {f g : Files} {place : Place} {b : Bytes}

theorem ne_nil_of_isPlain (h : Tree.IsPlain (f.tree.find? place)) : place ≠ [] :=
  ne_nil_of_not_dir h.ne_dir

theorem overwrites_withEntry (h : Tree.IsPlain (f.tree.find? place))
    (hadded : f.tree.find? place = none → f.tree.isLocked place = false) :
    f.Overwrites place b (f.withEntry place (.file b)) :=
  ⟨rfl, rfl, find?_withEntry (ne_nil_of_isPlain h) _, h, hadded⟩

/-- A file that has been written can be written again. -/
theorem Overwrites.again (h : f.Overwrites place b g) (c : Bytes) :
    f.Overwrites place c (g.withEntry place (.file c)) := by
  refine ⟨h.home, h.rights, fun q => ?_, h.plain, h.added⟩
  rw [find?_withEntry (ne_nil_of_isPlain h.plain), h.find?]
  by_cases hq : q = place
  · rw [if_pos hq, if_pos hq]
  · rw [if_neg hq, if_neg hq, if_neg hq]

theorem Overwrites.find?_self (h : f.Overwrites place b g) :
    g.tree.find? place = some (.file b) := by
  rw [h.find?, if_pos rfl]

theorem Overwrites.find?_of_ne {q : Place} (h : f.Overwrites place b g) (hq : q ≠ place) :
    g.tree.find? q = f.tree.find? q := by
  rw [h.find?, if_neg hq]

/-- There is a file at the place. -/
theorem Overwrites.isPlain (h : f.Overwrites place b g) : Tree.IsPlain (g.tree.find? place) := by
  rw [h.find?_self]
  exact Tree.isPlain_file b

theorem Overwrites.differsPlainly (h : f.Overwrites place b g) :
    Tree.DiffersPlainly f.tree g.tree := by
  intro q
  by_cases hq : q = place
  · rw [hq]
    exact Or.inr ⟨h.plain, h.isPlain⟩
  · exact Or.inl (h.find?_of_ne hq)

/-- A path that leads to the file leads there still. -/
theorem Overwrites.leadsTo {p : Path} {follow : Bool} (h : f.Overwrites place b g)
    (hp : f.LeadsTo follow p place) : g.LeadsTo follow p place := by
  refine hp.of_differsPlainly h.home h.differsPlainly fun hnone => ?_
  rw [h.find?_self] at hnone
  cases hnone

end Overwriting

end Files

end DialectBuild
