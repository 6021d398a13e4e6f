import DialectBuild.Proofs.AlikeWalks
import DialectBuild.Proofs.BuildPhases
import DialectBuild.Proofs.EveryOutcome
import DialectBuild.Proofs.ForeignFailures

/-!
# What Work on a Unit Leaves Behind

What may be left on disk by writing and removing the files of a unit, whether that goes well or
not. A unit stores three files, its artifacts. For two of them it borrows a place on the way: a
file is written under a temporary name and then moved. Whatever goes wrong, nothing new is ever
left at a borrowed place, since a name that could be added to a directory can be removed as well.
Where no name can be removed, an old file stays, but what is written in it may have changed.

## Main definitions

* `Path.temporary`: Where a file is written before it is moved.
* `Files.Stores`, `Files.Borrows`: The places of a unit.
* `Files.Keeps`: What may be at a place where nothing is stored.
* `Files.Amends`: A change that stores files at some places and borrows others.
* `Files.IsStuck`: A file at the path stays, whatever is done to remove it.
* `Files.Hosts`: Files among which a unit can be worked on.

## Theorems

* `Files.ensures_writeAtomic`: Writing a file, however it ends.
* `Files.ensures_unlink`: Removing a file, however it ends.
* `Files.isStuck_of_unlink`: A file that cannot be removed is stuck.
-/

namespace DialectBuild

/-- Where a file is written before it is moved into place. -/
def Path.temporary (p : Path) : Path :=
  p.parent.child (p.name ++ ".tmp")

theorem temporaryFor_eq_ok_iff {p t : Path} :
    temporaryFor p = .ok t ↔ p.parts ≠ [] ∧ t = p.temporary :=
  sibling_eq_ok_iff

/-- Joined texts have the symbols of each. -/
theorem Text.mem_join_of_mem {x : Symbol} {sep t : Text} {ts : List Text} (ht : t ∈ ts)
    (hx : x ∈ t) : x ∈ Text.join sep ts := by
  rw [join, List.intercalate]
  refine List.mem_flatten.mpr ⟨t, ?_, hx⟩
  induction ts with
  | nil => exact absurd ht List.not_mem_nil
  | cons a ts ih =>
      cases ts with
      | nil => exact ht
      | cons b ts =>
          rw [List.intersperse_cons_cons]
          rcases List.mem_cons.mp ht with rfl | ht
          · exact List.mem_cons_self
          · exact List.mem_cons_of_mem _ (List.mem_cons_of_mem _ (ih ht))

/-- Joined texts have no symbols but those of each and of what is between them. -/
theorem Text.mem_of_mem_join {x : Symbol} {sep : Text} {ts : List Text}
    (hx : x ∈ Text.join sep ts) : x ∈ sep ∨ ∃ t ∈ ts, x ∈ t := by
  induction ts with
  | nil => exact absurd hx List.not_mem_nil
  | cons a ts ih =>
      cases ts with
      | nil =>
          rw [join, List.intercalate_singleton] at hx
          exact Or.inr ⟨a, List.mem_singleton_self a, hx⟩
      | cons b ts =>
          rw [join, List.intercalate_cons_cons, List.mem_append, List.mem_append] at hx
          rcases hx with (hx | hx) | hx
          · exact Or.inr ⟨a, List.mem_cons_self, hx⟩
          · exact Or.inl hx
          · rcases ih hx with hsep | ⟨t, ht, hxt⟩
            · exact Or.inl hsep
            · exact Or.inr ⟨t, List.mem_cons_of_mem a ht, hxt⟩

/-- A path with a NUL in it has one in a part. -/
theorem Path.null_mem_text_iff {p : Path} :
    .char '\x00' ∈ p.text ↔ ∃ x ∈ p.parts, .char '\x00' ∈ x := by
  have hanchor : ∀ a : Anchor, .char '\x00' ∉ a.text := by
    intro a
    cases a <;> decide
  rw [text]
  by_cases hempty : p.anchor = .relative ∧ p.parts = []
  · rw [if_pos hempty, hempty.2]
    exact ⟨fun h => absurd h (by decide), fun ⟨x, hx, _⟩ => absurd hx List.not_mem_nil⟩
  · rw [if_neg hempty, List.mem_append]
    constructor
    · rintro (h | h)
      · exact absurd h (hanchor _)
      · exact (Text.mem_of_mem_join h).resolve_left (by decide)
    · rintro ⟨x, hx, h⟩
      exact Or.inr (Text.mem_join_of_mem hx h)

theorem Path.null_mem_temporary {p : Path} (h : .char '\x00' ∈ p.text) :
    .char '\x00' ∈ p.temporary.text := by
  rcases null_mem_text_iff.mp h with ⟨x, hx, hnull⟩
  have hparts : p.parts ≠ [] := List.ne_nil_of_mem hx
  rw [← child_parent hparts, child, List.mem_append, List.mem_singleton] at hx
  refine null_mem_text_iff.mpr ?_
  rcases hx with hx | rfl
  · exact ⟨x, List.mem_append_left _ hx, hnull⟩
  · exact ⟨_, List.mem_append_right _ (List.mem_singleton_self _), List.mem_append_left _ hnull⟩

namespace Files

open Outcome Failure

/-- What may be at a place where nothing is stored: what was there, nothing, or, where no name can
    be removed, a file in place of something. -/
def Keeps (f g : Files) (q : Place) : Prop :=
  g.tree.find? q = f.tree.find? q ∨ g.tree.find? q = none ∨
    f.tree.isLocked q = true ∧ f.tree.find? q ≠ none ∧ ∃ b, g.tree.find? q = some (.file b)

/-- Nothing appears where nothing is stored. -/
theorem Keeps.eq_none {f g : Files} {q : Place} (h : Keeps f g q) (hnone : f.tree.find? q = none) :
    g.tree.find? q = none := by
  rcases h with hsame | hgone | ⟨_, hsome, _⟩
  · exact hsame.trans hnone
  · exact hgone
  · exact absurd hnone hsome

/-- A change that stores files at some places and borrows others: at a place that is only
    borrowed nothing new is left. -/
structure Amends (stored borrowed : Place → Prop) (f g : Files) : Prop where
  /-- Nothing else changes. -/
  changes : ChangesOnly (fun q => stored q ∨ borrowed q) f g
  /-- Where nothing is stored, nothing appears. -/
  keeps : ∀ q, ¬ stored q → Keeps f g q
  /-- The tree stays one that a file system has. -/
  sound : f.tree.IsSound → g.tree.IsSound

namespace Amends

variable {stored borrowed stored' borrowed' : Place → Prop} {f g k : Files}

theorem refl (stored borrowed : Place → Prop) (f : Files) : Amends stored borrowed f f :=
  ⟨ChangesOnly.refl _ f, fun _ _ => Or.inl rfl, id⟩

theorem trans (h : Amends stored borrowed f g) (h' : Amends stored borrowed g k) :
    Amends stored borrowed f k where
  changes := h.changes.trans h'.changes
  keeps := by
    intro q hq
    rcases h'.keeps q hq with heq | hnone | ⟨hlocked, hsome, hfile⟩
    · rw [Keeps, heq]
      exact h.keeps q hq
    · exact Or.inr (Or.inl hnone)
    · rw [Tree.isLocked_congr h.changes.rights] at hlocked
      exact Or.inr (Or.inr ⟨hlocked, fun hnone => hsome ((h.keeps q hq).eq_none hnone), hfile⟩)
  sound := fun hsound => h'.sound (h.sound hsound)

theorem mono (h : Amends stored borrowed f g) (hstored : ∀ q, stored q → stored' q)
    (hborrowed : ∀ q, borrowed q → stored' q ∨ borrowed' q) : Amends stored' borrowed' f g where
  changes := h.changes.mono fun q hq => hq.elim (fun hq => Or.inl (hstored q hq)) (hborrowed q)
  keeps := fun q hq => h.keeps q fun hs => hq (hstored q hs)
  sound := h.sound

end Amends

section Removing

variable {f g : Files} {p : Path}

/-- Removing succeeds only where there is a file, and its name can be removed. -/
theorem unlink_eq_ok (hl : f.IsLinkless) (h : f.unlink p = .ok g) :
    ∃ b, f.tree.find? (f.placeOf p) = some (.file b) ∧
      g = { f with tree := f.tree.erase (f.placeOf p) } := by
  rw [unlink, Outcome.bind_eq_ok_iff] at h
  rcases h with ⟨s, hspot, h⟩
  rw [spot_of_isLinkless hl hspot] at h
  rcases hfind : f.tree.find? (f.placeOf p) with _ | e
  · rw [Tree.spotAt_of_none hfind] at h
    cases h
  · rw [Tree.spotAt_of_some hfind] at h
    dsimp only at h
    split at h
    · cases h
    cases e with
    | dir => cases h
    | link target => exact absurd hfind (hl _ target)
    | file b => exact ⟨b, rfl, (Except.ok.inj h).symm⟩

/-- What a path names is removed, unless its directory is locked or it is a directory itself. -/
theorem unlink_of_present {place : Place} {e : Entry}
    (hspot : f.spot false p = .ok (.present place e)) :
    f.unlink p = if endsInName p && f.tree.isLocked place then .error (refuse .permission p)
      else if e = .dir then .error (refuse .isDirectory p)
      else .ok { f with tree := f.tree.erase place } := by
  rw [unlink, hspot]
  rfl

/-- A file that a path leads to is removed, unless its directory is locked. -/
theorem unlink_file {place : Place} {b : Bytes}
    (hspot : f.spot false p = .ok (.present place (.file b))) :
    f.unlink p = if endsInName p && f.tree.isLocked place then .error (refuse .permission p)
      else .ok { f with tree := f.tree.erase place } :=
  unlink_of_present hspot

theorem unlink_of_file {place : Place} {b : Bytes}
    (hspot : f.spot false p = .ok (.present place (.file b)))
    (hfree : f.tree.isLocked place = false) :
    f.unlink p = .ok { f with tree := f.tree.erase place } := by
  rw [unlink_file hspot, hfree, Bool.and_false]
  rfl

/-- A file that cannot be removed is in a locked directory, and is not said to be missing. -/
theorem isLocked_of_unlink {place : Place} {b : Bytes} {e : Failure}
    (hspot : f.spot false p = .ok (.present place (.file b))) (h : f.unlink p = .error e) :
    f.tree.isLocked place = true ∧ isMissing e = false := by
  rw [unlink_file hspot] at h
  split at h
  next hlocked =>
    cases h
    exact ⟨(Bool.and_eq_true_iff.mp hlocked).2, rfl⟩
  next => cases h

theorem unlinkIfPresent_eq_ok (h : f.unlinkIfPresent p = .ok g) :
    f.unlink p = .ok g ∨ g = f ∧ ∃ e, f.unlink p = .error e ∧ isMissing e = true := by
  unfold unlinkIfPresent at h
  rcases hunlink : f.unlink p with e | k
  · rw [hunlink] at h
    dsimp only at h
    split at h
    next hmissing => exact Or.inr ⟨(Except.ok.inj h).symm, e, rfl, hmissing⟩
    next => cases h
  · rw [hunlink] at h
    exact Or.inl h

theorem unlinkIfPresent_eq_error {e : Failure} (h : f.unlinkIfPresent p = .error e) :
    f.unlink p = .error e := by
  unfold unlinkIfPresent at h
  rcases hunlink : f.unlink p with e' | k
  · rw [hunlink] at h
    dsimp only at h
    split at h
    · cases h
    · exact h
  · rw [hunlink] at h
    cases h

/-- Without links, it does not matter whether a link at the end is followed. -/
theorem spot_false_of_spot_true (hl : f.IsLinkless) {b : Bytes}
    (h : f.spot true p = .ok (.present (f.placeOf p) (.file b))) :
    f.spot false p = .ok (.present (f.placeOf p) (.file b)) :=
  (Alike.refl hl).spot h (find?_of_spot hl h)

/-- What is borrowed may be removed. -/
theorem amends_unlinkIfPresent (hl : f.IsLinkless) (h : f.unlinkIfPresent p = .ok g) :
    Amends (fun _ => False) (· = f.placeOf p) f g := by
  rcases unlinkIfPresent_eq_ok h with hunlink | ⟨rfl, _⟩
  · rcases unlink_eq_ok hl hunlink with ⟨b, hfile, rfl⟩
    refine ⟨(changesOnly_erase hfile).mono fun _ => Or.inr, fun q _ => ?_, fun hs => hs.erase _⟩
    by_cases hq : q = f.placeOf p
    · rw [hq]
      exact Or.inr (Or.inl (Tree.find?_erase_self f.tree (ne_nil_of_file hfile)))
    · exact Or.inl (Tree.find?_erase_of_ne f.tree hq)
  · exact Amends.refl _ _ g

/-- A file at the path stays, whatever is done to remove it: its directory is locked, or the path
    does not lead there. -/
def IsStuck (f : Files) (p : Path) : Prop :=
  f.tree.isLocked (f.placeOf p) = true ∨ ∃ e, f.spot false p = .error e

/-- A file that cannot be removed, or is not found, is stuck. -/
theorem isStuck_of_unlink (hl : f.IsLinkless) {e : Failure} (h : f.unlink p = .error e) {b : Bytes}
    (hfile : f.tree.find? (f.placeOf p) = some (.file b)) : f.IsStuck p := by
  rcases hspot : f.spot false p with e' | s
  · exact Or.inr ⟨e', hspot⟩
  · rw [spot_of_isLinkless hl hspot, Tree.spotAt_of_some hfile] at hspot
    exact Or.inl (isLocked_of_unlink hspot h).1

/-- Where a file was removed if there was one, there is none that is not stuck. -/
theorem isStuck_of_unlinkIfPresent (hl : f.IsLinkless) (h : f.unlinkIfPresent p = .ok g) {b : Bytes}
    (hfile : g.tree.find? (g.placeOf p) = some (.file b)) : g.IsStuck p := by
  rcases unlinkIfPresent_eq_ok h with hunlink | ⟨rfl, e, hunlink, _⟩
  · rw [(amends_unlinkIfPresent hl h).changes.placeOf_eq] at hfile
    rcases unlink_eq_ok hl hunlink with ⟨c, hc, rfl⟩
    have hnone := Tree.find?_erase_self f.tree (ne_nil_of_file hc)
    rw [hnone] at hfile
    cases hfile
  · exact isStuck_of_unlink hl hunlink hfile

/-- A file that is stuck is stuck in files that are alike. -/
theorem Alike.isStuck (h : Alike f g) (hp : p.EndsPlain) (hstuck : f.IsStuck p) : g.IsStuck p := by
  rcases hstuck with hlocked | ⟨e, hspot⟩
  · rw [IsStuck, h.placeOf_eq, h.isLocked_eq]
    exact Or.inl hlocked
  · rcases hspot' : g.spot false p with e' | s
    · exact Or.inr ⟨e', hspot'⟩
    · have hback : f.spot false p = _ := h.symm.spot_of_ok hp hspot'
      rw [hspot] at hback
      cases hback

/-- There is no new file where files only vanish. -/
theorem Amends.exists_file {borrowed : Place → Prop} (h : Amends (fun _ => False) borrowed f g)
    (hl : f.IsLinkless) {q : Place} {b : Bytes} (hfile : g.tree.find? q = some (.file b)) :
    ∃ c, f.tree.find? q = some (.file c) := by
  -- There was something, and it was neither a directory nor a link.
  rcases hbefore : f.tree.find? q with _ | e
  · rw [(h.keeps q not_false).eq_none hbefore] at hfile
    cases hfile
  cases e with
  | file c => exact ⟨c, rfl⟩
  | dir =>
      rw [((h.changes.alike hl).dirs q).mp hbefore] at hfile
      cases hfile
  | link target => exact absurd hbefore (hl q target)

end Removing

section Writing

variable {f g : Files} {p q : Path}

theorem spot_failsOs {follow : Bool} (h : .char '\x00' ∉ p.text) :
    FailsWith (fun e => ∃ o, e = .os o) (f.spot follow p) := by
  have hnull : ¬ p.text.contains (.char '\x00') = true := fun hc => h (List.contains_iff_mem.mp hc)
  unfold spot
  rw [if_neg hnull]
  split
  · exact .of_error ⟨_, rfl⟩
  · rcases walk f.tree follow maxLinks (f.start p) p.parts with e | s
    · exact .of_error ⟨_, rfl⟩
    · exact .of_ok s

/-- A move fails for a reason of the file system unless a path makes no sense. -/
theorem rename_failsOs (hp : .char '\x00' ∉ p.text) (hq : .char '\x00' ∉ q.text) :
    FailsWith (fun e => ∃ o, e = .os o) (f.rename p q) :=
  rename_failsWith (fun o => ⟨o, rfl⟩) (spot_failsOs hp) (spot_failsOs hq)

/-- A file can only be written where there is a path to it. -/
theorem exists_spot_of_write {b : Bytes} (h : f.write p b = .ok g) :
    (∃ s, f.spot true p = .ok s) ∧ .char '\x00' ∉ p.text := by
  rw [write, Outcome.bind_eq_ok_iff] at h
  rcases h with ⟨s, hspot, _⟩
  refine ⟨⟨s, hspot⟩, fun hnull => ?_⟩
  rw [spot, if_pos (List.contains_iff_mem.mpr hnull)] at hspot
  cases hspot

/-- A file that was just written can be removed, unless its directory is locked. -/
theorem unlinkIfPresent_of_write (hl : f.IsLinkless) {b : Bytes} (h : f.write p b = .ok g) :
    g.unlinkIfPresent p = .ok { g with tree := g.tree.erase (f.placeOf p) } ∨
      f.tree.isLocked (f.placeOf p) = true ∧ ∃ e, g.unlinkIfPresent p = .error e := by
  rcases write_eq_ok hl h with ⟨hchanges, hfind⟩
  rcases (exists_spot_of_write h).1 with ⟨s, hspot⟩
  have hthere : g.spot false p = .ok (.present (g.placeOf p) (.file b)) := by
    rw [hchanges.placeOf_eq]
    exact (hchanges.alike hl).spot hspot hfind
  rcases hunlink : g.unlink p with e | k
  · rcases isLocked_of_unlink hthere hunlink with ⟨hlocked, hmissing⟩
    rw [hchanges.placeOf_eq, (hchanges.alike hl).isLocked_eq] at hlocked
    refine Or.inr ⟨hlocked, e, ?_⟩
    rw [unlinkIfPresent, hunlink]
    exact if_neg (Bool.eq_false_iff.mp hmissing)
  · rcases unlink_eq_ok (hchanges.isLinkless hl) hunlink with ⟨_, _, rfl⟩
    rw [unlinkIfPresent, hunlink, hchanges.placeOf_eq]
    exact Or.inl rfl

/-- A file that is written in a locked directory takes the place of one. -/
theorem amends_write_locked (hl : f.IsLinkless) (hplace : ∀ x ∈ f.placeOf p, IsName x) {b : Bytes}
    (hlocked : f.tree.isLocked (f.placeOf p) = true) (h : f.write p b = .ok g) :
    Amends (fun _ => False) (· = f.placeOf p) f g := by
  rcases write_eq_ok hl h with ⟨hput, hfind⟩
  refine ⟨hput.mono fun _ => Or.inr, fun q _ => ?_, fun hs => isSound_write hl hs hplace h⟩
  by_cases hq : q = f.placeOf p
  · rw [hq]
    refine Or.inr (Or.inr ⟨hlocked, fun hnone => ?_, b, hfind⟩)
    rw [(write_eq_withEntry hl h).2.1 hnone] at hlocked
    cases hlocked
  · exact Or.inl (hput.outside q hq)

/-- A file that is written and removed again leaves nothing behind. -/
theorem amends_write_erase (hl : f.IsLinkless) (hplace : ∀ x ∈ f.placeOf p, IsName x) {b : Bytes}
    (h : f.write p b = .ok g) : Amends (fun _ => False) (· = f.placeOf p) f
      { g with tree := g.tree.erase (f.placeOf p) } := by
  rcases write_eq_ok hl h with ⟨hput, hfind⟩
  have hremove := changesOnly_erase hfind
  refine ⟨(hput.trans hremove).mono fun _ => Or.inr, fun q _ => ?_, fun hs =>
    (isSound_write hl hs hplace h).erase _⟩
  by_cases hq : q = f.placeOf p
  · rw [hq]
    exact Or.inr (Or.inl (Tree.find?_erase_self g.tree (ne_nil_of_file hfind)))
  · exact Or.inl ((Tree.find?_erase_of_ne g.tree hq).trans (hput.outside q hq))

/-- A file that is written and moved leaves nothing at its first place. -/
theorem amends_write_rename (hl : f.IsLinkless) (hplace : ∀ x ∈ f.placeOf q, IsName x)
    (htemporary : ∀ x ∈ f.placeOf p, IsName x) {b : Bytes} {f₁ : Files}
    (hwrite : f.write p b = .ok f₁) (hrename : f₁.rename p q = .ok g) :
    Amends (· = f.placeOf q) (· = f.placeOf p) f g := by
  rcases write_eq_ok hl hwrite with ⟨hput, hfind⟩
  have hl₁ := hput.isLinkless hl
  have hfind₁ := hfind
  rw [← hput.placeOf_eq] at hfind₁
  have hmove := (read_of_rename hl₁ hfind₁ hrename).1
  have hsound : f.tree.IsSound → g.tree.IsSound := by
    intro hs
    refine isSound_rename hl₁ (isSound_write hl hs htemporary hwrite) ?_ hfind₁ hrename
    rw [hput.placeOf_eq]
    exact hplace
  rw [hput.placeOf_eq, hput.placeOf_eq] at hmove
  refine ⟨(hput.mono fun _ => Or.inr).trans hmove, fun r hr => ?_, hsound⟩
  -- The file is taken from its first place, unless that is where it goes.
  rcases rename_eq_ok hl₁ hfind₁ hrename with ⟨_, hdir, _, _, rfl⟩
  rw [hput.placeOf_eq] at hdir
  rw [Keeps, hput.placeOf_eq, hput.placeOf_eq,
    find?_withEntry (ne_nil_of_not_dir hdir), if_neg hr]
  by_cases hp : r = f.placeOf p
  · rw [hp]
    exact Or.inr (Or.inl (Tree.find?_erase_self f₁.tree (ne_nil_of_file hfind)))
  · exact Or.inl ((Tree.find?_erase_of_ne f₁.tree hp).trans (hput.outside r hp))

/-- Writing a file, however it ends: something is stored at its place at most, and nothing is
    left at the place that is borrowed on the way. -/
theorem ensures_writeAtomic {t : Text} (hl : f.IsLinkless)
    (hplace : ∀ x ∈ f.placeOf p, IsName x) (htemporary : ∀ x ∈ f.placeOf p.temporary, IsName x) :
    Action.Ensures (· = f) (writeAtomic p t)
      (fun _ => Amends (· = f.placeOf p) (· = f.placeOf p.temporary) f)
      fun _ => Amends (· = f.placeOf p) (· = f.placeOf p.temporary) f := by
  have hnothing := Amends.refl (· = f.placeOf p) (· = f.placeOf p.temporary) f
  refine .bind (q := fun temporary g => g = f ∧ temporary = p.temporary) ?_
    fun temporary => .given ?_
  · refine .of_except (fun x hx g hg => ⟨hg, (temporaryFor_eq_ok_iff.mp hx).2⟩) ?_
    rintro _ _ _ rfl
    exact hnothing
  rintro rfl
  -- Either nothing has happened yet, or the file is at its first place and has to be removed.
  refine .onOsError (q := fun e g => g = f ∨
    (∃ o, e = .os o) ∧ f.write p.temporary (Encoding.encode t) = .ok g) ?_ (fun o => ?_) ?_
  · refine .bind ((FileAction.ensures_change f).mono (fun _ => id) (fun _ _ => id)
      fun e g h => Or.inl h.2) fun _ => .of_each fun f₁ hwrite => ?_
    have hnull := (exists_spot_of_write hwrite).2
    refine (FileAction.ensures_change f₁).mono (fun _ => id) (fun _ g hrename => ?_)
      fun e g h => Or.inr ⟨?_, ?_⟩
    · exact amends_write_rename hl hplace htemporary hwrite hrename
    · exact rename_failsOs hnull (fun h => hnull (Path.null_mem_temporary h)) e h.1
    · rw [h.2]
      exact hwrite
  · refine .bind (q := fun _ => Amends (· = f.placeOf p) (· = f.placeOf p.temporary) f)
      (.of_each fun f₁ hf₁ => ?_) fun _ => .of_throw fun g hg => hg
    refine (FileAction.ensures_change f₁).mono (fun _ => id) (fun _ g hg => ?_) fun e g h => ?_
    · rcases hf₁ with rfl | ⟨_, hwrite⟩
      · exact (amends_unlinkIfPresent hl hg).mono (fun _ => False.elim) fun _ => Or.inr
      · rcases unlinkIfPresent_of_write hl hwrite with hunlink | ⟨_, e, hunlink⟩
        · rw [hunlink, Except.ok.injEq] at hg
          rw [← hg]
          exact (amends_write_erase hl htemporary hwrite).mono (fun _ => False.elim)
            fun _ => Or.inr
        · rw [hunlink] at hg
          cases hg
    · rcases hf₁ with rfl | ⟨_, hwrite⟩
      · rw [h.2]
        exact hnothing
      · -- What was written cannot be removed, so there was a file before.
        rcases unlinkIfPresent_of_write hl hwrite with hunlink | ⟨hlocked, _⟩
        · rw [hunlink] at h
          cases h.1
        · rw [h.2]
          exact (amends_write_locked hl htemporary hlocked hwrite).mono (fun _ => False.elim)
            fun _ => Or.inr
  · rintro e g hother (rfl | ⟨⟨o, ho⟩, _⟩)
    · exact hnothing
    · exact absurd ho (hother o)

end Writing

/-- Removing a file, however it ends: no file is left that is not stuck. -/
theorem ensures_unlink {f : Files} {p : Path} (hl : f.IsLinkless) :
    Action.Ensures (· = f) (FileAction.change (·.unlinkIfPresent p))
      (fun _ g => Amends (fun _ => False) (· = f.placeOf p) f g ∧
        ∀ b, g.tree.find? (g.placeOf p) = some (.file b) → g.IsStuck p)
      fun _ g => Amends (fun _ => False) (· = f.placeOf p) f g ∧
        ∀ b, g.tree.find? (g.placeOf p) = some (.file b) → g.IsStuck p := by
  refine (FileAction.ensures_change f).mono (fun _ => id) (fun _ g h => ?_) ?_
  · exact ⟨amends_unlinkIfPresent hl h, fun b => isStuck_of_unlinkIfPresent hl h⟩
  · rintro e _ ⟨h, rfl⟩
    exact ⟨Amends.refl _ _ _, fun b => isStuck_of_unlink hl (unlinkIfPresent_eq_error h)⟩

section Units

variable {f g : Files} {s p : Path}

/-- The places of the artifacts of a source. -/
def Stores (f : Files) (s : Path) (q : Place) : Prop :=
  ∃ p ∈ (Artifacts.beside s).toList, q = f.placeOf p

/-- The places of the temporary files for the C text and the header of a source. -/
def Borrows (f : Files) (s : Path) (q : Place) : Prop :=
  ∃ p ∈ [(Artifacts.beside s).code, (Artifacts.beside s).header], q = f.placeOf p.temporary

/-- Files among which the unit of a source can be worked on. -/
structure Hosts (f : Files) (s : Path) : Prop where
  /-- There are no links. -/
  linkless : f.IsLinkless
  /-- The tree is one that a file system has. -/
  sound : f.tree.IsSound
  /-- The source is named like one. -/
  isSource : s.IsSource
  /-- Its place has names that a directory can hold. -/
  named : ∀ x ∈ f.placeOf s, IsName x

/-- Discovered sources can be worked on. -/
theorem hosts_of_sources {root : Path} {sources : List Path} (hl : f.IsLinkless)
    (hsound : f.tree.IsSound) (h : f.sources root = .ok sources) : ∀ s ∈ sources, f.Hosts s :=
  fun s hs => ⟨hl, hsound, (apart_of_sources hsound h).isSource s hs,
    named_of_sources hl hsound h s hs⟩

theorem ChangesOnly.stores_eq {touched : Place → Prop} (h : ChangesOnly touched f g) (s : Path) :
    g.Stores s = f.Stores s := by
  funext q
  simp only [Stores, h.placeOf_eq]

theorem ChangesOnly.borrows_eq {touched : Place → Prop} (h : ChangesOnly touched f g) (s : Path) :
    g.Borrows s = f.Borrows s := by
  funext q
  simp only [Borrows, h.placeOf_eq]

theorem Hosts.amended {stored borrowed : Place → Prop} (h : f.Hosts s)
    (hamends : Amends stored borrowed f g) : g.Hosts s where
  linkless := hamends.changes.isLinkless h.linkless
  sound := hamends.sound h.sound
  isSource := h.isSource
  named := by
    rw [hamends.changes.placeOf_eq]
    exact h.named

/-- Writing C text or a header, however it ends. -/
theorem Hosts.ensures_writeAtomic (h : f.Hosts s) {t : Text}
    (hp : p ∈ [(Artifacts.beside s).code, (Artifacts.beside s).header]) :
    Action.Ensures (· = f) (writeAtomic p t) (fun _ => Amends (f.Stores s) (f.Borrows s) f)
      fun _ => Amends (f.Stores s) (f.Borrows s) f := by
  -- Both are files that a unit writes.
  have hwritten : ∃ e ∈ writtenEndings, e ++ ".tmp" ∈ writtenEndings ∧
      p = s.parent.child (s.name ++ e) := by
    rcases List.mem_cons.mp hp with rfl | hp
    · exact ⟨".c", by decide, by decide, rfl⟩
    · rw [List.mem_singleton.mp hp]
      exact ⟨".h", by decide, by decide, rfl⟩
  rcases hwritten with ⟨e, he, he', heq⟩
  have htemporary : p.temporary = s.parent.child (s.name ++ (e ++ ".tmp")) := by
    rw [heq, Path.temporary, Path.parent_child, Path.name_child, List.append_assoc]
  have hstored : p ∈ (Artifacts.beside s).toList := by
    rcases List.mem_cons.mp hp with rfl | hp
    · exact List.mem_cons_self
    · rw [List.mem_singleton.mp hp]
      exact List.mem_cons_of_mem _ List.mem_cons_self
  have hweaken : ∀ g, Amends (· = f.placeOf p) (· = f.placeOf p.temporary) f g →
      Amends (f.Stores s) (f.Borrows s) f g := fun g hg =>
    hg.mono (fun q hq => ⟨p, hstored, hq⟩) fun q hq => Or.inr ⟨p, hp, hq⟩
  refine (Files.ensures_writeAtomic h.linkless ?_ ?_).mono (fun _ => id) (fun _ => hweaken)
    fun _ => hweaken
  · rw [heq]
    exact isName_written h.isSource h.named he
  · rw [htemporary]
    exact isName_written h.isSource h.named he'

/-- The artifacts of a unit have names. -/
theorem endsPlain_of_mem_artifacts (hp : p ∈ (Artifacts.beside s).toList) : p.EndsPlain := by
  have hends : ∃ q n e, p = Path.child q (n ++ e) ∧ ∃ y ∈ e, y ≠ '.' := by
    simp only [Artifacts.toList, Artifacts.beside, List.mem_cons, List.not_mem_nil, or_false] at hp
    rcases hp with rfl | rfl | rfl
    · exact ⟨_, _, _, rfl, by decide⟩
    · exact ⟨_, _, _, rfl, by decide⟩
    · exact ⟨_, _, _, rfl, by decide⟩
  rcases hends with ⟨q, n, e, rfl, he⟩
  exact Path.endsPlain_child he (List.suffix_append n e)

/-- Removing an artifact, however it ends. -/
theorem Hosts.ensures_unlink (h : f.Hosts s) (hp : p ∈ (Artifacts.beside s).toList) :
    Action.Ensures (· = f) (FileAction.change (·.unlinkIfPresent p))
      (fun _ g => Amends (fun _ => False) (f.Stores s) f g ∧
        ∀ b, g.tree.find? (g.placeOf p) = some (.file b) → g.IsStuck p)
      fun _ g => Amends (fun _ => False) (f.Stores s) f g ∧
        ∀ b, g.tree.find? (g.placeOf p) = some (.file b) → g.IsStuck p := by
  have hweaken : ∀ g, Amends (fun _ => False) (· = f.placeOf p) f g →
      Amends (fun _ => False) (f.Stores s) f g := fun g hg =>
    hg.mono (fun _ => False.elim) fun q hq => Or.inr ⟨p, hp, hq⟩
  exact (Files.ensures_unlink h.linkless).mono (fun _ => id)
    (fun _ g hg => ⟨hweaken g hg.1, hg.2⟩) fun _ g hg => ⟨hweaken g hg.1, hg.2⟩

end Units

end Files

/-- Writing a file fails for no reason of the build. -/
theorem writeAtomic_foreign {p : Path} {t : Text} :
    Action.Ensures (fun _ => True) (writeAtomic p t) (fun _ _ => True) fun e _ => e.IsForeign := by
  refine .followed (.of_except (fun _ _ _ _ => trivial) fun e he _ _ => sibling_foreign e he)
    fun temporary => .onOsError ?_ (fun o => ?_) fun e _ _ he => he
  · exact .followed (FileAction.ensures_change_failsWith fun _ => Files.write_foreign)
      fun _ => FileAction.ensures_change_failsWith fun _ => Files.rename_foreign
  · exact .bind ((FileAction.ensures_change_failsWith fun _ => Files.unlinkIfPresent_foreign).mono
      (fun _ _ => trivial) (fun _ _ => id) fun _ _ => id) fun _ =>
      .of_throw fun _ _ => Failure.isForeign_os o

end DialectBuild
