import DialectBuild.Proofs.ByteStripping

/-!
# How Copying a File Fails

Copying a file without its directives goes by way of a temporary file, like writing one, and every
error of the file system on the way is reported as a failure of this stage. Before it is reported,
the temporary file is removed, and that may fail for the reason for which the copy has failed: there
is a directory at the temporary path, or no way to it, or what is there is kept in a locked
directory. This second error is not reported as a failure of the stage. It is what is left of the
copy, and nothing has been done then, except that a file that is kept may have been written.

So a copy fails cleanly exactly if what is at the temporary path can be removed. In any case the
output and everything else stay as they were if there is no link at the temporary path. The source
stays as it was, too, unless it is the temporary file itself, which is gone in the end whether the
copy succeeds or fails, if its directory is not locked.

## Main definitions

* `Files.IsBlocked`: Nothing can be removed at a path, and not because there is nothing.

## Theorems

* `Files.exists_unlinkIfPresent_iff`: What can be removed.
* `ensures_copyStrippedVia`: The steps of copying a file, however they end.
* `copyStripped_clean`: When copying a file fails cleanly.
* `copyStripped_unclean`: Where it does not.
-/

namespace DialectBuild

open Encoding Files Failure

namespace Files

/-- There is a directory at the path or something that is kept, or the path leads nowhere for
    another reason than that there is nothing. -/
def IsBlocked (f : Files) (p : Path) : Prop :=
  (∃ place, f.spot false p = .ok (.present place .dir)) ∨ (∃ e, f.IsKept p e) ∨
    ∃ e, f.spot false p = .error e ∧ isMissing e = false

section Blocking

variable {f g : Files} {p : Path} {place : Place} {b : Bytes}

theorem not_isKept_of_error {e : Failure} (h : f.spot false p = .error e) :
    ¬ ∃ e', f.IsKept p e' := by
  rintro ⟨e', q, hq, _⟩
  rw [LeadsTo, h] at hq
  cases hq

theorem LeadsTo.isKept_iff (h : f.LeadsTo false p place) :
    (∃ e, f.IsKept p e) ↔ f.tree.find? place ≠ none ∧ f.tree.isLocked place = true := by
  constructor
  · rintro ⟨e, q, hq, hfind, hlocked⟩
    rw [h.unique hq, hfind]
    exact ⟨by simp only [ne_eq, reduceCtorEq, not_false_eq_true], hlocked⟩
  · rintro ⟨hfind, hlocked⟩
    rcases Option.ne_none_iff_exists'.mp hfind with ⟨e, he⟩
    exact ⟨e, place, h, he, hlocked⟩

/-- What a path names is in the way if it is a directory or is kept. -/
theorem LeadsTo.isBlocked_iff (h : f.LeadsTo false p place) :
    f.IsBlocked p ↔ f.tree.find? place = some .dir ∨ ∃ e, f.IsKept p e := by
  have hspot := h
  rw [LeadsTo] at hspot
  simp only [IsBlocked, hspot, Except.ok.injEq, Tree.spotAt_eq_present_iff, reduceCtorEq,
    false_and, exists_false, or_false]
  refine or_congr_left ⟨?_, fun hdir => ⟨place, rfl, hdir⟩⟩
  rintro ⟨q, rfl, hdir⟩
  exact hdir

/-- Removing what is there succeeds unless it is refused for another reason than that there is
    nothing. -/
theorem exists_unlinkIfPresent : (∃ g, f.unlinkIfPresent p = .ok g) ↔
    ∀ e, f.unlink p = .error e → isMissing e = true := by
  rw [unlinkIfPresent]
  rcases hunlink : f.unlink p with e | g
  · simp only [Except.error.injEq, forall_eq']
    by_cases hmissing : isMissing e = true
    · rw [if_pos hmissing]
      exact iff_of_true ⟨f, rfl⟩ hmissing
    · rw [if_neg hmissing]
      simp only [reduceCtorEq, exists_false, hmissing, Bool.false_eq_true]
  · simp only [Except.ok.injEq, exists_eq', reduceCtorEq, false_implies, implies_true]

/-- Whatever is at a path with a name can be removed exactly if the path is not blocked. -/
theorem exists_unlinkIfPresent_iff (hends : endsInName p = true) :
    (∃ g, f.unlinkIfPresent p = .ok g) ↔ ¬ f.IsBlocked p := by
  rw [exists_unlinkIfPresent]
  rcases hspot : f.spot false p with e | s
  · -- The path leads nowhere, which is no obstacle if nothing is there for that reason.
    have hunlink : f.unlink p = .error e := by
      rw [unlink, hspot]
      rfl
    have hblocked : f.IsBlocked p ↔ isMissing e = false := by
      simp only [IsBlocked, hspot, reduceCtorEq, exists_false, false_or, Except.error.injEq,
        exists_eq_left', or_iff_right (not_isKept_of_error hspot)]
    rw [hblocked, hunlink, Bool.not_eq_false]
    exact ⟨fun h => h e rfl, fun h e' he => Except.error.inj he ▸ h⟩
  · have hleads := leadsTo_of_spot hspot
    rw [hleads.isBlocked_iff, hleads.isKept_iff]
    rcases hfind : f.tree.find? s.place with _ | e
    · -- It leads to a free name, where there is nothing to remove.
      rw [LeadsTo, Tree.spotAt_of_none hfind] at hleads
      have hunlink : f.unlink p = .error (refuse .noEntry p) := by
        rw [unlink, hleads]
        rfl
      rw [hunlink]
      refine iff_of_true (fun e he => Except.error.inj he ▸ rfl) ?_
      simp only [reduceCtorEq, ne_eq, not_true_eq_false, false_and, or_self, not_false_eq_true]
    · -- It leads to an entry, and anything but a directory can be removed if it is not kept.
      rw [LeadsTo, Tree.spotAt_of_some hfind] at hleads
      rw [unlink_of_present hleads, hends, Bool.true_and]
      by_cases hlocked : f.tree.isLocked s.place = true
      · rw [if_pos hlocked]
        exact iff_of_false (fun h => absurd (h _ rfl) Bool.false_ne_true)
          fun h => h (Or.inr ⟨Option.some_ne_none e, hlocked⟩)
      rw [if_neg hlocked]
      by_cases hdir : e = .dir
      · rw [if_pos hdir]
        exact iff_of_false (fun h => absurd (h _ rfl) Bool.false_ne_true)
          fun h => h (Or.inl (congrArg some hdir))
      · rw [if_neg hdir]
        refine iff_of_true (fun e' he => by cases he) ?_
        rintro (h | ⟨_, h⟩)
        · exact hdir (Option.some.inj h)
        · exact hlocked h

/-- A path that leads to anything but a directory is blocked only by what is kept. -/
theorem LeadsTo.isBlocked_iff_isKept (h : f.LeadsTo true p place)
    (hdir : f.tree.find? place ≠ some .dir) : f.IsBlocked p ↔ ∃ e, f.IsKept p e := by
  rcases leadsTo_iff.mp h with ⟨hnull, hlong, hwalks⟩
  rcases hwalks.not_following with hwalks | ⟨q, target, hwalks, hq⟩
  · rw [LeadsTo.isBlocked_iff (leadsTo_iff.mpr ⟨hnull, hlong, hwalks⟩), or_iff_right hdir]
  · rw [LeadsTo.isBlocked_iff (leadsTo_iff.mpr ⟨hnull, hlong, hwalks⟩), hq]
    simp only [Option.some.injEq, reduceCtorEq, false_or]

/-- Writing a file changes nothing about what is kept. -/
theorem Overwrites.isKept_iff (h : f.Overwrites place b g) :
    (∃ e, g.IsKept p e) ↔ ∃ e, f.IsKept p e := by
  constructor
  · rintro ⟨e, q, hq, hfind, hlocked⟩
    rw [Tree.isLocked_congr h.rights] at hlocked
    -- A file that is new cannot be in a locked directory.
    have hpresent : f.tree.find? q ≠ none := by
      intro hnone
      by_cases heq : q = place
      · rw [heq, h.added (heq ▸ hnone)] at hlocked
        cases hlocked
      · rw [h.find?_of_ne heq, hnone] at hfind
        cases hfind
    have hleads : f.LeadsTo false p q :=
      hq.of_differsPlainly h.home.symm h.differsPlainly.symm fun hnone => absurd hnone hpresent
    exact hleads.isKept_iff.mpr ⟨hpresent, hlocked⟩
  · rintro ⟨e, q, hq, hfind, hlocked⟩
    rw [← Tree.isLocked_congr h.rights] at hlocked
    have hpresent : g.tree.find? q ≠ none := by
      rw [h.find?, hfind]
      split
      next => exact Option.some_ne_none _
      next => exact Option.some_ne_none e
    have hleads : g.LeadsTo false p q :=
      hq.of_differsPlainly h.home h.differsPlainly fun hnone => absurd hnone hpresent
    exact hleads.isKept_iff.mpr ⟨hpresent, hlocked⟩

/-- A draft that is not kept can be removed unless nothing has been done. -/
theorem Drafts.isBlocked_iff (h : f.Drafts p g) : g.IsBlocked p ↔ f.IsBlocked p := by
  rcases h with rfl | ⟨place, b, hplace, hover⟩
  · exact Iff.rfl
  · rw [(hover.leadsTo hplace).isBlocked_iff_isKept hover.isPlain.ne_dir,
      hplace.isBlocked_iff_isKept hover.plain.ne_dir, hover.isKept_iff]

/-- Behind a path that is blocked, nothing has been done unless something is kept there. -/
theorem Drafts.eq_of_isBlocked (h : f.Drafts p g) (hblocked : f.IsBlocked p)
    (hkept : ∀ e, ¬ f.IsKept p e) : g = f := by
  rcases h with rfl | ⟨place, b, hplace, hover⟩
  · rfl
  · rcases (hplace.isBlocked_iff_isKept hover.plain.ne_dir).mp hblocked with ⟨e, he⟩
    exact absurd he (hkept e)

/-- A draft at a path that is blocked cannot be removed. -/
theorem Drafts.exists_unlink_eq_error (h : f.Drafts p g) (hends : endsInName p = true)
    (hblocked : f.IsBlocked p) : ∃ e, g.unlink p = .error e := by
  rcases hunlink : g.unlinkIfPresent p with e | k
  · exact ⟨e, unlinkIfPresent_eq_error hunlink⟩
  · exact absurd (h.isBlocked_iff.mpr hblocked) ((exists_unlinkIfPresent_iff hends).mp ⟨k, hunlink⟩)

/-- In `g`, a temporary file has been written and moved to the path. -/
def Delivers (f : Files) (p : Path) (g : Files) : Prop :=
  ∃ draft b f₁, f.LeadsTo true p.temporary draft ∧ f.Overwrites draft b f₁ ∧
    f₁.rename p.temporary p = .ok g

/-- In `g`, a temporary file for the path has been written, or nothing has been done, and whatever
    is at its path has been removed. -/
def Withdraws (f : Files) (p : Path) (g : Files) : Prop :=
  ∃ f₁, f.Drafts p.temporary f₁ ∧ f₁.unlinkIfPresent p.temporary = .ok g

end Blocking

end Files

/-- The failure that reports an error of the file system. -/
def stripError (source : Path) (o : OsError) : Failure :=
  transpileError "strip" ("Failed to strip directives: " ++ o.message) source

section Copying

variable {source output : Path} {size : Int} {f g : Files}

/-- Copying a file by way of a temporary one, however it ends: the temporary file is written and
    moved, or the file system refuses something and a draft is left at most. -/
theorem ensures_copyStrippedVia (hsource : source.IsClear) (houtput : output.IsClear)
    (hsize : 0 < size) :
    Action.Ensures (· = f) (copyStrippedVia output.temporary source output size)
      (fun _ => f.Delivers output)
      fun e g => e.IsRefusal ∧ f.Drafts output.temporary g := by
  have hn : BufferSize.ofInt? size = some ⟨size.toNat, Int.lt_toNat.mpr hsize⟩ :=
    dif_pos (Int.lt_toNat.mpr hsize)
  refine .bind ((FileAction.ensures_query f).mono (fun _ => id) (fun _ _ => id) ?_)
    fun place => .of_each ?_
  · rintro e _ ⟨hopen, rfl⟩
    exact ⟨openRead_refusal hsource e hopen, Or.inl rfl⟩
  rintro _ ⟨_, rfl⟩
  refine .bind ((FileAction.ensures_change _).mono (fun _ => id) (fun _ _ => id) ?_)
    fun _ => .of_each fun f₁ hempty => ?_
  · rintro e _ ⟨hwrite, rfl⟩
    exact ⟨write_refusal houtput.temporary e hwrite, Or.inl rfl⟩
  -- From here on there is a draft, and whatever is refused leaves it.
  rcases exists_overwrites_of_write hempty with ⟨draft, hdraft, hover⟩
  rw [hn]
  refine .bind (q := fun k g => k = f₁ ∧ g = f₁) (.of_get fun g hg => ⟨hg, hg⟩)
    fun k => .of_each ?_
  rintro _ ⟨rfl, rfl⟩
  refine .bind ((FileAction.ensures_change _).mono (fun _ => id) (fun _ _ => id) ?_)
    fun _ => .of_each fun f₂ hwrite => ?_
  · rintro e _ ⟨hwrite, rfl⟩
    exact ⟨write_refusal houtput.temporary e hwrite, Or.inr ⟨draft, _, hdraft, hover⟩⟩
  have hover' := hover.write hdraft hwrite
  refine .bind ((FileAction.ensures_change _).mono (fun _ => id) (fun _ _ => id) ?_)
    fun _ => .of_pure fun g hrename => ⟨draft, _, f₂, hdraft, hover', hrename⟩
  rintro e _ ⟨hrename, rfl⟩
  exact ⟨rename_failsOs houtput.temporary houtput e hrename, Or.inr ⟨draft, _, hdraft, hover'⟩⟩

/-- Copying a file and removing the draft if that fails, however it ends: the removal fails exactly
    if the temporary path is blocked, and the draft is left then, if there is one. -/
theorem ensures_copy (hsource : source.IsClear) (houtput : output.IsClear) (hsize : 0 < size) :
    Action.Ensures (· = f)
      ((copyStrippedVia output.temporary source output size).onOsError fun e => do
        FileAction.change (·.unlinkIfPresent output.temporary)
        throw (stripError source e))
      (fun _ => f.Delivers output)
      fun e g => (f.IsBlocked output.temporary ∧ e.IsRefusal ∧ f.Drafts output.temporary g) ∨
        ¬ f.IsBlocked output.temporary ∧ (∃ o, e = stripError source o) ∧
          f.Withdraws output g := by
  refine (ensures_copyStrippedVia hsource houtput hsize).onOsError (fun o => ?_) ?_
  · refine .bind (q := fun _ g => ¬ f.IsBlocked output.temporary ∧ f.Withdraws output g)
      (.of_each ?_) fun _ => .of_throw fun g hg => Or.inr ⟨hg.1, ⟨o, rfl⟩, hg.2⟩
    rintro k ⟨_, hk⟩
    refine (FileAction.ensures_change k).mono (fun _ => id) (fun _ g hg => ⟨?_, k, hk, hg⟩) ?_
    · rw [← hk.isBlocked_iff]
      exact (exists_unlinkIfPresent_iff (endsInName_temporary output)).mp ⟨g, hg⟩
    · rintro e g ⟨hfails, rfl⟩
      have hblocked : g.IsBlocked output.temporary := by
        by_contra hnot
        rcases (exists_unlinkIfPresent_iff (endsInName_temporary output)).mpr hnot with ⟨g', hg'⟩
        rw [hfails] at hg'
        cases hg'
      exact Or.inl ⟨hk.isBlocked_iff.mp hblocked,
        unlinkIfPresent_refusal houtput.temporary e hfails, hk⟩
  · rintro e g hother ⟨⟨o, rfl⟩, _⟩
    exact absurd rfl (hother o)

/-- Copying a file, however it ends. If it fails, nothing but files has changed. -/
theorem ensures_copyStripped {w : Workspace} (hname : output.parts ≠ []) (hsource : source.IsClear)
    (houtput : output.IsClear) (hsize : 0 < size) :
    Action.Ensures (· = w) (copyStripped source output size)
      (fun _ w' => w.files.Delivers output w'.files)
      fun e w' => w' = { w with files := w'.files } ∧
        ((w.files.IsBlocked output.temporary ∧ e.IsRefusal ∧
            w.files.Drafts output.temporary w'.files) ∨
          ¬ w.files.IsBlocked output.temporary ∧ (∃ o, e = stripError source o) ∧
            w.files.Withdraws output w'.files) := by
  refine .bind (q := fun temporary w' => w' = w ∧ temporary = output.temporary) (.of_except ?_ ?_)
    fun temporary => .given ?_
  · exact fun x hx w' hw => ⟨hw, (temporaryFor_eq_ok_iff.mp hx).2⟩
  · intro e he
    rw [temporaryFor_eq_ok_iff.mpr ⟨hname, rfl⟩] at he
    cases he
  rintro rfl
  refine .bind (q := fun _ w' => w.files.Delivers output w'.files) (Workspace.ensures_liftM ?_)
    fun removed => .bind (q := fun _ w' => w.files.Delivers output w'.files) ?_
      fun _ => .of_pure fun w' hw => hw
  swap
  · exact fun w' hw => hw
  rintro _ rfl
  -- What was done to the files is all that was done.
  exact (ensures_copy hsource houtput hsize).mono (fun _ => id) (fun _ _ => id)
    fun e g hfails => ⟨rfl, hfails⟩

end Copying

section Keeping

variable {source output p : Path} {f g : Files} {s : Place}

/-- A source that can be opened is the file at a path exactly if the path leads there. -/
theorem sameFile_iff (hs : f.openRead source = .ok s) :
    f.SameFile source p ↔ f.LeadsTo true p s := by
  rcases exists_of_openRead hs with ⟨b, _, hfile, _⟩
  constructor
  · rintro ⟨place, hsource, hp⟩
    rw [hs, Except.ok.injEq] at hsource
    rcases exists_of_openRead hp with ⟨_, hleads, _⟩
    rw [hsource]
    exact hleads
  · exact fun hp => ⟨s, hs, hp.openRead_eq hfile⟩

/-- A failure leaves the source alone, unless it is the temporary file. -/
theorem Files.Spares.find?_source (h : f.Spares output g) (hs : f.openRead source = .ok s)
    (hsame : ¬ f.SameFile source output.temporary) : g.tree.find? s = f.tree.find? s := by
  rcases exists_of_openRead hs with ⟨b, _, hfile, _⟩
  refine h.others s fun hdraft => hsame ((sameFile_iff hs).mpr (hdraft.following ?_))
  rw [hfile]
  exact (Tree.isPlain_file b).ne_link

/-- A failure leaves no file at the temporary path, if its directory is not locked. -/
theorem Files.Spares.find?_draft (h : f.Spares p g) (hparts : p.parts ≠ []) {b : Bytes}
    (hs : f.LeadsTo false p.temporary s) (hfile : f.tree.find? s = some (.file b))
    (hfree : f.tree.isLocked s = false) : g.tree.find? s = none := by
  have hlocked : f.tree.isLocked s ≠ true := by
    rw [hfree]
    exact Bool.false_ne_true
  rcases h.draft s hs with hkept | hnone | ⟨hkept, _⟩
  · -- Nothing has changed then, and the file is where it was.
    have hdiffers : Tree.DiffersPlainly f.tree g.tree := by
      intro q
      by_cases hq : q = s
      · rw [hq]
        exact Or.inl hkept
      · exact Or.inl (h.others q fun hdraft => hq (hdraft.unique hs))
    have hleads : f.LeadsTo true p.temporary s := by
      refine hs.following ?_
      rw [hfile]
      exact (Tree.isPlain_file b).ne_link
    have hthere : g.isFile p.temporary = .ok true := by
      refine isFile_eq_true_iff.mpr ⟨s, b, hleads.of_differsPlainly h.home hdiffers ?_, ?_⟩
      · exact fun hnone => hkept.symm.trans hnone
      · exact hkept.trans hfile
    rcases h.gone hparts hthere with ⟨c, hc⟩
    exact absurd (hs.isKept_iff.mp ⟨_, hc⟩).2 hlocked
  · exact hnone
  · exact absurd hkept hlocked

theorem Files.Delivers.not_isBlocked (h : f.Delivers p g) : ¬ f.IsBlocked p.temporary := by
  rcases h with ⟨draft, b, f₁, hdraft, hover, hrename⟩
  rw [hdraft.isBlocked_iff_isKept hover.plain.ne_dir, ← hover.isKept_iff]
  rintro ⟨e, q, hq, hfind, hlocked⟩
  -- What was moved is the draft or a link to it, so it is no directory.
  have hdir : e ≠ .dir := by
    rintro rfl
    have hfollowed : f₁.LeadsTo true p.temporary q := by
      refine hq.following ?_
      rw [hfind]
      simp only [ne_eq, Option.some.injEq, reduceCtorEq, not_false_eq_true, implies_true]
    rw [hfollowed.unique (hover.leadsTo hdraft), hover.find?_self] at hfind
    cases hfind
  rcases hq.exists_of_rename hfind hdir hrename with ⟨_, _, _, _, hfree, _⟩
  rw [hfree] at hlocked
  cases hlocked

/-- What has been delivered leaves the source alone, unless that is the file at the temporary path,
    which has been moved. -/
theorem Files.Delivers.find?_source (h : f.Delivers output g)
    (hlink : ¬ f.IsLink output.temporary) (hs : f.openRead source = .ok s)
    (houtput : ¬ f.LeadsTo false output s) :
    (f.SameFile source output.temporary → g.tree.find? s = none) ∧
      (¬ f.SameFile source output.temporary → g.tree.find? s = f.tree.find? s) := by
  rcases h with ⟨draft, b, f₁, hdraft, hover, hrename⟩
  rcases exists_installs_of_rename hover (hdraft.of_not_isLink hlink) hrename with
    ⟨c, hc, _, hinstalls⟩
  have hne : s ≠ c := fun heq => houtput (heq ▸ hc)
  rw [sameFile_iff hs, hinstalls.find?, if_neg hne]
  constructor
  · intro hsame
    rw [if_pos (hsame.unique hdraft)]
  · intro hsame
    have hdrafted : s ≠ draft := fun heq => hsame (heq ▸ hdraft)
    rw [if_neg hdrafted]

end Keeping

/-- The step ends in a state, whether it succeeds or fails. -/
def Action.Ends {σ α : Type} (a : Action σ α) (s s' : σ) : Prop :=
  (∃ x, a s = .ok x s') ∨ ∃ e, a s = .error e s'

/-- Copying a file without its directives succeeds or reports a failure exactly if the temporary
    path is not blocked, and otherwise the error of the file system comes through and nothing has
    been done, unless something is kept at the temporary path. If there is no link there, a failure
    spares everything, and the source is unchanged unless it is the output or the temporary file,
    which is gone in the end if its directory is not locked. -/
theorem copyStripped_clean {source output : Path} {size : Int} {w : Workspace}
    (hname : output.parts ≠ []) (hsource : source.IsClear) (houtput : output.IsClear)
    (hsize : 0 < size) :
    ((∃ removed w', copyStripped source output size w = .ok removed w') ∨
      (∃ o w', copyStripped source output size w = .error (stripError source o) w') ↔
        ¬ w.files.IsBlocked output.temporary) ∧
    (w.files.IsBlocked output.temporary →
      ∃ e g, e.IsRefusal ∧ copyStripped source output size w = .error e { w with files := g } ∧
        w.files.Drafts output.temporary g ∧
        ((∀ k, ¬ w.files.IsKept output.temporary k) → g = w.files)) ∧
    (¬ w.files.IsLink output.temporary →
      (∀ e w', copyStripped source output size w = .error e w' →
        w.files.Spares output w'.files ∧ w' = { w with files := w'.files }) ∧
      ∀ w' s, (copyStripped source output size).Ends w w' → w.files.openRead source = .ok s →
        ¬ w.files.LeadsTo false output s →
        (w.files.SameFile source output.temporary → w.files.tree.isLocked s = false →
          w'.files.tree.find? s = none) ∧
        (¬ w.files.SameFile source output.temporary →
          w'.files.tree.find? s = w.files.tree.find? s)) := by
  have hensures := ensures_copyStripped (w := w) hname hsource houtput hsize
  have hspares : ¬ w.files.IsLink output.temporary → ∀ {e : Failure} {w' : Workspace},
      copyStripped source output size w = .error e w' →
      w.files.Spares output w'.files ∧ w' = { w with files := w'.files } := by
    intro hlink e w' h
    rcases hensures.error rfl h with ⟨hw', ⟨hblocked, _, hdrafts⟩ | ⟨_, _, k, hk, hunlink⟩⟩
    · rcases hdrafts.exists_unlink_eq_error (endsInName_temporary output) hblocked with ⟨_, hfails⟩
      exact ⟨hdrafts.spares_self hname hlink hfails, hw'⟩
    · exact ⟨hk.spares hname hlink hunlink, hw'⟩
  refine ⟨⟨?_, fun hfree => ?_⟩, fun hblocked => ?_, fun hlink => ⟨fun e w' h => ?_, ?_⟩⟩
  · rintro (⟨removed, w', h⟩ | ⟨o, w', h⟩)
    · exact (hensures.ok rfl h).not_isBlocked
    · rcases hensures.error rfl h with ⟨_, ⟨_, ⟨o', ho⟩, _⟩ | ⟨hfree, _⟩⟩
      · cases ho
      · exact hfree
  · rcases h : copyStripped source output size w with ⟨removed, w'⟩ | ⟨e, w'⟩
    · exact Or.inl ⟨removed, w', rfl⟩
    · rcases hensures.error rfl h with ⟨_, ⟨hblocked, _⟩ | ⟨_, ⟨o, rfl⟩, _⟩⟩
      · exact absurd hblocked hfree
      · exact Or.inr ⟨o, w', rfl⟩
  · rcases h : copyStripped source output size w with ⟨removed, w'⟩ | ⟨e, w'⟩
    · exact absurd hblocked (hensures.ok rfl h).not_isBlocked
    · rcases hensures.error rfl h with ⟨hw', ⟨_, he, hdrafts⟩ | ⟨hfree, _⟩⟩
      · exact ⟨e, w'.files, he, congrArg _ hw', hdrafts, hdrafts.eq_of_isBlocked hblocked⟩
      · exact absurd hblocked hfree
  · exact hspares hlink h
  · rintro w' s (⟨removed, h⟩ | ⟨e, h⟩) hs hnot
    · rcases (hensures.ok rfl h).find?_source hlink hs hnot with ⟨hgone, hsame⟩
      exact ⟨fun h _ => hgone h, hsame⟩
    · have hspared := (hspares hlink h).1
      refine ⟨fun hsame hfree => ?_, hspared.find?_source hs⟩
      rcases exists_of_openRead hs with ⟨b, _, hfile, _⟩
      exact hspared.find?_draft hname (((sameFile_iff hs).mp hsame).of_not_isLink hlink) hfile hfree

/-- A source, and a directory at the path of the output. -/
def stalledWorkspace : Workspace where
  files := ⟨{ entries :=
    [(["a.cz"], .file (encode "x")), (["d"], .dir), (["d", "b"], .file [])] }, []⟩
  tools := default

theorem copyStripped_clean_stalled :
    (∃ o, copyStripped "/a.cz" "/d" 1 stalledWorkspace =
      .error (stripError "/a.cz" o) stalledWorkspace) ∧
    ¬ stalledWorkspace.files.IsBlocked (Path.temporary "/d") ∧
    stalledWorkspace.files.Spares "/d" stalledWorkspace.files ∧
    stalledWorkspace.files.tree.find? ["a.cz"] = some (.file (encode "x")) := by
  have hfails : copyStripped "/a.cz" "/d" 1 stalledWorkspace =
      .error (stripError "/a.cz" ⟨.isDirectory, "/d.tmp", some "/d"⟩) stalledWorkspace := by cbv
  have hsource : ("/a.cz" : Path).IsClear := by
    unfold Path.IsClear
    decide +kernel
  have houtput : ("/d" : Path).IsClear := by
    unfold Path.IsClear
    decide +kernel
  rcases @copyStripped_clean "/a.cz" "/d" 1 stalledWorkspace (by decide +kernel) hsource houtput
    (by decide) with ⟨hclean, _, hspares⟩
  rcases hspares (not_isLink_of_absent ["d.tmp"] (by cbv)) with ⟨hspares, _⟩
  refine ⟨⟨_, hfails⟩, hclean.mp (Or.inr ⟨_, _, hfails⟩), (hspares _ _ hfails).1, ?_⟩
  decide +kernel

/-- A source, and a directory at the temporary path of `out`. -/
def occupiedWorkspace : Workspace where
  files := ⟨{ entries := [(["a.cz"], .file (encode "x")), (["out.tmp"], .dir)] }, []⟩
  tools := default

/-- A source at the temporary path of `out`. -/
def sharedWorkspace : Workspace where
  files := ⟨{ entries := [(["out.tmp"], .file (encode "x"))] }, []⟩
  tools := default

/-- An empty output. -/
def emptiedWorkspace : Workspace :=
  { sharedWorkspace with
    files := ⟨{ entries := [(["out"], .file [])] }, []⟩
    notices := [.debug .directives "Stripped 0 directive(s) from /out.tmp"] }

/-- With a directory at the temporary path, the error of the file system comes through and is not
    reported as a failure of the stage. With the source there, the copy succeeds, the output is
    empty and the source is gone. -/
theorem copyStripped_unclean :
    (copyStripped "/a.cz" "/out" 4096 occupiedWorkspace =
        .error (refuse .isDirectory "/out.tmp") occupiedWorkspace ∧
      ∀ o, refuse .isDirectory "/out.tmp" ≠ stripError "/a.cz" o) ∧
    copyStripped "/out.tmp" "/out" 4096 sharedWorkspace = .ok [] emptiedWorkspace ∧
    emptiedWorkspace.files.tree.find? ["out.tmp"] ≠
      sharedWorkspace.files.tree.find? ["out.tmp"] := by
  refine ⟨⟨by cbv, fun o h => ?_⟩, by cbv, by decide +kernel⟩
  cases h

end DialectBuild
