import DialectBuild.Proofs.BuiltFiles
import DialectBuild.Proofs.ChildPaths
import DialectBuild.Proofs.ToolPlan

/-!
# What a Transpile Failure Leaves

The first two phases take the units one after the other, and end with the first step that fails.
The step has a unit of its own. It removes the artifacts of that unit before it hands the error
on, and the error names the unit and the stage. All other files are as they were when the step
began, and what the steps before it did is known, for they succeeded: they stored artifacts.

That an artifact cannot be removed is only noted in the log, and it stays then. There are two
reasons for it: its directory is locked, or its path is too long to be looked up. Both may be why
the step has failed in the first place.

## Main definitions

* `Project.FailsAt`: The step of the first two phases that fails.
* `Files.IsOverlong`: A path that is too long to be looked up.

## Theorems

* `Project.runUnits_eq_error`, `Project.writeSources_eq_error`: A failure is that of one step.
* `Files.isOverlong_of_spot`: Why an artifact of a source is not found.
* `build_transpileFailure`: What is left when a build ends with a transpile failure.
* `build_transpileFailure_stale`: Where artifacts of the unit are left.
-/

namespace DialectBuild

open Files Workspace

namespace Project

variable {root : Path} {tools : Toolchain} {p p' : Project} {e : Failure}

/-- A pass fails with the first of its steps that fails. -/
theorem runUnits_eq_error {α : Type} {act : Action Desk α} {us : List TranslationUnit}
    {w : Workspace} (h : runUnits act us w = .error e p) :
    ∃ before u after xs q d, us = before ++ u :: after ∧ runUnits act before w = .ok xs q ∧
      act ⟨q.workspace, u⟩ = .error e d ∧ p = ⟨d.workspace, q.units ++ d.unit :: after⟩ := by
  induction us generalizing w p with
  | nil =>
      rw [runUnits] at h
      cases h
  | cons u us ih =>
      rw [runUnits] at h
      rcases hu : act ⟨w, u⟩ with ⟨x, d⟩ | ⟨e', d⟩
      · rw [hu] at h
        dsimp only at h
        rcases hus : runUnits act us d.workspace with ⟨xs, q⟩ | ⟨e', q⟩
        · rw [hus] at h
          cases h
        · rw [hus] at h
          cases h
          -- A later unit has failed, and this one is among those that were done before it.
          rcases ih hus with ⟨before, v, after, xs, q', d', rfl, hbefore, hv, rfl⟩
          refine ⟨u :: before, v, after, x :: xs, ⟨q'.workspace, d.unit :: q'.units⟩, d', rfl, ?_,
            hv, rfl⟩
          rw [runUnits, hu]
          dsimp only
          rw [hbefore]
      · rw [hu] at h
        cases h
        exact ⟨[], u, us, [], ⟨w, []⟩, d, rfl, rfl, hu, rfl⟩

/-- A phase fails where what it does fails. -/
theorem phase_eq_error {α : Type} {number : Int} {label : Text} {body : Action Project α}
    (h : phase number label body p = .error e p') :
    ∃ c, body ⟨{ p.workspace with console := c }, p.units⟩ = .error e p' := by
  unfold phase at h
  rcases Action.bind_eq_error_iff.mp h with h | ⟨_, p₁, henter, h⟩
  · cases h
  rcases liftM_eq_ok_iff.mp henter with ⟨w, hactivity, rfl⟩
  rcases Workspace.enter_eq_ok hactivity with ⟨c, rfl⟩
  rcases Action.bind_eq_error_iff.mp h with h | ⟨_, _, _, h⟩
  · exact ⟨c, h⟩
  · cases h

/-- The step of the first two phases that fails, with the desk at which it began and that at
    which it ended. All steps before it have succeeded. -/
inductive FailsAt (root : Path) (tools : Toolchain) (p : Project) (e : Failure) :
    Desk → Desk → Prop where
  | preparing {c : Console} {before after : List TranslationUnit} {u : TranslationUnit}
      {xs : List Unit} {q : Project} {d : Desk} (hunits : p.units = before ++ u :: after)
      (hbefore : runUnits (prepareShown root tools) before { p.workspace with console := c } =
        .ok xs q)
      (hstep : prepareShown root tools ⟨q.workspace, u⟩ = .error e d) :
      FailsAt root tools p e ⟨q.workspace, u⟩ d
  | finishing {c : Console} {before after : List TranslationUnit} {u : TranslationUnit}
      {xs ys : List Unit} {p₁ q : Project} {d : Desk}
      (hfirst : runUnits (prepareShown root tools) p.units { p.workspace with console := c } =
        .ok xs p₁)
      {c₁ : Console} (hunits : p₁.units = before ++ u :: after)
      (hbefore : runUnits (finishShown root (p.units.map TranslationUnit.source)) before
        { p₁.workspace with console := c₁ } = .ok ys q)
      (hstep : finishShown root (p.units.map TranslationUnit.source) ⟨q.workspace, u⟩ =
        .error e d) :
      FailsAt root tools p e ⟨q.workspace, u⟩ d

/-- The first two phases fail with one of their steps. -/
theorem writeSources_eq_error (h : writeSources root tools p = .error e p') :
    ∃ d d', FailsAt root tools p e d d' ∧ p'.workspace = d'.workspace := by
  unfold writeSources at h
  rcases Action.bind_eq_error_iff.mp h with h | ⟨_, _, hget, h⟩
  · cases h
  rw [Action.get_eq_ok_iff] at hget
  rcases hget with ⟨rfl, rfl⟩
  rcases Action.bind_eq_error_iff.mp h with h | ⟨xs, p₁, hfirst, h⟩
  · rcases phase_eq_error h with ⟨c, h⟩
    rcases runUnits_eq_error h with ⟨before, u, after, xs, q, d, hunits, hbefore, hstep, rfl⟩
    exact ⟨_, d, .preparing hunits hbefore hstep, rfl⟩
  -- The first pass went through, so the failure is one of the second.
  rcases phase_eq_ok hfirst with ⟨c, c', q₁, hpass, rfl⟩
  rcases Action.bind_eq_error_iff.mp h with h | ⟨ys, p₂, hsecond, h⟩
  · rcases phase_eq_error h with ⟨c₁, h⟩
    rcases runUnits_eq_error h with ⟨before, u, after, ys, q, d, hunits, hbefore, hstep, rfl⟩
    exact ⟨_, d, .finishing hpass hunits hbefore hstep, rfl⟩
  · cases h

/-- A build that ends with a transpile failure fails in the first two phases. -/
theorem writeSources_of_ends {r : BuildRequest} (hends : Ends r p .transpileFailure)
    (h : phasesOf r p = .error e p') : writeSources r.root r.toolchain p = .error e p' := by
  rcases ends_of_error h with hwrite | ⟨p₁, hwrite, _⟩
  · exact hwrite
  · cases hends with
    | transpiling hfails =>
        rw [hwrite] at hfails
        cases hfails

section Steps

variable {ts : Tools} {sources : List Path} {stored borrowed : Place → Prop} {f : Files}

/-- A pass that keeps to its units does so for any of them. -/
theorem amended_of_runUnits {α : Type} {act : Action Desk α} {us : List TranslationUnit}
    {w : Workspace} {xs : List α} {q : Project} (h : runUnits act us w = .ok xs q)
    (hpass : Action.Ensures (Amended ts sources stored borrowed f) (eachUnit act)
      (fun _ => Amended ts sources stored borrowed f)
      fun _ => Amended ts sources stored borrowed f)
    (hus : ∀ u ∈ us, u.source ∈ sources) (hw : Workspace.Amended ts stored borrowed f w) :
    Amended ts sources stored borrowed f q := by
  have heach : eachUnit act ⟨w, us⟩ = .ok xs q := h
  exact hpass.ok ⟨hus, hw⟩ heach

/-- A step that fails works on its own unit, in what the steps before it have made of the
    files. -/
theorem FailsAt.hasFailed {d d' : Desk} (h : FailsAt root tools p e d d')
    (hp : Amended ts sources stored borrowed f p) (hplain : ts.FailPlainly)
    (hobey : ∀ s ∈ sources, ∀ call ∈ transpileCalls tools s,
      ts.WritesOnly call (Artifacts.beside s).code)
    (hgrants : f.Grants sources stored borrowed) :
    d.unit.source ∈ sources ∧ Workspace.Amended ts stored borrowed f d.workspace ∧
      ∃ runs, Desk.HasFailed (transpileCalls tools d.unit.source) d.unit.source d.workspace e runs
        d' := by
  cases h with
  | @preparing c before after u xs q d' hunits hbefore hstep =>
      have hall := hp.1
      rw [hunits, List.forall_mem_append, List.forall_mem_cons] at hall
      -- The units before the one that failed have passed the stage.
      have hq := amended_of_runUnits hbefore (amended_firstPass hplain hobey hgrants) hall.1
        (hp.2.shown rfl rfl)
      have hplain' : q.workspace.tools.FailPlainly := hq.2.tools ▸ hplain
      exact ⟨hall.2.1, hq.2, (ensures_prepareShown ⟨q.workspace, u⟩ hplain').error rfl hstep⟩
  | @finishing c before after u xs ys p₁ q d' hfirst c₁ hunits hbefore hstep =>
      have hp₁ := amended_of_runUnits hfirst (amended_firstPass hplain hobey hgrants) hp.1
        (hp.2.shown rfl rfl)
      have hall := hp₁.1
      rw [hunits, List.forall_mem_append, List.forall_mem_cons] at hall
      have hq := amended_of_runUnits hbefore (amended_secondPass hgrants) hall.1
        (hp₁.2.shown rfl rfl)
      have hfailed := (ensures_finishShown ⟨q.workspace, u⟩).error rfl hstep
      exact ⟨hall.2.1, hq.2, [], hfailed.tells, follows_nil _, hfailed.works, hfailed.cleared⟩

end Steps

end Project

namespace Files

/-- The path or its last name is longer than the file system allows. -/
def IsOverlong (p : Path) : Prop :=
  maxPath ≤ p.text.byteLength ∨ maxName < p.name.byteLength

instance (p : Path) : Decidable (IsOverlong p) :=
  inferInstanceAs (Decidable (_ ∨ _))

section Artifacts

variable {f g : Files} {s p : Path} {place : Place}

/-- An artifact of a source that is there can be looked up unless its path is too long. -/
theorem isOverlong_of_spot (hs : s.IsSource) (hleads : f.LeadsTo false s place)
    (hp : p ∈ (Artifacts.beside s).toList) {e : Failure} (h : f.spot false p = .error e) :
    IsOverlong p := by
  rw [toList_beside hs] at hp
  rcases List.mem_map.mp hp with ⟨ending, hending, rfl⟩
  have hclear : s.IsClear := isClear_of_spot hleads
  rw [← Path.child_parent hs.parts] at hleads
  rcases hleads.exists_directory with ⟨dir, hdir, hfind, _⟩
  by_contra hshort
  rw [IsOverlong, Path.name_child, not_or, not_le, not_lt] at hshort
  -- A name that is short enough can be looked up in the directory of the source.
  have hendings : ∀ e ∈ artifactEndings, (∃ x ∈ e, x ≠ '.') ∧ .char '\x00' ∉ e := by decide
  rcases hendings ending hending with ⟨hdark, hnull⟩
  have hname := plain_of_suffix hdark (List.suffix_append (stem s) ending)
  have hsource : .char '\x00' ∉ s.name :=
    Path.isClear_iff.mp hclear _ (Path.name_mem_parts hs.parts)
  have hclear' : .char '\x00' ∉ stem s ++ ending := by
    rw [List.mem_append, not_or]
    exact ⟨fun hmem => hsource (List.mem_of_mem_take hmem), hnull⟩
  have hchild : f.LeadsTo false _ _ := hdir.child hfind ⟨hname.1, hname.2, hshort.2⟩ hclear'
    hshort.1 fun hfollow => absurd hfollow Bool.false_ne_true
  rw [LeadsTo, h] at hchild
  cases hchild

/-- An artifact is stuck only if its directory is locked or its path is too long. -/
theorem IsStuck.isLocked_or_isOverlong (h : f.IsStuck p) (hl : f.IsLinkless) (hs : s.IsSource)
    (hfile : f.isFile s = .ok true) (hp : p ∈ (Artifacts.beside s).toList) :
    f.tree.isLocked (f.placeOf p) = true ∨ IsOverlong p := by
  refine h.imp_right ?_
  rintro ⟨e, hspot⟩
  rcases (isFile_iff hl).mp hfile with ⟨b, hsource⟩
  exact isOverlong_of_spot hs (leadsTo_of_spot (spot_false_of_spot_true hl hsource)) hp hspot

end Artifacts

end Files

/-- The report of an error that has a stage and a unit names both. -/
theorem BuildError.names_of_format {b : BuildError} {s : Path} {stage : Text}
    (hunit : b.unit = some s) (hstage : b.stage = some stage) (hne : stage ≠ []) :
    ("[" ++ stage ++ "] " ++ s.text ++ ": " : Text) <+: b.format := by
  have hheadline : b.headline = "[" ++ stage ++ "] " ++ s.text ++ ": " ++ b.message := by
    have hfilter : b.stage.filter (!·.isEmpty) = some stage := by
      rw [hstage, Option.filter_some, if_pos]
      rw [Bool.not_eq_true', List.isEmpty_eq_false_iff]
      exact hne
    rw [headline, hfilter, hunit]
  have hnames : ("[" ++ stage ++ "] " ++ s.text ++ ": " : Text) <+: b.headline :=
    ⟨b.message, hheadline.symm⟩
  rw [format]
  split
  · exact hnames
  · exact hnames.trans ((List.prefix_append _ _).trans (List.prefix_append _ _))

/-- A transpile failure leaves no artifact of the unit that fails and harms nothing else. The
    message names the unit and a stage. There is a step of the first two phases that fails, with
    that unit on the desk `d`, and the build ends with the files that the step leaves. An artifact
    of the unit is a regular file then only if its directory is locked or its path is too long. The
    artifacts of every other unit are as they were when the step began, and what is neither an
    artifact of a unit nor a temporary file for one is as it was before the build. -/
theorem build_transpileFailure {r : BuildRequest} {verbose : Bool} {w w' : Workspace}
    {report : BuildReport} {sources : List Path} (hl : w.files.IsLinkless)
    (hsound : w.files.tree.IsSound) (hsources : w.files.sources r.root = .ok sources)
    (hplain : w.tools.FailPlainly) (htools : w.tools.IsObedient r sources)
    (h : build r verbose w = .ok report w') (hcode : report.exitCode = .transpileFailure) :
    ∃ (b : BuildError) (s : Path) (stage : Text) (start : Project) (d d' : Desk),
      s ∈ sources ∧ b.unit = some s ∧ b.stage = some stage ∧ stage ≠ [] ∧
      ("[" ++ stage ++ "] " ++ s.text ++ ": " : Text) <+: report.message ∧
      start.workspace.files = w.files ∧ start.workspace.tools = w.tools ∧
      start.units = sources.map TranslationUnit.ofSource ∧
      Project.FailsAt r.root r.toolchain start (.build b) d d' ∧ d.unit.source = s ∧
      w'.files = d'.workspace.files ∧
      (∀ p ∈ (Artifacts.beside s).toList, ∀ b,
        w'.files.tree.find? (w.files.placeOf p) = some (.file b) →
        w.files.tree.isLocked (w.files.placeOf p) = true ∨ IsOverlong p) ∧
      (∀ s' ∈ sources, s' ≠ s → ∀ p ∈ (Artifacts.beside s').toList,
        w'.files.tree.find? (w.files.placeOf p) =
          d.workspace.files.tree.find? (w.files.placeOf p)) ∧
      ∀ q, (∀ s' ∈ sources, ¬ w.files.Holds s' q) →
        w'.files.tree.find? q = w.files.tree.find? q := by
  rcases build_cases h with ⟨hnone, _⟩ |
    ⟨sources', c, ns, hsources', _, ⟨_, _, _, hsuccess, _⟩ | ⟨b, p, hphases, htells, hfiles, _⟩⟩
  · rw [hcode] at hnone
    cases hnone
  · rw [hcode] at hsuccess
    cases hsuccess
  rw [hsources, Except.ok.injEq] at hsources'
  subst hsources'
  -- The phases end with a step of the first two of them.
  rcases Project.follows_of_phasesOf hplain hphases with ⟨_, _, _, _, _, hends, _⟩
  rw [← htells.exitCode, hcode] at hends
  have hwrite := Project.writeSources_of_ends hends hphases
  rcases Project.writeSources_eq_error hwrite with ⟨d, d', hfails, hworkspace⟩
  -- So far, the files of the units have been touched.
  have hgrants := grants_of_sources hl hsound hsources fun _ => False
  rcases hfails.hasFailed (Project.amended_start _ _ w c ns sources) hplain htools.transpile
    hgrants with
    ⟨hmem, hamended, runs, hfailed⟩
  rcases hfailed.tells b rfl with ⟨_, hunit, stage, hstage, hne⟩
  rw [hworkspace] at hfiles
  have hhosts := (hgrants.hosts _ hmem).amended hamended.files
  have hobey : ∀ run ∈ runs, d.workspace.tools.WritesOnly run.call
      (Artifacts.beside d.unit.source).code := fun run hrun => by
    rw [hamended.tools]
    exact htools.transpile _ hmem _ (hfailed.follows.calls_le.subset (List.mem_map_of_mem hrun))
  have hstep := (hfailed.works.workspace.files hhosts hobey).changes
  have hchanges := hamended.files.changes
  refine ⟨b, d.unit.source, stage, _, d, d', hmem, hunit, hstage, hne,
    htells.message ▸ BuildError.names_of_format hunit hstage hne, rfl, rfl, rfl, hfails, rfl,
    hfiles, ?_, ?_, ?_⟩
  · -- What is stuck after the step was stuck before the build, as to why it is.
    intro p hp b' hfile
    have hbefore := hchanges.alike hl
    have halike := hbefore.trans (hstep.alike hbefore.right)
    rw [hfiles, ← halike.placeOf_eq] at hfile
    have hstuck := hfailed.cleared b rfl hhosts hobey p hp b' hfile
    have hstuck' := halike.symm.isStuck (endsPlain_of_mem_artifacts hp) hstuck
    exact hstuck'.isLocked_or_isOverlong hl
      ((apart_of_sources hsound hsources).isSource _ hmem)
      (isFile_of_sources hsound hsources _ hmem) hp
  · -- The failed step has not touched what other units hold.
    intro s' hs' hne p hp
    rw [hfiles]
    refine hstep.outside _ ?_
    rw [hchanges.stores_eq, hchanges.borrows_eq]
    exact (apart_of_sources hsound hsources).not_holds_of_ne hs' hmem hne (Or.inl ⟨p, hp, rfl⟩)
  · intro q hq
    rw [hfiles]
    have hended := hamended.works hgrants hmem (hamended.tools ▸ hobey) hfailed.works.workspace
    refine hended.files.changes.outside q ?_
    rintro ((⟨s, hs, hstored⟩ | hfalse) | ⟨s, hs, hborrowed⟩)
    · exact hq s hs (Or.inl hstored)
    · exact hfalse
    · exact hq s hs (Or.inr hborrowed)

/-- The exit code with which a build ended that returned. -/
def exitCodeOf : EStateM.Result Failure Workspace BuildReport → Option ExitCode
  | .ok report _ => some report.exitCode
  | .error _ _ => none

theorem exists_of_exitCodeOf {result : EStateM.Result Failure Workspace BuildReport}
    {code : ExitCode} (h : exitCodeOf result = some code) :
    ∃ report, result = .ok report (workspaceAfter result) ∧ report.exitCode = code := by
  cases result with
  | ok report w => exact ⟨report, rfl, Option.some.inj h⟩
  | error e w => cases h

/-- Two units, one of which cannot have a header: there is a directory in its place. -/
def blockedWorkspace : Workspace :=
  { importingWorkspace with
    files := ⟨{ entries := [(["b.cz"], .file []), (["a.cz"], .file []), (["b.cz.h"], .dir)] }, []⟩ }

theorem exitCodeOf_blocked :
    exitCodeOf (build importingRequest false blockedWorkspace) = some .transpileFailure := by
  set_option maxRecDepth 20000 in cbv

theorem build_transpileFailure_blocked : ∃ report w' s stage,
    build importingRequest false blockedWorkspace = .ok report w' ∧
    report.exitCode = .transpileFailure ∧ s ∈ importingSources ∧
    ("[" ++ stage ++ "] " ++ s.text ++ ": " : Text) <+: report.message ∧
    (∀ p ∈ (Artifacts.beside s).toList, ∀ b,
      w'.files.tree.find? (blockedWorkspace.files.placeOf p) ≠ some (.file b)) ∧
    w'.files.tree.find? ["b.cz"] = some (.file []) := by
  rcases exists_of_exitCodeOf exitCodeOf_blocked with ⟨report, hbuild, hcode⟩
  have hsources : blockedWorkspace.files.sources importingRequest.root = .ok importingSources := by
    cbv
  have hsound : blockedWorkspace.files.tree.IsSound := ⟨by decide +kernel, by decide +kernel⟩
  rcases build_transpileFailure (isLinkless_of_linkCount (by decide +kernel)) hsound hsources
    targetTools_failPlainly isObedient_importing hbuild hcode with
    ⟨_, s, stage, _, _, _, hs, _, _, _, hmessage, _, _, _, _, _, _, hcleared, _, hrest⟩
  have hfree : ∀ s ∈ importingSources, ∀ p ∈ (Artifacts.beside s).toList,
      ¬ (blockedWorkspace.files.tree.isLocked (blockedWorkspace.files.placeOf p) = true ∨
        IsOverlong p) := by decide +kernel
  refine ⟨report, _, s, stage, hbuild, hcode, hs, hmessage,
    fun p hp b hfile => hfree s hs p hp (hcleared p hp b hfile), hrest ["b.cz"] ?_⟩
  -- No unit holds the place of a source.
  intro s' hs' hholds
  have hholds' : blockedWorkspace.files.Holds s' ([] ++ [("b.cz" : Text)]) := hholds
  have hends := hholds'.not_endsWith ((apart_of_sources hsound hsources).isSource s' hs')
  revert hends
  decide +kernel

/-- A unit in a locked directory, with the artifacts of an earlier build. -/
def staleWorkspace : Workspace :=
  { importingWorkspace with
    files := ⟨{ entries := [(["a.cz"], .file []), (["a.cz.c"], .file []), (["a.cz.h"], .file []),
                  (["a.o"], .file [])],
                rights := { locked := [[]] } }, []⟩ }

theorem exitCodeOf_stale :
    exitCodeOf (build importingRequest false staleWorkspace) = some .transpileFailure := by
  set_option maxRecDepth 20000 in cbv

/-- In a locked directory, a unit that fails keeps all the artifacts it had. -/
theorem build_transpileFailure_stale : ∃ report w',
    staleWorkspace.files.sources importingRequest.root = .ok ["/a.cz"] ∧
    build importingRequest false staleWorkspace = .ok report w' ∧
    report.exitCode = .transpileFailure ∧
    ∀ p ∈ (Artifacts.beside "/a.cz").toList, w'.files.isFile p = .ok true := by
  rcases exists_of_exitCodeOf exitCodeOf_stale with ⟨report, hbuild, hcode⟩
  have hfiles : (workspaceAfter (build importingRequest false staleWorkspace)).files =
      staleWorkspace.files := by
    set_option maxRecDepth 20000 in cbv
  refine ⟨report, _, by cbv, hbuild, hcode, ?_⟩
  rw [hfiles, Artifacts.toList, List.forall_mem_cons, List.forall_mem_cons,
    List.forall_mem_singleton]
  exact ⟨by cbv, by cbv, by cbv⟩

end DialectBuild
