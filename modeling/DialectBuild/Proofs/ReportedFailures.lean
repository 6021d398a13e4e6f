import DialectBuild.Proofs.FailedUnit
import DialectBuild.Proofs.StageFailures

/-!
# Failures That a Build Reports

A build that fails returns a report with the exit code and the wording of a build error, which
tells the stage and, if it arose in work on a unit, the unit. Any failure that is not reported in
this way gets out, and of each such failure it is known how.

The first two phases consist of the stages of units, whose failures are known. A compiler that
fails to run is reported if it is missing or takes too long, and so is a linker. When there is
nothing to build, or when the root is no directory, that is reported as well.

None of the ways out is closed. A null in an import line is enough for one of them, and a
directory in place of C text, together with a transpiler that fails, for another.

## Main definitions

* `BuildError.IsPlaced`: A build error that tells where it arose.
* `Project.Allows`: The failures of the phases.
* `Desk.HasCompiled`, `Workspace.HasLinked`: What has been called.
* `Workspace.LetsOut`: The ways in which a failure gets out of a whole build.

## Theorems

* `Project.keeps_writeSources`: The first two phases, however they end.
* `Project.ensures_makeObjects_called`, `Project.ensures_makeProgram_called`: The other two.
* `ensures_build`: How a build ends, if it is known how the phases do.
* `failures_reported`: A failure is reported or gets out.
* `failures_let_out`: Failures do get out.
-/

namespace DialectBuild

open Outcome Failure

/-- A build error that tells where it arose: the stage and, if it arose in work on a unit, the
    source of that, which is one that was discovered. -/
structure BuildError.IsPlaced (isSource : Path → Prop) (b : BuildError) : Prop where
  /-- The stage is told. -/
  stage : ∃ stage, b.stage = some stage ∧ stage ≠ []
  /-- The unit is told, unless the error is of no unit. -/
  unit : ((b.kind = .transpile ∨ b.kind = .compile) ∧ ∃ s, isSource s ∧ b.unit = some s) ∨
    (b.kind = .link ∨ b.kind = .noSources) ∧ b.unit = none

theorem BuildError.IsPlaced.mono {isSource isSource' : Path → Prop} {b : BuildError}
    (h : b.IsPlaced isSource) (himp : ∀ s, isSource s → isSource' s) : b.IsPlaced isSource' := by
  refine ⟨h.stage, ?_⟩
  rcases h.unit with ⟨hkind, s, hs, hunit⟩ | hnone
  · exact Or.inl ⟨hkind, s, himp s hs, hunit⟩
  · exact Or.inr hnone

theorem Failure.IsTold.isPlaced {k : ErrorKind} {s : Path} {e : Failure} {isSource : Path → Prop}
    (h : e.IsTold k (· = some s)) (hk : k = .transpile ∨ k = .compile) (hs : isSource s) :
    ∃ b, e = .build b ∧ b.IsPlaced isSource := by
  rcases h with ⟨b, rfl, hkind, hunit, hstage⟩
  exact ⟨b, rfl, hstage, Or.inl ⟨hkind ▸ hk, s, hs, hunit⟩⟩

namespace Project

variable {α : Type} {sources : List Path} {ts : Tools} {runs : List ToolRun} {output : Path}

/-- The failures that a build of sources may end with: those that tell where they arose, and those
    that get out. -/
def Allows (output : Path) (sources : List Path) (e : Failure) (p : Project) : Prop :=
  p.workspace.tools.FailPlainly → (∃ b, e = .build b ∧ b.IsPlaced (· ∈ sources)) ∨
    p.workspace.Escapes output p.units e

/-- The project of some sources before any compiler is called. -/
structure Tries (sources : List Path) (ts : Tools) (runs : List ToolRun) (p : Project) : Prop where
  /-- The units are those of the sources. -/
  sources : p.units.map TranslationUnit.source = sources
  /-- No compiler has been called. -/
  workspace : p.workspace.Tries ts runs

/-- At the start no tool has been called. -/
theorem tries_start {p : Project} (hunits : p.units = sources.map TranslationUnit.ofSource) :
    Tries sources p.workspace.tools p.workspace.runs p := by
  refine ⟨?_, rfl, [], (List.append_nil _).symm, fun _ hrun => absurd hrun List.not_mem_nil⟩
  rw [hunits, List.map_map]
  exact List.map_id sources

theorem Tries.shown {p : Project} (c : Console) (h : Tries sources ts runs p) :
    Tries sources ts runs ⟨{ p.workspace with console := c }, p.units⟩ :=
  ⟨h.sources, h.workspace.shown ⟨rfl, rfl⟩⟩

/-- A pass over the units before any compiler is called. -/
theorem keeps_pass {act : Action Desk α} (hact : ∀ s ∈ sources, Action.Keeps (Desk.Tries s ts runs)
      (Desk.Allows output .transpile (· = some s)) act) :
    Action.Keeps (Tries sources ts runs) (Allows output sources) (eachUnit act) := by
  refine (ensures_eachUnit (fun done rest w => (done ++ rest).map TranslationUnit.source = sources ∧
    w.Tries ts runs) (fun e p => Tries sources ts runs p ∧ Allows output sources e p)
    fun done u rest => .of_each ?_).mono (fun p hp => ⟨hp.sources, hp.workspace⟩)
    (fun _ p hp => ⟨List.append_nil p.units ▸ hp.1, hp.2⟩) fun _ _ => id
  rintro d ⟨rfl, hsources, htries⟩
  have hmem : d.unit.source ∈ sources := by
    rw [← hsources, List.map_append, List.map_cons]
    exact List.mem_append_right _ List.mem_cons_self
  -- The sources of the units stay what they are.
  have hsame : ∀ u : TranslationUnit, u.source = d.unit.source →
      (done ++ u :: rest).map TranslationUnit.source = sources := by
    intro u hu
    rw [← hsources, List.map_append, List.map_append, List.map_cons, List.map_cons, hu]
  refine ((hact _ hmem).from_state ⟨rfl, htries⟩).mono (fun _ => id) ?_ ?_
  · rintro _ d' hd'
    refine ⟨?_, hd'.workspace⟩
    rw [List.append_assoc, List.singleton_append]
    exact hsame d'.unit hd'.source
  · rintro e d' ⟨hd', hallows⟩
    refine ⟨⟨hsame d'.unit hd'.source, hd'.workspace⟩, fun hplain => ?_⟩
    rcases hallows hplain with htold | hescapes
    · exact Or.inl (htold.isPlaced (Or.inl rfl) hmem)
    · refine Or.inr (hescapes.mono fun u hu => ?_)
      rw [List.mem_singleton.mp hu]
      exact List.mem_append_right _ List.mem_cons_self

theorem keeps_prepareShown {s : Path} (hclear : s.IsClear) (hname : s.parts ≠ []) {root : Path}
    {tools : Toolchain} :
    Action.Keeps (Desk.Tries s ts runs) (Desk.Allows output .transpile (· = some s))
      (prepareShown root tools) :=
  (Desk.keeps_prepare hclear hname).bind fun _ => Desk.keeps_unitOf fun _ _ =>
    fun _ hd => hd.shown ⟨rfl, rfl⟩

theorem keeps_finishShown {s : Path} (hclear : s.IsClear) (hname : s.parts ≠ []) {root : Path}
    {others : List Path} (hnames : ∀ s ∈ others, s.parts ≠ []) :
    Action.Keeps (Desk.Tries s ts runs) (Desk.Allows output .transpile (· = some s))
      (finishShown root others) := by
  refine (Desk.keeps_finish hclear hname hnames).bind fun _ => Desk.keeps_unitOf fun u _ =>
    .bind (Action.Ensures.forIn (fun _ => Desk.Tries s ts runs) ?_) fun _ => .of_pure _
  exact fun done i rest _ d hd => hd.shown ⟨rfl, rfl⟩

/-- The first two phases: no compiler is called, and what fails is told or gets out. -/
theorem keeps_writeSources (hclear : ∀ s ∈ sources, s.IsClear ∧ s.parts ≠ []) {root : Path}
    {tools : Toolchain} :
    Action.Keeps (Tries sources ts runs) (Allows output sources) (writeSources root tools) := by
  refine Action.Ensures.bind (q := fun p₀ p => Tries sources ts runs p ∧
    p₀.units.map TranslationUnit.source = sources) (.of_get fun p hp => ⟨hp, hp.sources⟩)
    fun p₀ => .given fun hp₀ => ?_
  refine .bind (ensures_phase (fun p c hp => hp.shown c) (fun _ p c hp => hp.shown c)
    (keeps_pass fun s hs => keeps_prepareShown (hclear s hs).1 (hclear s hs).2)) fun _ => ?_
  refine .bind (ensures_phase (fun p c hp => hp.shown c) (fun _ p c hp => hp.shown c)
    (keeps_pass fun s hs => keeps_finishShown (hclear s hs).1 (hclear s hs).2 ?_)) fun _ =>
    .of_pure fun p hp => hp
  rw [hp₀]
  exact fun s hs => (hclear s hs).2

end Project

namespace Desk

/-- The compiler has been called for the unit `u`, where the workspace was `w`. -/
structure HasCompiled (tools : Toolchain) (u : TranslationUnit) (w : Workspace) (d : Desk) :
    Prop where
  /-- The unit has not changed. -/
  unit : d.unit = u
  /-- Nothing else has been done, but for what is shown and noted. -/
  workspace : ∃ ns c, d.workspace =
    { w.afterCall (compileCall tools u.settings (Artifacts.beside u.source)) ns with console := c }

variable {tools : Toolchain} {u : TranslationUnit} {w : Workspace} {output : Path}

theorem HasCompiled.shown {d : Desk} (h : HasCompiled tools u w d) (ns : List Notice)
    (c : Console) :
    HasCompiled tools u w ⟨{ d.workspace with notices := ns, console := c }, d.unit⟩ := by
  rcases h with ⟨hunit, _, _, hw⟩
  refine ⟨hunit, ns, c, ?_⟩
  rw [hw]
  rfl

theorem isTold_compileError {s : Path} {message output : Text} :
    (compileError s message output).IsTold .compile (· = some s) :=
  ⟨_, rfl, rfl, rfl, _, rfl, by decide⟩

/-- Compiling a unit calls the compiler, and what fails is told or gets out. -/
theorem ensures_compile_called (w : Workspace) (hname : u.source.parts ≠ []) :
    Action.Ensures (· = ⟨w, u⟩) (compile tools) (fun _ => HasCompiled tools u w)
      fun e d => HasCompiled tools u w d ∧ Allows output .compile (· = some u.source) e d := by
  refine (ensures_compile_run w).mono (fun _ => id) ?_ ?_
  · rintro _ _ ⟨_, _, ns, rfl⟩
    exact ⟨rfl, ns, w.console, rfl⟩
  · rintro e _ (⟨he, rfl⟩ | ⟨hfails, ns, rfl⟩)
    · rw [Artifacts.ofSource_eq_ok_iff.mpr ⟨hname, rfl⟩] at he
      cases he
    · refine ⟨⟨rfl, ns, w.console, rfl⟩, ?_⟩
      cases hfails with
      | told _ hown =>
          rcases hown with ⟨_, _, rfl⟩
          exact allows_of_isTold isTold_compileError
      | handed hrun hos hlimit =>
          intro hplain
          refine Or.inr (.tool List.getLast?_concat hrun (hplain _ _ e hrun) ?_ fun _ => hlimit)
          rintro ⟨o, ho⟩
          exact hos o ho

end Desk

namespace Project

/-- Showing what was compiled changes nothing else. -/
theorem ensures_compileShown_called {root : Path} {tools : Toolchain} {u : TranslationUnit}
    (output : Path) (w : Workspace) (hname : u.source.parts ≠ []) :
    Action.Ensures (· = ⟨w, u⟩) (compileShown root tools)
      (fun _ => Desk.HasCompiled tools u w)
      fun e d => Desk.HasCompiled tools u w d ∧
        Desk.Allows output .compile (· = some u.source) e d := by
  -- After the compiler has run, only lines are shown.
  refine .bind (Desk.ensures_compile_called w hname) fun report => ?_
  refine .bind (q := fun _ => Desk.HasCompiled tools u w) (fun d hd => ?_) fun a =>
    .bind (q := fun _ => Desk.HasCompiled tools u w) (fun d hd => hd.shown _ _) fun _ => ?_
  · have hartifacts : Artifacts.ofSource d.unit.source = .ok (Artifacts.beside u.source) := by
      rw [hd.unit]
      exact Artifacts.ofSource_eq_ok_iff.mpr ⟨hname, rfl⟩
    rw [Desk.artifacts_eq_ok_iff.mpr ⟨hartifacts, rfl⟩]
    exact hd
  · by_cases hquiet : report.output.isEmpty = true
    · rw [if_pos hquiet]
      exact .of_pure fun d hd => hd
    · rw [if_neg hquiet]
      exact .bind (q := fun _ => Desk.HasCompiled tools u w) (fun d hd => hd.shown _ _)
        fun _ => .of_pure fun d hd => hd

section Objects

variable {root : Path} {tools : Toolchain} {us : List TranslationUnit}

/-- The third phase, however it ends: what holds of the workspace after each call of the compiler
    for a unit holds in the end, and what fails is told or gets out. -/
theorem ensures_makeObjects_called (output : Path) (inv : Workspace → Prop)
    (hnames : ∀ u ∈ us, u.source.parts ≠ [])
    (hshown : ∀ w ns c, inv w → inv { w with notices := ns, console := c })
    (hcall : ∀ u ∈ us, ∀ w ns, inv w →
      inv (w.afterCall (Desk.compileCall tools u.settings (Artifacts.beside u.source)) ns)) :
    Action.Ensures (fun p => p.units = us ∧ inv p.workspace) (makeObjects root tools)
      (fun _ p => p.units = us ∧ inv p.workspace)
      fun e p => (p.units = us ∧ inv p.workspace) ∧
        Allows output (us.map TranslationUnit.source) e p := by
  have hpass : Action.Ensures (fun p => p.units = us ∧ inv p.workspace)
      (eachUnit (compileShown root tools)) (fun _ p => p.units = us ∧ inv p.workspace)
      fun e p => (p.units = us ∧ inv p.workspace) ∧
        Allows output (us.map TranslationUnit.source) e p := by
    refine (ensures_eachUnit (fun done rest w => done ++ rest = us ∧ inv w)
      (fun e p => (p.units = us ∧ inv p.workspace) ∧
        Allows output (us.map TranslationUnit.source) e p)
      fun done u rest => .of_each ?_).mono (fun p hp => hp)
      (fun _ p hp => ⟨List.append_nil p.units ▸ hp.1, hp.2⟩) fun _ _ => id
    rintro ⟨w, v⟩ ⟨rfl, hus, hinv⟩
    have hmem : v ∈ us := hus ▸ List.mem_append_right done List.mem_cons_self
    -- All that has happened to the workspace is the call and what was shown of it.
    have hcompiled : ∀ {d : Desk}, Desk.HasCompiled tools v w d → inv d.workspace := by
      rintro d ⟨_, ns, c, hd⟩
      rw [hd]
      exact hshown _ ns c (hcall v hmem w ns hinv)
    refine (ensures_compileShown_called output w (hnames v hmem)).mono (fun _ => id) ?_ ?_
    · intro _ d hd
      refine ⟨?_, hcompiled hd⟩
      rw [hd.unit, List.append_assoc, List.singleton_append, hus]
    · rintro e d ⟨hd, hallows⟩
      refine ⟨⟨?_, hcompiled hd⟩, fun hplain => ?_⟩
      · rw [hd.unit, hus]
      · rcases hallows hplain with htold | hescapes
        · exact Or.inl (htold.isPlaced (Or.inr rfl) (List.mem_map_of_mem hmem))
        · refine Or.inr (hescapes.mono fun u hu => ?_)
          rw [List.mem_singleton.mp hu]
          exact List.mem_append_right _ List.mem_cons_self
  refine .followed (.of_get fun p hp => hp) fun p₀ => .bind (ensures_phase
    (fun p c hp => ⟨hp.1, hshown _ _ c hp.2⟩) (fun _ p c hp => ⟨hp.1, hshown _ _ c hp.2⟩) hpass)
    fun _ => .of_pure fun p hp => hp

end Objects

end Project

theorem isTold_linkError {message output : Text} :
    (linkError message output).IsTold .link (· = none) :=
  ⟨_, rfl, rfl, rfl, _, rfl, by decide⟩

/-- Since there were only `runs`, no tool but the linker has been called. -/
def Workspace.HasLinked (ts : Tools) (runs : List ToolRun) (w : Workspace) : Prop :=
  w.tools = ts ∧ ∃ new, w.runs = runs ++ new ∧ ∀ run ∈ new, run.call.role = .link

/-- Linking fails because something is refused or the linker fails, which is told, or because the
    linker cannot be run or the path of the program makes no sense. -/
theorem ensures_linkObjects_called {tools : Toolchain} {objects : List Path} {output : Path}
    (us : List TranslationUnit) (w : Workspace) :
    Action.Ensures (· = w) (linkObjects tools objects output)
      (fun _ => Workspace.HasLinked w.tools w.runs)
      fun e w' => Workspace.HasLinked w.tools w.runs w' ∧
        (w.tools.FailPlainly → e.IsTold .link (· = none) ∨ w'.Escapes output us e) := by
  have hlinked : ∀ f ns, Workspace.HasLinked w.tools w.runs
      (Workspace.afterCall { w with files := f } (linkCall tools objects output) ns) := fun f ns =>
    ⟨rfl, [⟨linkCall tools objects output, f, _⟩], rfl, List.forall_mem_singleton.mpr rfl⟩
  refine (ensures_linkObjects_run w).mono (fun _ => id) ?_ ?_
  · rintro _ _ ⟨f, _, _, ns, rfl⟩
    exact hlinked f ns
  · have hunlinked : ∀ g, Workspace.HasLinked w.tools w.runs { w with files := g } := fun g =>
      ⟨rfl, [], (List.append_nil _).symm, fun _ hrun => absurd hrun List.not_mem_nil⟩
    rintro e w' (⟨g, _, rfl, _, _, rfl⟩ | ⟨g, hg, rfl, hos⟩ | ⟨f, _, hfails, ns, rfl⟩)
    · exact ⟨hunlinked g, fun _ => Or.inl isTold_linkError⟩
    · refine ⟨hunlinked g, fun _ => Or.inr ?_⟩
      -- If the path makes sense, a directory is refused by the file system only, which is told.
      have hclear : ¬ output.parent.IsClear := by
        intro hclear
        rcases (FileAction.ensures_mkdirs_refusal hclear).error trivial hg with ⟨o, rfl⟩
        exact hos o rfl
      have hnull := FileAction.mkdirs_of_not_clear w.files hclear
      rw [hg] at hnull
      cases hnull
      exact .output hclear (Files.mkdirs_eq_error_iff.mpr ⟨w.files, hg⟩)
    · refine ⟨hlinked f ns, fun hplain => ?_⟩
      cases hfails with
      | told _ hown =>
          rcases hown with ⟨_, _, rfl⟩
          exact Or.inl isTold_linkError
      | handed hrun hos hlimit =>
          refine Or.inr (.tool List.getLast?_concat hrun (hplain _ _ e hrun) ?_ fun _ => hlimit)
          rintro ⟨o, ho⟩
          exact hos o ho

namespace Project

/-- The objects of units that have names can be asked for. -/
theorem ensures_objects_of_names (p : Project) (hnames : ∀ u ∈ p.units, u.source.parts ≠ []) :
    Action.Ensures (· = p) objects (fun _ p' => p' = p) fun _ _ => False := by
  refine .bind (q := fun q p' => p' = p ∧ q = p) (.of_get fun p' hp => ⟨hp, hp⟩)
    fun q => .given ?_
  rintro rfl
  refine Action.Ensures.mapM (fun _ _ p' => p' = q) fun done u rest os hl => ?_
  have hmem : u ∈ q.units := hl ▸ List.mem_append_right done List.mem_cons_self
  rw [Artifacts.ofSource_eq_ok_iff.mpr ⟨hnames u hmem, rfl⟩]
  exact fun p' hp => hp

/-- The fourth phase, however it ends: no tool but the linker is called, and what fails is told or
    gets out. -/
theorem ensures_makeProgram_called {tools : Toolchain} {output : Path} (sources : List Path)
    (p : Project) (hnames : ∀ u ∈ p.units, u.source.parts ≠ []) :
    Action.Ensures (· = p) (makeProgram tools output)
      (fun _ p' => p'.workspace.HasLinked p.workspace.tools p.workspace.runs)
      fun e p' => p'.workspace.HasLinked p.workspace.tools p.workspace.runs ∧
        Allows output sources e p' := by
  refine .bind ((ensures_objects_of_names p hnames).mono (fun _ => id) (fun _ _ => id)
    fun _ _ hfalse => hfalse.elim) fun os => ?_
  refine Action.Ensures.mono (ensures_phase (fun q c (hq : q.workspace.tools = p.workspace.tools ∧
      q.workspace.runs = p.workspace.runs) => hq) (fun _ q c hq => hq) (.bind (q := fun _ q =>
      q.workspace.HasLinked p.workspace.tools p.workspace.runs) (ensures_liftM ?_)
      fun report => ?_)) ?_ (fun _ _ => id) fun _ _ => id
  · rintro q ⟨htools, hruns⟩
    refine (ensures_linkObjects_called q.units q.workspace).mono (fun _ => id) ?_ ?_
    · intro _ w' hw
      rw [htools, hruns] at hw
      exact hw
    · rintro e w' ⟨hw, hfails⟩
      rw [htools, hruns] at hw
      refine ⟨hw, fun hplain => ?_⟩
      rw [htools, ← hw.1] at hfails
      refine (hfails hplain).imp ?_ id
      rintro ⟨b, rfl, hkind, hunit, hstage⟩
      exact ⟨b, rfl, hstage, Or.inr ⟨Or.inl hkind, hunit⟩⟩
  · by_cases hquiet : (!report.output.isEmpty) = true
    · rw [if_pos hquiet]
      exact fun q hq => hq
    · rw [if_neg hquiet]
      exact .of_pure fun q hq => hq
  · rintro _ rfl
    exact ⟨rfl, rfl⟩

/-- All phases: what fails is told or gets out. -/
theorem ensures_phasesOf_told {r : BuildRequest} {sources : List Path} {ts : Tools}
    {runs : List ToolRun} (hclear : ∀ s ∈ sources, s.IsClear ∧ s.parts ≠ []) :
    Action.Ensures (Tries sources ts runs) (phasesOf r) (fun _ _ => True)
      fun e p => p.workspace.tools = ts ∧ Allows r.output sources e p := by
  have hnames : ∀ {p : Project}, p.units.map TranslationUnit.source = sources →
      ∀ u ∈ p.units, u.source.parts ≠ [] :=
    fun hp u hu => (hclear u.source (hp ▸ List.mem_map_of_mem hu)).2
  refine .bind (Action.Ensures.mono (keeps_writeSources hclear) (fun _ => id) (fun _ _ => id)
    fun _ _ h => ⟨h.1.workspace.tools, h.2⟩) fun _ => .of_each fun p hp => ?_
  -- The tools stay what they are while units are compiled.
  refine .bind ((ensures_makeObjects_called r.output (fun w => w.tools = ts) (hnames hp.sources)
    (fun w ns c hw => hw) fun u _ w ns hw => hw).mono ?_ (fun _ _ => id) ?_) fun ws => .of_each ?_
  · rintro _ rfl
    exact ⟨rfl, hp.workspace.tools⟩
  · rintro e p' ⟨⟨_, htools⟩, hallows⟩
    rw [hp.sources] at hallows
    exact ⟨htools, hallows⟩
  rintro p₂ ⟨hunits, htools⟩
  refine .bind ((ensures_makeProgram_called sources p₂ ?_).mono (fun _ => id) (fun _ _ => id)
    fun _ _ h => ⟨h.1.1.trans htools, h.2⟩) fun _ => .of_pure fun _ _ => trivial
  rw [hunits]
  exact hnames hp.sources

end Project

/-- The path is that of a source that is discovered below a root. -/
def Files.Discovers (f : Files) (root s : Path) : Prop :=
  ∃ sources, f.sources root = .ok sources ∧ s ∈ sources

theorem Discovery.isPlaced_error {isSource : Path → Prop} (message : Text) :
    ∃ b, Discovery.error message = .build b ∧ b.IsPlaced isSource :=
  ⟨_, rfl, ⟨_, rfl, by decide⟩, Or.inr ⟨Or.inr rfl, rfl⟩⟩

/-- Discovery, however it ends: sources have been found, or there are none, which is told, or a
    failure gets out. -/
theorem ensures_discover (isSource : Path → Prop) (root : Path) (w : Workspace) :
    Action.Ensures (· = w) (discover root)
      (fun units w' => ∃ sources ns, w.files.sources root = .ok sources ∧
        units = sources.map TranslationUnit.ofSource ∧ w' = { w with notices := ns })
      fun e w' => w' = w ∧ ((∃ b, e = .build b ∧ b.IsPlaced isSource) ∨
        w.files.sources root = .error e ∧ e.IsForeign) := by
  refine .bind (q := fun sources w' => w' = w ∧ w.files.sources root = .ok sources)
    (Workspace.ensures_liftM ?_) fun sources => .given fun hsources => ?_
  · rintro _ rfl
    refine (FileAction.ensures_query _).mono (fun _ => id) ?_ ?_
    · rintro sources _ ⟨hsources, rfl⟩
      exact ⟨rfl, hsources⟩
    · rintro e _ ⟨he, rfl⟩
      rcases Files.sources_failsWith e he with hforeign | ⟨message, rfl⟩
      · exact ⟨rfl, Or.inr ⟨he, hforeign⟩⟩
      · exact ⟨rfl, Or.inl (Discovery.isPlaced_error message)⟩
  · -- A directory without sources is an error of the discovery itself.
    by_cases hempty : sources.isEmpty = true
    · rw [if_pos hempty]
      exact .of_throw_bind fun w' hw => ⟨hw, Or.inl (Discovery.isPlaced_error _)⟩
    · rw [if_neg hempty]
      rintro _ rfl
      exact ⟨sources, _, hsources, rfl, rfl⟩

/-- How a failure gets out of a build that starts in the workspace `w` and leaves `w'`: discovery
    runs into it, or one of the phases lets it out. -/
inductive Workspace.LetsOut (r : BuildRequest) (w : Workspace) (e : Failure) (w' : Workspace) :
    Prop where
  /-- Discovery fails, and not because there is nothing to build. -/
  | discovery (h : w.files.sources r.root = .error e) (hforeign : e.IsForeign)
  /-- A phase lets the failure out, with the units as they are then. -/
  | phases {sources : List Path} {c : Console} {ns : List Notice} {p : Project}
      (hsources : w.files.sources r.root = .ok sources)
      (hphases : Project.phasesOf r ⟨{ w with console := c, notices := ns },
        sources.map TranslationUnit.ofSource⟩ = .error e p)
      (hw : w' = p.workspace) (h : p.workspace.Escapes r.output p.units e)

/-- A build that fails is always reported. -/
theorem Workspace.ensures_reportFailure (start : Rat) (units : Option (List TranslationUnit))
    (b : BuildError) (pre : Workspace → Prop) :
    Action.Ensures pre (reportFailure start units b) (fun report _ => report.TellsOf b units)
      fun _ _ => False :=
  fun _ _ => ⟨rfl, rfl, rfl⟩

/-- Units that were discovered are taken through the phases, and what fails is reported or gets
    out. -/
theorem Workspace.ensures_buildUnits {r : BuildRequest} {w : Workspace} {sources : List Path}
    (hplain : w.tools.FailPlainly) (hsources : w.files.sources r.root = .ok sources) (start : Rat)
    (c : Console) (ns : List Notice) :
    Action.Ensures (· = { w with console := c, notices := ns })
      (buildUnits start r (sources.map TranslationUnit.ofSource))
      (fun report _ => report.isSuccess = true ∨
        ∃ b us, report.TellsOf b us ∧ b.IsPlaced (w.files.Discovers r.root))
      fun e w' => w.LetsOut r e w' := by
  rintro _ rfl
  unfold buildUnits
  have hstart := Project.tries_start (p := ⟨{ w with console := c, notices := ns },
    sources.map TranslationUnit.ofSource⟩) rfl
  rcases hphases : Project.phasesOf r ⟨{ w with console := c, notices := ns },
    sources.map TranslationUnit.ofSource⟩ with ⟨warnings, p⟩ | ⟨e, p⟩
  · exact Or.inl (decide_eq_true rfl)
  rcases (Project.ensures_phasesOf_told (r := r) (Files.isClear_of_sources hsources)).error hstart
    hphases with ⟨htools, hallows⟩
  rw [← htools] at hplain
  rcases hallows hplain with ⟨b, rfl, hplaced⟩ | hescapes
  · -- An error that is told is reported.
    have htells := (ensures_reportFailure start (some p.units) b (· = p.workspace)) _ rfl
    have hdiscovers : ∀ s ∈ sources, w.files.Discovers r.root s :=
      fun s hs => ⟨sources, hsources, hs⟩
    exact Or.inr ⟨b, some p.units, htells, hplaced.mono hdiscovers⟩
  · cases e with
    | build b => exact absurd rfl (hescapes.isForeign b)
    | _ => exact .phases hsources hphases rfl hescapes

/-- A build, however it ends: units have been discovered and are taken through the phases, or there
    are none, which is reported, or discovery lets a failure out. -/
theorem ensures_build (r : BuildRequest) (verbose : Bool) {w : Workspace}
    {post : BuildReport → Workspace → Prop} {fail : Failure → Workspace → Prop}
    (hunits : ∀ sources start c ns, w.files.sources r.root = .ok sources →
      Action.Ensures (· = { w with console := c, notices := ns })
        (Workspace.buildUnits start r (sources.map TranslationUnit.ofSource)) post fail)
    (hnone : ∀ b start c ns, b.IsPlaced (w.files.Discovers r.root) →
      Action.Ensures (· = { w with console := c, notices := ns })
        (Workspace.reportFailure start none b) post fail)
    (hfails : ∀ e c, w.files.sources r.root = .error e → e.IsForeign →
      fail e { w with console := c }) :
    Action.Ensures (· = w) (build r verbose) post fail := by
  -- What is shown and noted before the phases does not matter.
  refine .bind (q := fun _ w' => w' = w) (.of_get fun _ hw => hw) fun w₀ => ?_
  refine .bind (q := fun _ w' => ∃ c, w' = { w with console := c }) ?_ fun _ =>
    .bind (q := fun _ w' => ∃ c, w' = { w with console := c }) ?_ fun _ => ?_
  · rintro _ rfl
    exact ⟨_, rfl⟩
  · rintro _ ⟨c, rfl⟩
    exact ⟨_, rfl⟩
  refine .bind (q := fun discovered w' => ∃ c ns, w' = { w with console := c, notices := ns } ∧
      ((∃ sources, w.files.sources r.root = .ok sources ∧
        discovered = .ok (sources.map TranslationUnit.ofSource)) ∨
      ∃ b, discovered = .error b ∧ b.IsPlaced (w.files.Discovers r.root)))
    (.of_each ?_) fun discovered => .of_each ?_
  · rintro _ ⟨c, rfl⟩
    refine .onBuildError (.bind (ensures_discover (w.files.Discovers r.root) r.root
      { w with console := c }) fun units => .of_pure ?_) (fun b => .of_pure ?_) ?_
    · rintro _ ⟨sources, ns, hsources, rfl, rfl⟩
      exact ⟨c, ns, rfl, Or.inl ⟨sources, hsources, rfl⟩⟩
    · rintro _ ⟨rfl, ⟨_, hb, hplaced⟩ | ⟨_, hforeign⟩⟩
      · cases hb
        exact ⟨c, w.notices, rfl, Or.inr ⟨b, rfl, hplaced⟩⟩
      · exact absurd rfl (hforeign b)
    · rintro e _ hnot ⟨rfl, ⟨b, hb, _⟩ | ⟨he, hforeign⟩⟩
      · exact absurd hb (hnot b)
      · exact hfails e c he hforeign
  rintro _ ⟨c, ns, rfl, ⟨sources, hsources, rfl⟩ | ⟨b, rfl, hplaced⟩⟩
  · refine .bind (q := fun _ w' => ∃ c', w' = { w with console := c', notices := ns }) ?_ fun _ =>
      .of_each ?_
    · rintro _ rfl
      exact ⟨_, rfl⟩
    · rintro _ ⟨c', rfl⟩
      exact hunits sources _ c' ns hsources
  · exact hnone b _ c ns hplaced

/-- A build reports every failure, with the stage and the unit that it arose in, unless it is one
    of those that get out. -/
theorem failures_reported {r : BuildRequest} {verbose : Bool} {w : Workspace}
    (hplain : w.tools.FailPlainly) :
    (∃ report w', build r verbose w = .ok report w' ∧
      (report.isSuccess = true ∨
        ∃ b us, report.TellsOf b us ∧ b.IsPlaced (w.files.Discovers r.root))) ∨
    ∃ e w', build r verbose w = .error e w' ∧ w.LetsOut r e w' := by
  have hends : Action.Ensures (· = w) (build r verbose)
      (fun report _ => report.isSuccess = true ∨
        ∃ b us, report.TellsOf b us ∧ b.IsPlaced (w.files.Discovers r.root))
      fun e w' => w.LetsOut r e w' := by
    refine ensures_build r verbose ?_ ?_ ?_
    · intro sources start c ns hsources
      exact Workspace.ensures_buildUnits hplain hsources start c ns
    · intro b start c ns hplaced
      exact (Workspace.ensures_reportFailure start none b _).mono (fun _ => id)
        (fun report _ htells => Or.inr ⟨b, none, htells, hplaced⟩) fun _ _ => False.elim
    · intro e c he hforeign
      exact .discovery he hforeign
  rcases hbuild : build r verbose w with ⟨report, w'⟩ | ⟨e, w'⟩
  · exact Or.inl ⟨report, w', rfl, hends.ok rfl hbuild⟩
  · exact Or.inr ⟨e, w', rfl, hends.error rfl hbuild⟩

/-- A header that cannot be written is reported with the unit that it is of. -/
theorem failures_reported_blocked : ∃ report w' b us,
    build importingRequest false blockedWorkspace = .ok report w' ∧
    report.exitCode = .transpileFailure ∧ report.TellsOf b us ∧
    b.IsPlaced (blockedWorkspace.files.Discovers importingRequest.root) := by
  rcases exists_of_exitCodeOf exitCodeOf_blocked with ⟨report, hbuild, hcode⟩
  rcases failures_reported (r := importingRequest) (w := blockedWorkspace)
    targetTools_failPlainly with ⟨report', w', hbuild', hends⟩ | ⟨e, w', hfails, _⟩
  · rw [hbuild] at hbuild'
    cases hbuild'
    rcases hends with hsuccess | ⟨b, us, htells, hplaced⟩
    · rw [BuildReport.isSuccess, hcode] at hsuccess
      cases hsuccess
    · exact ⟨report, _, b, us, hbuild, hcode, htells, hplaced⟩
  · rw [hbuild] at hfails
    cases hfails

/-- The failure that got out of a build. -/
def failureOf : EStateM.Result Failure Workspace BuildReport → Option Failure
  | .ok _ _ => none
  | .error e _ => some e

theorem eq_error_of_failureOf {result : EStateM.Result Failure Workspace BuildReport} {e : Failure}
    (h : failureOf result = some e) : result = .error e (workspaceAfter result) := by
  cases result with
  | ok report w => cases h
  | error e' w => rw [Option.some.inj h, workspaceAfter]

/-- A unit that imports a directory whose name has a null in it. -/
def nullWorkspace : Workspace :=
  { importingWorkspace with
    files := ⟨{ entries := [(["a.cz"], .file (Encoding.encode "#import \"\x00\""))] }, []⟩ }

/-- A unit with a directory in place of its C text. -/
def coveredWorkspace : Workspace :=
  { importingWorkspace with
    files := ⟨{ entries := [(["a.cz"], .file []), (["a.cz.c"], .dir)] }, []⟩ }

/-- A build with an external transpiler. -/
def externalRequest : BuildRequest :=
  { importingRequest with
    toolchain := { importingRequest.toolchain with transpiler := some ["czc"] } }

/-- Failures get out of a build: where a path in a unit has a null in it, and where the external
    transpiler fails and there is a directory in place of the C text. -/
theorem failures_let_out :
    (∃ w', build importingRequest false nullWorkspace = .error .embeddedNull w') ∧
    (∃ o w', build externalRequest false coveredWorkspace = .error (.os o) w') ∧
    nullWorkspace.tools.FailPlainly ∧ coveredWorkspace.tools.FailPlainly := by
  have hnull : failureOf (build importingRequest false nullWorkspace) = some .embeddedNull := by
    set_option maxRecDepth 20000 in cbv
  have hcovered : failureOf (build externalRequest false coveredWorkspace) =
      some (Files.refuse .isDirectory "/a.cz.c") := by
    set_option maxRecDepth 20000 in cbv
  exact ⟨⟨_, eq_error_of_failureOf hnull⟩, ⟨_, _, eq_error_of_failureOf hcovered⟩,
    targetTools_failPlainly, targetTools_failPlainly⟩

end DialectBuild
