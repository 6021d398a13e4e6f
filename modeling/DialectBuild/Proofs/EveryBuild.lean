import DialectBuild.Proofs.EveryStage

/-!
# Builds, However They End

The rest of a build in success and in failure: compiling, linking, the phases in a row, and what
is reported in the end. A compiler or a linker is called at most once per step, and whatever comes
of the call, it has been recorded. A call that went wrong ends the step in the words of the step,
unless the tool could not be run for a reason that no step knows of. A build that returns has either
found nothing to build, or its phases were passed in order up to the first that failed.

## Main definitions

* `Failure.IsOf`: A failure that is of one kind if it is a build error.
* `Workspace.Attempted`: A tool was called, and it is known whether that went well.
* `ToolRun.Fails`: How a step fails that has called a tool.
* `Project.Ends`: The phase at which a build ends, as an exit code.

## Theorems

* `Desk.ensures_compile_run`, `ensures_linkObjects_run`: All that is known of calling the compiler
  and the linker.
* `Desk.ensures_compile`, `ensures_linkObjects`: What of that a build goes by.
* `Project.ends_of_error`: Where the phases fail.
* `build_cases`: What a build can have done that returns.
-/

namespace DialectBuild

open Files

/-- A failure that is of one kind if it is a build error at all. -/
def Failure.IsOf (k : ErrorKind) (e : Failure) : Prop :=
  ∀ b, e = .build b → b.kind = k

theorem Failure.IsForeign.isOf {e : Failure} (h : e.IsForeign) (k : ErrorKind) : e.IsOf k :=
  fun b hb => absurd hb (h b)

theorem Failure.Tells.isOf {named : Option Path → Prop} {e : Failure} (h : e.Tells named) :
    e.IsOf .transpile :=
  fun b hb => (h b hb).1

/-- A tool was called in the workspace `w`, and `ok` says whether that went well. -/
def Workspace.Attempted (call : ToolCall) (w : Workspace) (ok : Bool) (w' : Workspace) : Prop :=
  ∃ run, Ran call w run w' ∧ run.isOk = ok

theorem Workspace.Attempted.shown {call : ToolCall} {w w₁ w₂ : Workspace} {ok : Bool}
    (h : Attempted call w ok w₁) (htools : w₂.tools = w₁.tools) (hruns : w₂.runs = w₁.runs)
    (hfiles : w₂.files = w₁.files) : Attempted call w ok w₂ := by
  rcases h with ⟨run, hran, hok⟩
  exact ⟨run, ⟨hran.call_eq, htools.trans hran.tools, hruns.trans hran.runs_eq,
    hfiles.trans hran.files⟩, hok⟩

/-- Workspaces that differ in what is shown and noted at most. -/
structure Workspace.Agrees (w w' : Workspace) : Prop where
  /-- The files are the same. -/
  files : w'.files = w.files
  /-- The tools are the same. -/
  tools : w'.tools = w.tools
  /-- The runs are the same. -/
  runs : w'.runs = w.runs

/-- What is shown and noted does not matter to a tool. -/
theorem Workspace.Agrees.attempted {call : ToolCall} {w w₁ w₂ : Workspace} {ok : Bool} {f : Files}
    (h : w.Agrees w₁) (hcall : Attempted call { w₁ with files := f } ok w₂) :
    Attempted call { w with files := f } ok w₂ := by
  rcases hcall with ⟨run, ⟨hcall, htools, hruns, hfiles⟩, hok⟩
  dsimp only at htools hruns hfiles
  rw [h.tools] at htools hfiles
  rw [h.runs] at hruns
  exact ⟨run, ⟨hcall, htools, hruns, hfiles⟩, hok⟩

/-- How a step fails that has made a run: in its own words, or with the failure of the tool. -/
inductive ToolRun.Fails (own : Failure → Prop) (run : ToolRun) (e : Failure) : Prop where
  /-- The step tells that the run went wrong. -/
  | told (hrun : run.isOk = false) (h : own e)
  /-- The tool could not be run, but it was neither refused nor stopped. -/
  | handed (hrun : run.outcome = .error e) (hos : ∀ o, e ≠ .os o)
      (hlimit : ∀ command seconds, e ≠ .timeout command seconds)

theorem ToolRun.isOk_of_error {run : ToolRun} {e : Failure} (h : run.outcome = .error e) :
    run.isOk = false := by
  rw [ToolRun.isOk, h]

theorem ToolRun.Fails.isOk {own : Failure → Prop} {run : ToolRun} {e : Failure}
    (h : run.Fails own e) : run.isOk = false := by
  cases h with
  | told hrun _ => exact hrun
  | handed hrun _ _ => exact isOk_of_error hrun

/-- A step that tells of a tool which is refused or stopped, and hands on any other failure. -/
theorem Action.Ensures.called {σ : Type} {pre after : σ → Prop} {act : Action σ ToolReport}
    {handle : Failure → Action σ ToolReport} {run : ToolRun} {own : Failure → Prop}
    (hact : Ensures pre act (fun report s => run.isOk = report.isOk ∧ after s)
      fun e s => run.outcome = .error e ∧ after s)
    (hhandle : ∀ e, (∃ e', own e' ∧ handle e = throw e') ∨
      ((∀ o, e ≠ .os o) ∧ (∀ command seconds, e ≠ .timeout command seconds) ∧ handle e = throw e)) :
    Ensures pre (MonadExcept.tryCatch act handle)
      (fun report s => run.isOk = report.isOk ∧ after s) fun e s => run.Fails own e ∧ after s := by
  refine hact.tryCatch fun e => ?_
  rcases hhandle e with ⟨e', hown, heq⟩ | ⟨hos, hlimit, heq⟩
  · rw [heq]
    exact .of_throw fun s hs => ⟨.told (ToolRun.isOk_of_error hs.1) hown, hs.2⟩
  · rw [heq]
    exact .of_throw fun s hs => ⟨.handed hs.1 hos hlimit, hs.2⟩

namespace Workspace

variable {call : ToolCall} {w : Workspace} {ns : List Notice}

/-- The run that is recorded when a tool is called. -/
def runOf (w : Workspace) (call : ToolCall) : ToolRun :=
  ⟨call, w.files, (w.tools.run call w.files).1⟩

theorem attempted_afterCall {ok : Bool} (h : (w.runOf call).isOk = ok) :
    Attempted call w ok (w.afterCall call ns) :=
  ⟨w.runOf call, ⟨rfl, rfl, rfl, rfl⟩, h⟩

theorem ensures_callTool_runOf (call : ToolCall) (w : Workspace) :
    Action.Ensures (· = w) (callTool call)
      (fun report w' => (w.runOf call).isOk = report.isOk ∧ ∃ ns, w' = w.afterCall call ns)
      fun e w' => (w.runOf call).outcome = .error e ∧ ∃ ns, w' = w.afterCall call ns := by
  refine (ensures_callTool_record w).mono (fun _ => id) ?_ ?_
  · rintro report w' ⟨ns, toolExit, hw, hrun, hok⟩
    refine ⟨?_, ns, hw⟩
    rw [runOf, ToolRun.isOk, hrun, hok]
  · rintro e w' ⟨ns, hw, hrun⟩
    exact ⟨hrun, ns, hw⟩

end Workspace

namespace Desk

variable {tools : Toolchain} {u : TranslationUnit}

/-- Compiling a unit calls the compiler once, unless the unit has no artifacts. -/
theorem ensures_compile_run (w : Workspace) :
    Action.Ensures (· = ⟨w, u⟩) (compile tools)
      (fun _ d => Artifacts.ofSource u.source = .ok (Artifacts.beside u.source) ∧
        (w.runOf (compileCall tools u.settings (Artifacts.beside u.source))).isOk = true ∧
        ∃ ns, d = ⟨w.afterCall (compileCall tools u.settings (Artifacts.beside u.source)) ns, u⟩)
      fun e d => (Artifacts.ofSource u.source = .error e ∧ d = ⟨w, u⟩) ∨
        (w.runOf (compileCall tools u.settings (Artifacts.beside u.source))).Fails
          (fun e => ∃ message output, e = compileError u.source message output) e ∧
        ∃ ns, d =
          ⟨w.afterCall (compileCall tools u.settings (Artifacts.beside u.source)) ns, u⟩ := by
  refine .bind (q := fun v d => d = ⟨w, u⟩ ∧ v = u) ?_ fun v => .given ?_
  · rintro _ rfl
    exact ⟨rfl, rfl⟩
  rintro rfl
  refine .bind (q := fun a d => d = ⟨w, v⟩ ∧ a = Artifacts.beside v.source ∧
    Artifacts.ofSource v.source = .ok a) ?_ fun a => .given ?_
  · refine .bind (q := fun u' d => d = ⟨w, v⟩ ∧ u' = v) ?_ fun u' => .given ?_
    · rintro _ rfl
      exact ⟨rfl, rfl⟩
    rintro rfl
    exact .of_except (fun a ha d hd => ⟨hd, Artifacts.eq_beside ha, ha⟩)
      fun e he d hd => Or.inl ⟨he, hd⟩
  rintro ⟨rfl, hartifacts⟩
  have hcall : Action.Ensures (· = ⟨w, v⟩)
      (liftM (Workspace.callTool (compileCall tools v.settings (Artifacts.beside v.source))) :
        Action Desk ToolReport)
      (fun report d => (w.runOf (compileCall tools v.settings (Artifacts.beside v.source))).isOk =
        report.isOk ∧ ∃ ns, d =
          ⟨w.afterCall (compileCall tools v.settings (Artifacts.beside v.source)) ns, v⟩)
      fun e d => (w.runOf (compileCall tools v.settings (Artifacts.beside v.source))).outcome =
        .error e ∧ ∃ ns, d =
          ⟨w.afterCall (compileCall tools v.settings (Artifacts.beside v.source)) ns, v⟩ := by
    refine ensures_liftM ?_
    rintro _ rfl
    refine (Workspace.ensures_callTool_runOf _ w).mono (fun _ => id) ?_ ?_
    · rintro report _ ⟨hok, ns, rfl⟩
      exact ⟨hok, ns, rfl⟩
    · rintro e _ ⟨hrun, ns, rfl⟩
      exact ⟨hrun, ns, rfl⟩
  refine .bind ((hcall.called fun e => ?_).mono (fun _ => id) (fun _ _ => id)
    fun e d hd => Or.inr hd) fun report => .of_each ?_
  · cases e with
    | timeout command seconds => exact Or.inl ⟨_, ⟨_, _, rfl⟩, rfl⟩
    | os o => exact Or.inl ⟨_, ⟨_, _, rfl⟩, rfl⟩
    | _ => exact Or.inr ⟨fun _ h => (by cases h), fun _ _ h => (by cases h), rfl⟩
  rintro _ ⟨hok, ns, rfl⟩
  by_cases hfailed : (!report.isOk) = true
  · rw [if_pos hfailed]
    refine .of_throw_bind ?_
    rintro _ rfl
    rw [Bool.not_eq_true'] at hfailed
    exact Or.inr ⟨.told (hok.trans hfailed) ⟨_, _, rfl⟩, ns, rfl⟩
  · -- All that is left is to note it.
    rw [if_neg hfailed]
    rw [Bool.not_eq_true, Bool.not_eq_false'] at hfailed
    rintro _ rfl
    exact ⟨hartifacts, hok.trans hfailed, _, rfl⟩

/-- Compiling a unit calls the compiler once at most. -/
theorem ensures_compile (w : Workspace) (hplain : w.tools.FailPlainly) :
    Action.Ensures (fun d => d.unit = u ∧ d.workspace = w) (compile tools)
      (fun _ d => (d.unit = u ∧ Workspace.Attempted
        (compileCall tools u.settings (Artifacts.beside u.source)) w true d.workspace) ∧
        Artifacts.ofSource u.source = .ok (Artifacts.beside u.source))
      fun e d => e.IsOf .compile ∧ d.unit = u ∧ (d.workspace = w ∨ Workspace.Attempted
        (compileCall tools u.settings (Artifacts.beside u.source)) w false d.workspace) := by
  refine (ensures_compile_run (u := u) w).mono ?_ ?_ ?_
  · rintro d ⟨rfl, rfl⟩
    rfl
  · rintro _ _ ⟨hartifacts, hok, ns, rfl⟩
    exact ⟨⟨rfl, Workspace.attempted_afterCall hok⟩, hartifacts⟩
  · -- Without a name for the artifacts no tool runs; otherwise one ran and failed.
    rintro e _ (⟨he, rfl⟩ | ⟨hfails, ns, rfl⟩)
    · exact ⟨(Artifacts.ofSource_foreign e he).isOf _, rfl, Or.inl rfl⟩
    · refine ⟨?_, rfl, Or.inr (Workspace.attempted_afterCall hfails.isOk)⟩
      cases hfails with
      | told _ hown =>
          rcases hown with ⟨_, _, rfl⟩
          rintro _ ⟨rfl⟩
          rfl
      | handed hrun _ _ => exact Failure.IsForeign.isOf (hplain _ _ e hrun) _

end Desk

/-- Showing what was compiled changes nothing else. -/
theorem Project.ensures_compileShown {root : Path} {tools : Toolchain} {u : TranslationUnit}
    (w : Workspace) (hplain : w.tools.FailPlainly) :
    Action.Ensures (fun d => d.unit = u ∧ d.workspace = w) (compileShown root tools)
      (fun _ d => d.unit = u ∧ Workspace.Attempted
        (Desk.compileCall tools u.settings (Artifacts.beside u.source)) w true d.workspace)
      fun e d => e.IsOf .compile ∧ d.unit = u ∧ (d.workspace = w ∨ Workspace.Attempted
        (Desk.compileCall tools u.settings (Artifacts.beside u.source)) w false d.workspace) := by
  have hsay : ∀ f : Console → Console, Action.Ensures
      (fun d => d.unit = u ∧ Workspace.Attempted
        (Desk.compileCall tools u.settings (Artifacts.beside u.source)) w true d.workspace)
      (liftM (Workspace.say f) : Action Desk Unit)
      (fun _ d => d.unit = u ∧ Workspace.Attempted
        (Desk.compileCall tools u.settings (Artifacts.beside u.source)) w true d.workspace)
      fun e d => e.IsOf .compile ∧ d.unit = u ∧ (d.workspace = w ∨ Workspace.Attempted
        (Desk.compileCall tools u.settings (Artifacts.beside u.source)) w false d.workspace) :=
    fun f d hd => ⟨hd.1, hd.2.shown rfl rfl rfl⟩
  refine .bind (Desk.ensures_compile w hplain) fun report => .given fun hartifacts => ?_
  refine .followed ?_ fun a => .bind (hsay _) fun _ => ?_
  · -- The artifacts were found before.
    intro d hd
    have hfound : Desk.artifacts d = .ok (Artifacts.beside u.source) d :=
      Desk.artifacts_eq_ok_iff.mpr ⟨hd.1 ▸ hartifacts, rfl⟩
    rw [hfound]
    exact hd
  · by_cases hquiet : report.output.isEmpty = true
    · rw [if_pos hquiet]
      exact .of_pure fun d hd => hd
    · rw [if_neg hquiet]
      exact .bind (hsay _) fun _ => .of_pure fun d hd => hd

/-- Linking calls the linker once, unless there is nothing to link or the directory of the program
    cannot be made. -/
theorem ensures_linkObjects_run {tools : Toolchain} {objects : List Path} {output : Path}
    (w : Workspace) :
    Action.Ensures (· = w) (linkObjects tools objects output)
      (fun _ w' => ∃ f, w.files.mkdirs output.parent = .ok f ∧
        (Workspace.runOf { w with files := f } (linkCall tools objects output)).isOk = true ∧
        ∃ ns, w' = Workspace.afterCall { w with files := f } (linkCall tools objects output) ns)
      fun e w' => (∃ g, w.files.FallsShort output.parent g ∧ w' = { w with files := g } ∧
          ∃ message output, e = linkError message output) ∨
        (∃ g, FileAction.mkdirs output.parent w.files = .error e g ∧ w' = { w with files := g } ∧
          ∀ o, e ≠ .os o) ∨
        ∃ f, w.files.mkdirs output.parent = .ok f ∧
          (Workspace.runOf { w with files := f } (linkCall tools objects output)).Fails
            (fun e => ∃ message output, e = linkError message output) e ∧
          ∃ ns, w' =
            Workspace.afterCall { w with files := f } (linkCall tools objects output) ns := by
  unfold linkObjects
  by_cases hempty : objects.isEmpty = true
  · rw [if_pos hempty]
    exact .of_throw_bind fun w' hw => Or.inl ⟨w.files, Or.inl rfl, hw, _, _, rfl⟩
  rw [if_neg hempty]
  have hmkdirs : Action.Ensures (· = w)
      (liftM (FileAction.mkdirs output.parent) : Action Workspace Unit)
      (fun _ w' => ∃ f, w' = { w with files := f } ∧ w.files.mkdirs output.parent = .ok f)
      fun e w' => ∃ g, w' = { w with files := g } ∧
        FileAction.mkdirs output.parent w.files = .error e g := by
    refine Workspace.ensures_liftM ?_
    rintro _ rfl
    refine .intro ?_ ?_
    · rintro _ _ f rfl hf
      exact ⟨f, rfl, Files.mkdirs_eq_ok_iff.mpr hf⟩
    · rintro _ e g rfl hg
      exact ⟨g, rfl, hg⟩
  refine .bind (hmkdirs.onOsError (fun o => .of_throw ?_) ?_) fun _ => .of_each ?_
  · rintro _ ⟨g, rfl, hg⟩
    exact Or.inl ⟨g, Or.inr ⟨_, hg⟩, rfl, _, _, rfl⟩
  · rintro e _ hnot ⟨g, rfl, hg⟩
    exact Or.inr (Or.inl ⟨g, hg, rfl, hnot⟩)
  -- The directory is there, and the linker is called once.
  rintro _ ⟨f, rfl, hf⟩
  refine .bind (((Workspace.ensures_callTool_runOf (linkCall tools objects output)
    { w with files := f }).called fun e => ?_).mono (fun _ => id) (fun _ _ => id)
    fun e w' hw => Or.inr (Or.inr ⟨f, hf, hw⟩)) fun report => .of_each fun w' hw => ?_
  · cases e with
    | timeout command seconds => exact Or.inl ⟨_, ⟨_, _, rfl⟩, rfl⟩
    | os o => exact Or.inl ⟨_, ⟨_, _, rfl⟩, rfl⟩
    | _ => exact Or.inr ⟨fun _ h => (by cases h), fun _ _ h => (by cases h), rfl⟩
  rcases hw with ⟨hok, ns, rfl⟩
  by_cases hfailed : (!report.isOk) = true
  · rw [if_pos hfailed]
    refine .of_throw_bind ?_
    rintro _ rfl
    rw [Bool.not_eq_true'] at hfailed
    exact Or.inr (Or.inr ⟨f, hf, .told (hok.trans hfailed) ⟨_, _, rfl⟩, ns, rfl⟩)
  · rw [if_neg hfailed]
    rw [Bool.not_eq_true, Bool.not_eq_false'] at hfailed
    rintro _ rfl
    exact ⟨f, hf, hok.trans hfailed, _, rfl⟩

/-- Linking calls the linker once at most, after the directory of the program was made. -/
theorem ensures_linkObjects {tools : Toolchain} {objects : List Path} {output : Path}
    (w : Workspace) (hplain : w.tools.FailPlainly) :
    Action.Ensures (· = w) (linkObjects tools objects output)
      (fun _ w' => ∃ f, w.files.mkdirs output.parent = .ok f ∧
        Workspace.Attempted (linkCall tools objects output) { w with files := f } true w')
      fun e w' => e.IsOf .link ∧
        ((∃ g, w.files.FallsShort output.parent g ∧ w' = { w with files := g }) ∨
          ∃ f, w.files.mkdirs output.parent = .ok f ∧ Workspace.Attempted
            (linkCall tools objects output) { w with files := f } false w') := by
  have hown : ∀ {message output : Text}, (linkError message output).IsOf .link := by
    rintro _ _ _ ⟨rfl⟩
    rfl
  refine (ensures_linkObjects_run w).mono (fun _ => id) ?_ ?_
  · rintro _ _ ⟨f, hf, hok, ns, rfl⟩
    exact ⟨f, hf, Workspace.attempted_afterCall hok⟩
  · rintro e w' (⟨g, hg, rfl, _, _, rfl⟩ | ⟨g, hg, rfl, _⟩ | ⟨f, hf, hfails, ns, rfl⟩)
    · exact ⟨hown, Or.inl ⟨g, hg, rfl⟩⟩
    · have hforeign := FileAction.ensures_mkdirs_foreign.error trivial hg
      exact ⟨Failure.IsForeign.isOf hforeign _, Or.inl ⟨g, Or.inr ⟨e, hg⟩, rfl⟩⟩
    · refine ⟨?_, Or.inr ⟨f, hf, Workspace.attempted_afterCall hfails.isOk⟩⟩
      cases hfails with
      | told _ h =>
          rcases h with ⟨_, _, rfl⟩
          exact hown
      | handed hrun _ _ => exact Failure.IsForeign.isOf (hplain _ _ e hrun) _

namespace Project

/-- Asking for the objects of the units changes nothing. -/
theorem ensures_objects (p : Project) : Action.Ensures (· = p) objects
    (fun os p' => p' = p ∧ os = p.units.map fun u => (Artifacts.beside u.source).object)
    fun e p' => e.IsForeign ∧ p' = p := by
  refine .bind (q := fun q p' => p' = p ∧ q = p) (.of_get fun p' hp => ⟨hp, hp⟩)
    fun q => .given ?_
  rintro rfl
  refine (Action.Ensures.mapM (fun done os p' => p' = q ∧
    os = done.map fun u => (Artifacts.beside u.source).object) ?_).mono
    (fun p' hp => ⟨hp, rfl⟩) (fun _ _ => id) fun _ _ => id
  intro done u rest os _
  refine .bind (q := fun a p' => (p' = q ∧
      os = done.map fun u => (Artifacts.beside u.source).object) ∧ a = Artifacts.beside u.source)
    (.of_except (fun a ha p' hp => ⟨hp, Artifacts.eq_beside ha⟩) fun e he p' hp => ?_)
    fun a => .given ?_
  · exact ⟨Artifacts.ofSource_foreign e he, hp.1⟩
  · rintro rfl
    refine .of_pure fun p' hp => ⟨hp.1, ?_⟩
    rw [hp.2, List.map_append, List.map_singleton]

/-- Making the program is linking the objects of the units. -/
theorem ensures_makeProgram {tools : Toolchain} {output : Path} (us : List TranslationUnit)
    (w : Workspace) (hplain : w.tools.FailPlainly) :
    Action.Ensures (fun p => p.units = us ∧ w.Agrees p.workspace) (makeProgram tools output)
      (fun _ p => p.units = us ∧ ∃ f, w.files.mkdirs output.parent = .ok f ∧
        Workspace.Attempted (linkCall tools
          (us.map fun u => (Artifacts.beside u.source).object) output) { w with files := f } true
          p.workspace)
      fun e p => e.IsOf .link ∧ p.units = us ∧
        ((∃ g, w.files.FallsShort output.parent g ∧
            Workspace.Agrees { w with files := g } p.workspace) ∨
          ∃ f, w.files.mkdirs output.parent = .ok f ∧ Workspace.Attempted (linkCall tools
            (us.map fun u => (Artifacts.beside u.source).object) output) { w with files := f } false
            p.workspace) := by
  refine .bind (q := fun os p => (p.units = us ∧ w.Agrees p.workspace) ∧
    os = us.map fun u => (Artifacts.beside u.source).object) (.of_each fun p hp => ?_)
    fun os => .given ?_
  · refine (ensures_objects p).mono (fun _ => id) ?_ ?_
    · rintro os _ ⟨rfl, hos⟩
      exact ⟨hp, hp.1 ▸ hos⟩
    · rintro e _ ⟨he, rfl⟩
      exact ⟨he.isOf _, hp.1, Or.inl ⟨w.files, Or.inl rfl, hp.2⟩⟩
  rintro rfl
  refine ensures_phase (fun p c hp => ⟨hp.1, hp.2.files, hp.2.tools, hp.2.runs⟩) ?_ ?_
  · rintro _ p c ⟨hunits, f, hf, hlink⟩
    exact ⟨hunits, f, hf, hlink.shown rfl rfl rfl⟩
  -- What the linker printed only goes to the console.
  refine .bind (q := fun _ p => p.units = us ∧ ∃ f, w.files.mkdirs output.parent = .ok f ∧
    Workspace.Attempted (linkCall tools (us.map fun u => (Artifacts.beside u.source).object) output)
      { w with files := f } true p.workspace) (ensures_liftM ?_) fun report => ?_
  · rintro p ⟨hunits, hagrees⟩
    refine (ensures_linkObjects p.workspace ?_).mono (fun _ => id) ?_ ?_
    · rw [hagrees.tools]
      exact hplain
    · rintro _ w' ⟨f, hf, hlink⟩
      rw [hagrees.files] at hf
      exact ⟨hunits, f, hf, hagrees.attempted hlink⟩
    · rintro e w' ⟨he, ⟨g, hg, rfl⟩ | ⟨f, hf, hlink⟩⟩
      · rw [hagrees.files] at hg
        exact ⟨he, hunits, Or.inl ⟨g, hg, rfl, hagrees.tools, hagrees.runs⟩⟩
      · rw [hagrees.files] at hf
        exact ⟨he, hunits, Or.inr ⟨f, hf, hagrees.attempted hlink⟩⟩
  · by_cases hquiet : (!report.output.isEmpty) = true
    · rw [if_pos hquiet]
      rintro p ⟨hunits, f, hf, hlink⟩
      exact ⟨hunits, f, hf, hlink.shown rfl rfl rfl⟩
    · rw [if_neg hquiet]
      exact .of_pure fun p hp => hp

/-- How a build ends that starts with the project `p`: with the exit code of the first phase that
    fails, or with success. -/
inductive Ends (r : BuildRequest) (p : Project) : ExitCode → Prop where
  | transpiling {e : Failure} {p' : Project}
      (h : writeSources r.root r.toolchain p = .error e p') : Ends r p .transpileFailure
  | compiling {e : Failure} {p₁ p' : Project} (h₁ : writeSources r.root r.toolchain p = .ok () p₁)
      (h : makeObjects r.root r.toolchain p₁ = .error e p') : Ends r p .compileFailure
  | linking {e : Failure} {ws : List Text} {p₁ p₂ p' : Project}
      (h₁ : writeSources r.root r.toolchain p = .ok () p₁)
      (h₂ : makeObjects r.root r.toolchain p₁ = .ok ws p₂)
      (h : makeProgram r.toolchain r.output p₂ = .error e p') : Ends r p .linkFailure
  | success {ws : List Text} {p₁ p₂ p' : Project}
      (h₁ : writeSources r.root r.toolchain p = .ok () p₁)
      (h₂ : makeObjects r.root r.toolchain p₁ = .ok ws p₂)
      (h : makeProgram r.toolchain r.output p₂ = .ok () p') : Ends r p .success

/-- The first phase that fails tells how a build ends. -/
theorem ends_of_error {r : BuildRequest} {p p' : Project} {e : Failure}
    (h : phasesOf r p = .error e p') :
    writeSources r.root r.toolchain p = .error e p' ∨
      ∃ p₁, writeSources r.root r.toolchain p = .ok () p₁ ∧
        (makeObjects r.root r.toolchain p₁ = .error e p' ∨
          ∃ ws p₂, makeObjects r.root r.toolchain p₁ = .ok ws p₂ ∧
            makeProgram r.toolchain r.output p₂ = .error e p') := by
  -- Each phase is the first to fail or lets the next one run.
  rw [phasesOf, Action.bind_eq_error_iff] at h
  rcases h with h | ⟨_, p₁, h₁, h⟩
  · exact Or.inl h
  rw [Action.bind_eq_error_iff] at h
  rcases h with h | ⟨ws, p₂, h₂, h⟩
  · exact Or.inr ⟨p₁, h₁, Or.inl h⟩
  rw [Action.bind_eq_error_iff] at h
  rcases h with h | ⟨_, p₃, _, h⟩
  · exact Or.inr ⟨p₁, h₁, Or.inr ⟨ws, p₂, h₂, h⟩⟩
  · cases h

end Project

/-- Discovery fails only because there is nothing to build, if the build reports it. -/
theorem discover_eq_error {root : Path} {w w' : Workspace} {b : BuildError}
    (h : discover root w = .error (.build b) w') :
    b.kind = .noSources ∧ w' = w ∧
      ∀ sources, w.files.sources root = .ok sources → sources = [] := by
  have hquery : ∀ {e : Failure} {w₁ : Workspace},
      (liftM (FileAction.query (·.sources root)) : Action Workspace (List Path)) w = .error e w₁ →
        w.files.sources root = .error e ∧ w₁ = w := by
    intro e w₁ he
    have hends : Action.Ensures (· = w)
        (liftM (FileAction.query (·.sources root)) : Action Workspace (List Path))
        (fun _ _ => True) fun e w₁ => w.files.sources root = .error e ∧ w₁ = w := by
      refine Workspace.ensures_liftM ?_
      rintro _ rfl
      refine (FileAction.ensures_query _).mono (fun _ => id) (fun _ _ _ => trivial) ?_
      rintro e _ ⟨he, rfl⟩
      exact ⟨he, rfl⟩
    exact hends.error rfl he
  -- Either the root cannot be searched, or nothing was found there.
  rw [discover, Action.bind_eq_error_iff] at h
  rcases h with h | ⟨sources, w₁, hsources, h⟩
  · rcases hquery h with ⟨hfail, rfl⟩
    refine ⟨sources_fails _ hfail b rfl, rfl, fun sources hsources => ?_⟩
    rw [hsources] at hfail
    cases hfail
  · simp only [Workspace.liftM_eq_ok_iff, FileAction.query_eq_ok_iff] at hsources
    rcases hsources with ⟨_, ⟨hsources, rfl⟩, rfl⟩
    by_cases hempty : sources.isEmpty = true
    · rw [if_pos hempty] at h
      cases h
      refine ⟨rfl, rfl, fun sources' hsources' => ?_⟩
      rw [hsources', Except.ok.injEq] at hsources
      rw [hsources]
      exact List.isEmpty_iff.mp hempty
    · rw [if_neg hempty] at h
      cases h

/-- Discovery that succeeds has found something to build. -/
theorem units_ne_nil_of_discover {root : Path} {w w' : Workspace} {units : List TranslationUnit}
    (h : discover root w = .ok units w') : units ≠ [] := by
  simp only [discover, Action.bind_eq_ok_iff] at h
  rcases h with ⟨sources, w₁, _, h⟩
  by_cases hempty : sources.isEmpty = true
  · rw [if_pos hempty] at h
    simp only [Action.bind_eq_ok_iff, Action.throw_eq_ok_iff, false_and, exists_false] at h
  · rw [if_neg hempty] at h
    simp only [Action.bind_eq_ok_iff, Action.pure_eq_ok_iff] at h
    rcases h with ⟨_, _, _, rfl, _⟩
    exact fun hnil => hempty (List.isEmpty_iff.mpr (List.map_eq_nil_iff.mp hnil))

/-- What a build can have done that returns: there is nothing to build, or the discovered units
    have been taken through the phases, to the end or up to a failure. -/
theorem build_cases {r : BuildRequest} {verbose : Bool} {w w' : Workspace} {report : BuildReport}
    (h : build r verbose w = .ok report w') :
    (report.exitCode = .noSources ∧ report.units = none ∧ w'.files = w.files ∧ w'.runs = w.runs ∧
      ∀ sources, w.files.sources r.root = .ok sources → sources = []) ∨
    ∃ sources c ns, w.files.sources r.root = .ok sources ∧ sources ≠ [] ∧
      ((∃ warnings p, Project.phasesOf r ⟨{ w with console := c, notices := ns },
          sources.map TranslationUnit.ofSource⟩ = .ok warnings p ∧
        report.exitCode = .success ∧ report.units = some p.units ∧
        w'.files = p.workspace.files ∧ w'.runs = p.workspace.runs) ∨
      ∃ b p, Project.phasesOf r ⟨{ w with console := c, notices := ns },
          sources.map TranslationUnit.ofSource⟩ = .error (.build b) p ∧
        report.TellsOf b (some p.units) ∧
        w'.files = p.workspace.files ∧ w'.runs = p.workspace.runs) := by
  rcases build_returns h with
    ⟨start, c, ⟨units, w₁, c', hdiscover, h⟩ | ⟨b, w₁, hfailed, h⟩⟩
  · have hne := units_ne_nil_of_discover hdiscover
    rcases discover_eq_ok hdiscover with ⟨sources, ns, hsources, rfl, rfl⟩
    refine Or.inr ⟨sources, c', ns, hsources, fun hnil => hne ?_, Workspace.buildUnits_cases h⟩
    rw [hnil, List.map_nil]
  · rcases discover_eq_error hfailed with ⟨hkind, rfl, hnone⟩
    rcases Workspace.reportFailure_eq_ok h with ⟨htells, hfiles, hruns⟩
    refine Or.inl ⟨?_, htells.units, hfiles, hruns, hnone⟩
    rw [htells.exitCode, hkind]
    rfl

end DialectBuild
