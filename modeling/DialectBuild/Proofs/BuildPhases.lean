import DialectBuild.Proofs.AlikeFiles
import DialectBuild.Proofs.EveryOutcome
import DialectBuild.Proofs.UnitRuns

/-!
# The Phases of a Build

What the last two phases of a build do when they succeed, and what a build comes down to that
returns. A unit is compiled by one call of a tool and the program is linked by another, and nothing
but these calls changes files or adds to the runs. What is shown on the console and which notices
are given is left open.

## Main definitions

* `Desk.compileCall`, `linkCall`: The calls of the last two phases.
* `BuildReport.TellsOf`: What a report says of a failure.

* `Files.FallsShort`: Files in which a directory could not be made.

## Theorems

* `Desk.compile_eq_ok`, `Project.compileShown_eq_ok`: Compiling a unit.
* `Files.mkdirs_of_isDir`: Creating a directory that is there changes nothing.
* `linkObjects_eq_ok`: Linking.
* `Workspace.buildUnits_cases`, `build_returns`: What a build can have done that returns.
* `build_eq_ok`: A build that succeeds takes the discovered units through all phases.
-/

namespace DialectBuild

namespace Desk

/-- The call by which a unit with the given artifacts is compiled. -/
def compileCall (tools : Toolchain) (settings : Settings) (a : Artifacts) : ToolCall :=
  { role := .compile, command := tools.commandToCompile settings a, limit := some toolLimit }

/-- Compiling a unit is one call of the compiler. -/
theorem compile_eq_ok {tools : Toolchain} {d d' : Desk} {r : ToolReport}
    (h : compile tools d = .ok r d') :
    ∃ a e ns, Artifacts.ofSource d.unit.source = .ok a ∧
      d' = { d with workspace := { d.workspace with
        files := (d.workspace.tools.run (compileCall tools d.unit.settings a)
          d.workspace.files).2
        notices := ns
        runs := d.workspace.runs ++
          [⟨compileCall tools d.unit.settings a, d.workspace.files, .ok e⟩] } } := by
  simp only [compile, Action.bind_eq_ok_iff, unitOf_eq_ok_iff, artifacts_eq_ok_iff] at h
  rcases h with ⟨_, _, ⟨rfl, rfl⟩, a, _, ⟨ha, rfl⟩, report, d₁, hrun, h⟩
  -- Every failure of the call is passed on as one.
  rw [Action.tryCatch_eq_ok_iff (fun e t x t' hthrow => by
    cases e <;> exact Action.throw_eq_ok_iff.mp hthrow), liftM_eq_ok_iff] at hrun
  rcases hrun with ⟨w, hcall, rfl⟩
  rcases Workspace.callTool_eq_ok hcall with ⟨e, ns, _, rfl⟩
  by_cases hok : (!report.isOk) = true
  · rw [if_pos hok] at h
    simp only [Action.bind_eq_ok_iff, Action.throw_eq_ok_iff, false_and, exists_false] at h
  · rw [if_neg hok] at h
    simp only [Action.bind_eq_ok_iff, liftM_eq_ok_iff, Workspace.notify_eq_ok_iff,
      Action.pure_eq_ok_iff] at h
    rcases h with ⟨_, _, ⟨_, rfl, rfl⟩, _, rfl⟩
    exact ⟨a, e, _, ha, rfl⟩

end Desk

namespace Project

/-- Compiling a unit and showing it is compiling it, but for the console. -/
theorem compileShown_eq_ok {root : Path} {tools : Toolchain} {d d' : Desk} {x : Option Text}
    (h : compileShown root tools d = .ok x d') :
    ∃ c r d₁, Desk.compile tools d = .ok r d₁ ∧
      d' = ⟨{ d₁.workspace with console := c }, d₁.unit⟩ := by
  simp only [compileShown, Action.bind_eq_ok_iff, Desk.artifacts_eq_ok_iff,
    Desk.liftM_eq_ok_iff, Workspace.say_eq_ok_iff] at h
  rcases h with ⟨r, d₁, hcompile, _, _, ⟨_, rfl⟩, _, _, ⟨_, rfl, rfl⟩, h⟩
  by_cases hquiet : r.output.isEmpty = true
  · rw [if_pos hquiet, Action.pure_eq_ok_iff] at h
    exact ⟨_, r, d₁, hcompile, h.2.symm⟩
  · rw [if_neg hquiet] at h
    simp only [Action.bind_eq_ok_iff, Desk.liftM_eq_ok_iff, Workspace.say_eq_ok_iff,
      Action.pure_eq_ok_iff] at h
    rcases h with ⟨_, _, ⟨_, rfl, rfl⟩, _, rfl⟩
    exact ⟨_, r, d₁, hcompile, rfl⟩

end Project

namespace Files

theorem mkdirs_eq_ok_iff {f g : Files} {p : Path} :
    f.mkdirs p = .ok g ↔ FileAction.mkdirs p f = .ok () g := by
  rw [mkdirs]
  rcases FileAction.mkdirs p f with ⟨⟨⟩, g'⟩ | ⟨e, g'⟩
  · simp only [Except.ok.injEq, EStateM.Result.ok.injEq, true_and]
  · simp only [reduceCtorEq]

theorem mkdirs_eq_error_iff {f : Files} {p : Path} {e : Failure} :
    f.mkdirs p = .error e ↔ ∃ g, FileAction.mkdirs p f = .error e g := by
  rw [mkdirs]
  rcases FileAction.mkdirs p f with ⟨⟨⟩, g'⟩ | ⟨e', g'⟩
  · simp only [reduceCtorEq, exists_false]
  · simp only [Except.error.injEq, EStateM.Result.error.injEq, exists_and_left, exists_eq',
      and_true]

/-- The files as they were, or as the attempt to make a directory has left them that could not be
    made. -/
def FallsShort (f : Files) (p : Path) (g : Files) : Prop :=
  g = f ∨ ∃ e, FileAction.mkdirs p f = .error e g

/-- Creating a directory that is there changes nothing. -/
theorem mkdirs_of_isDir {f : Files} {p : Path} (hl : f.IsLinkless) (h : f.isDir p = .ok true) :
    f.mkdirs p = .ok f := by
  have hspot := (isDir_iff hl).mp h
  -- Nothing is made where a directory stands, and the refusal is taken as success.
  have hmkdir : f.mkdir p = .error (refuse .alreadyExists p) := by
    have hspot' : f.spot false p = _ := (Alike.refl hl).spot hspot (find?_of_spot hl hspot)
    rw [mkdir, hspot']
    rfl
  have hunless : f.mkdirUnlessDir p = .ok f := by
    rw [mkdirUnlessDir, hmkdir]
    simp only [refuse, h]
    rfl
  rw [mkdirs_eq_ok_iff, FileAction.mkdirs]
  cases p.parts.length with
  | zero => exact FileAction.change_eq_ok_iff.mpr hunless
  | succ n =>
      have hfirst := FileAction.change_of_error (c := (·.mkdir p)) hmkdir
      rw [FileAction.mkdirsFrom, Action.onOsError_of_error hfirst]
      exact FileAction.change_eq_ok_iff.mpr hunless

end Files

/-- The call by which objects are linked. -/
def linkCall (tools : Toolchain) (objects : List Path) (output : Path) : ToolCall :=
  { role := .link, command := tools.commandToLink objects output, limit := some toolLimit }

/-- Linking is one call of the linker, once the directory of the program is there. -/
theorem linkObjects_eq_ok {tools : Toolchain} {objects : List Path} {output : Path}
    {w w' : Workspace} {r : ToolReport} (h : linkObjects tools objects output w = .ok r w') :
    ∃ f e ns, w.files.mkdirs output.parent = .ok f ∧
      w' = { w with
        files := (w.tools.run (linkCall tools objects output) f).2
        notices := ns
        runs := w.runs ++ [⟨linkCall tools objects output, f, .ok e⟩] } := by
  rw [linkObjects] at h
  by_cases hempty : objects.isEmpty = true
  · rw [if_pos hempty] at h
    simp only [Action.bind_eq_ok_iff, Action.throw_eq_ok_iff, false_and, exists_false] at h
  rw [if_neg hempty] at h
  simp only [Action.bind_eq_ok_iff] at h
  rcases h with ⟨_, w₁, hmkdirs, report, w₂, hrun, h⟩
  rw [Action.onOsError_eq_ok_iff (fun e t a t' h => Action.throw_eq_ok_iff.mp h),
    Workspace.liftM_eq_ok_iff] at hmkdirs
  rcases hmkdirs with ⟨f, hf, rfl⟩
  rw [← Files.mkdirs_eq_ok_iff] at hf
  -- A handler that only throws does not lead to success.
  rw [Action.tryCatch_eq_ok_iff (fun e t x t' hthrow => by
    cases e <;> exact Action.throw_eq_ok_iff.mp hthrow)] at hrun
  rcases Workspace.callTool_eq_ok hrun with ⟨e, ns, _, rfl⟩
  by_cases hok : (!report.isOk) = true
  · rw [if_pos hok] at h
    simp only [Action.bind_eq_ok_iff, Action.throw_eq_ok_iff, false_and, exists_false] at h
  · rw [if_neg hok] at h
    simp only [Action.bind_eq_ok_iff, Workspace.notify_eq_ok_iff, Action.pure_eq_ok_iff] at h
    rcases h with ⟨_, _, rfl, _, rfl⟩
    exact ⟨f, e, _, hf, rfl⟩

/-- The artifacts of a source that has a name. -/
def Artifacts.beside (source : Path) : Artifacts :=
  ⟨source.parent.child (source.name ++ ".c"), source.parent.child (source.name ++ ".h"),
    source.parent.child (stem source ++ ".o")⟩

theorem Artifacts.eq_beside {source : Path} {a : Artifacts} (h : ofSource source = .ok a) :
    a = beside source :=
  (ofSource_eq_ok_iff.mp h).2

namespace Project

variable {p p' : Project}

/-- The third phase is a pass over the units, but for the console. -/
theorem makeObjects_eq_ok {root : Path} {tools : Toolchain} {warnings : List Text}
    (h : makeObjects root tools p = .ok warnings p') :
    ∃ c c' xs q,
      runUnits (compileShown root tools) p.units { p.workspace with console := c } = .ok xs q ∧
      p' = ⟨{ q.workspace with console := c' }, q.units⟩ := by
  simp only [makeObjects, Action.bind_eq_ok_iff, Action.get_eq_ok_iff, Action.pure_eq_ok_iff] at h
  rcases h with ⟨_, _, ⟨rfl, rfl⟩, xs, _, hphase, _, rfl⟩
  rcases phase_eq_ok hphase with ⟨c, c', q, hq, rfl⟩
  exact ⟨c, c', xs, q, hq, rfl⟩

/-- The objects are those of the units, and asking for them changes nothing. -/
theorem objects_eq_ok {os : List Path} (h : objects p = .ok os p') :
    os = p.units.map (fun u => (Artifacts.beside u.source).object) ∧ p' = p := by
  -- Said of any list of units: the induction is on it, and the project stays the same.
  have hlist : ∀ {us : List TranslationUnit} {os : List Path} {q : Project},
      us.mapM (fun u => (do
        return (← Action.ofExcept (Artifacts.ofSource u.source)).object : Action Project Path)) p =
          .ok os q → os = us.map (fun u => (Artifacts.beside u.source).object) ∧ q = p := by
    intro us
    induction us with
    | nil =>
        intro os q h
        rw [List.mapM_nil, Action.pure_eq_ok_iff] at h
        exact ⟨h.1.symm, h.2.symm⟩
    | cons u us ih =>
        intro os q h
        simp only [List.mapM_cons, Action.bind_eq_ok_iff, Action.ofExcept_eq_ok_iff,
          Action.pure_eq_ok_iff] at h
        rcases h with ⟨_, _, ⟨a, _, ⟨ha, rfl⟩, rfl, rfl⟩, rest, _, hrest, rfl, rfl⟩
        rcases ih hrest with ⟨rfl, rfl⟩
        exact ⟨by rw [List.map_cons, Artifacts.eq_beside ha], rfl⟩
  simp only [objects, Action.bind_eq_ok_iff, Action.get_eq_ok_iff] at h
  rcases h with ⟨_, _, ⟨rfl, rfl⟩, h⟩
  exact hlist h

/-- The fourth phase links the objects of the units. -/
theorem makeProgram_eq_ok {tools : Toolchain} {output : Path} {u : Unit}
    (h : makeProgram tools output p = .ok u p') :
    ∃ f e ns c, p.workspace.files.mkdirs output.parent = .ok f ∧
      p' = ⟨{ p.workspace with
        files := (p.workspace.tools.run (linkCall tools
          (p.units.map fun u => (Artifacts.beside u.source).object) output) f).2
        notices := ns
        console := c
        runs := p.workspace.runs ++ [⟨linkCall tools
          (p.units.map fun u => (Artifacts.beside u.source).object) output, f, .ok e⟩] },
        p.units⟩ := by
  simp only [makeProgram, Action.bind_eq_ok_iff] at h
  rcases h with ⟨os, _, hobjects, hphase⟩
  rcases objects_eq_ok hobjects with ⟨rfl, rfl⟩
  rcases phase_eq_ok hphase with ⟨c, c', q, hq, rfl⟩
  simp only [Action.bind_eq_ok_iff, liftM_eq_ok_iff] at hq
  rcases hq with ⟨r, _, ⟨w, hlink, rfl⟩, hsay⟩
  rcases linkObjects_eq_ok hlink with ⟨f, e, ns, hf, rfl⟩
  refine ⟨f, e, ns, c', hf, ?_⟩
  -- What the linker printed only goes to the console.
  by_cases hquiet : (!r.output.isEmpty) = true
  · rw [if_pos hquiet, liftM_eq_ok_iff] at hsay
    rcases hsay with ⟨_, hsay, rfl⟩
    rw [Workspace.say_eq_ok_iff] at hsay
    rw [← hsay]
  · rw [if_neg hquiet, Action.pure_eq_ok_iff] at hsay
    rw [← hsay.2]

/-- All phases, one after the other. -/
theorem phasesOf_eq_ok {r : BuildRequest} {warnings : List Text}
    (h : phasesOf r p = .ok warnings p') :
    ∃ ws p₁ p₂, writeSources r.root r.toolchain p = .ok () p₁ ∧
      makeObjects r.root r.toolchain p₁ = .ok ws p₂ ∧
      makeProgram r.toolchain r.output p₂ = .ok () p' := by
  simp only [phasesOf, Action.bind_eq_ok_iff, Action.pure_eq_ok_iff] at h
  rcases h with ⟨_, p₁, hwrite, ws, p₂, hobjects, _, _, hprogram, _, rfl⟩
  exact ⟨ws, p₁, p₂, hwrite, hobjects, hprogram⟩

end Project

/-- No kind of failure is reported as success. -/
theorem ErrorKind.exitCode_ne_success (k : ErrorKind) : k.exitCode ≠ .success := by
  cases k <;> decide

/-- A report of a failed build: the exit code of its kind, and its wording. -/
structure BuildReport.TellsOf (report : BuildReport) (b : BuildError)
    (units : Option (List TranslationUnit)) : Prop where
  /-- The exit code is that of the kind. -/
  exitCode : report.exitCode = b.kind.exitCode
  /-- The message is the wording of the error. -/
  message : report.message = b.format
  /-- The units are these. -/
  units : report.units = units

theorem BuildReport.TellsOf.not_isSuccess {report : BuildReport} {b : BuildError}
    {units : Option (List TranslationUnit)} (h : report.TellsOf b units) :
    report.isSuccess ≠ true := by
  rw [BuildReport.isSuccess, h.exitCode]
  exact fun hsuccess => b.kind.exitCode_ne_success (of_decide_eq_true hsuccess)

theorem Workspace.reportFailure_eq_ok {start : Rat} {units : Option (List TranslationUnit)}
    {b : BuildError} {w w' : Workspace} {report : BuildReport}
    (h : reportFailure start units b w = .ok report w') :
    report.TellsOf b units ∧ w'.files = w.files ∧ w'.runs = w.runs := by
  simp only [reportFailure, since, Action.bind_eq_ok_iff, say_eq_ok_iff, Action.get_eq_ok_iff,
    Action.pure_eq_ok_iff] at h
  rcases h with ⟨_, _, rfl, _, _, ⟨_, _, ⟨rfl, rfl⟩, _, rfl⟩, rfl, rfl⟩
  exact ⟨⟨rfl, rfl, rfl⟩, rfl, rfl⟩

/-- What a build of units can have done that returns. -/
theorem Workspace.buildUnits_cases {start : Rat} {r : BuildRequest} {units : List TranslationUnit}
    {w w' : Workspace} {report : BuildReport} (h : buildUnits start r units w = .ok report w') :
    (∃ warnings p, Project.phasesOf r ⟨w, units⟩ = .ok warnings p ∧
      report.exitCode = .success ∧ report.units = some p.units ∧
      w'.files = p.workspace.files ∧ w'.runs = p.workspace.runs) ∨
    ∃ b p, Project.phasesOf r ⟨w, units⟩ = .error (.build b) p ∧
      report.TellsOf b (some p.units) ∧
      w'.files = p.workspace.files ∧ w'.runs = p.workspace.runs := by
  rw [buildUnits] at h
  rcases hphases : Project.phasesOf r ⟨w, units⟩ with ⟨warnings, p⟩ | ⟨e, p⟩
  · rw [hphases] at h
    simp only [reportSuccess, since, Action.bind_eq_ok_iff, say_eq_ok_iff, Action.get_eq_ok_iff,
      Action.pure_eq_ok_iff] at h
    rcases h with ⟨_, _, ⟨_, _, ⟨rfl, rfl⟩, _, rfl⟩, _, _, rfl, _, _, rfl, rfl, rfl⟩
    exact Or.inl ⟨warnings, p, rfl, rfl, rfl, rfl, rfl⟩
  · rw [hphases] at h
    cases e with
    | build b => exact Or.inr ⟨b, p, rfl, reportFailure_eq_ok h⟩
    | _ => cases h

/-- A build that returns has built the units that were discovered, or it has reported why there are
    none. -/
theorem build_returns {r : BuildRequest} {verbose : Bool} {w w' : Workspace}
    {report : BuildReport} (h : build r verbose w = .ok report w') : ∃ start c,
    (∃ units w₁ c', discover r.root { w with console := c } = .ok units w₁ ∧
      Workspace.buildUnits start r units { w₁ with console := c' } = .ok report w') ∨
    ∃ b w₁, discover r.root { w with console := c } = .error (.build b) w₁ ∧
      Workspace.reportFailure start none b w₁ = .ok report w' := by
  simp only [build, Action.bind_eq_ok_iff, Action.get_eq_ok_iff, Workspace.say_eq_ok_iff] at h
  rcases h with ⟨_, _, ⟨rfl, rfl⟩, _, _, rfl, _, _, rfl, discovered, w₁, hdiscovered, h⟩
  -- Only a failed discovery is caught here: a failed phase is reported further in.
  rcases Action.onBuildError_eq_ok hdiscovered with hfound | ⟨b, w₂, hfailed, hreturn⟩
  · simp only [Action.bind_eq_ok_iff, Action.pure_eq_ok_iff] at hfound
    rcases hfound with ⟨units, _, hdiscover, rfl, rfl⟩
    simp only [Action.bind_eq_ok_iff, Workspace.say_eq_ok_iff] at h
    rcases h with ⟨_, _, rfl, h⟩
    exact ⟨_, _, Or.inl ⟨units, _, _, hdiscover, h⟩⟩
  · rw [Action.pure_eq_ok_iff] at hreturn
    rcases hreturn with ⟨rfl, rfl⟩
    rw [Action.bind_eq_error_iff] at hfailed
    rcases hfailed with hfailed | ⟨_, _, _, hpure⟩
    · exact ⟨_, _, Or.inr ⟨b, _, hfailed, h⟩⟩
    · cases hpure

/-- A build that succeeds has taken the discovered units through all phases. -/
theorem build_eq_ok {r : BuildRequest} {verbose : Bool} {w w' : Workspace} {report : BuildReport}
    (h : build r verbose w = .ok report w') (hsuccess : report.isSuccess = true) :
    ∃ sources c ns warnings p, w.files.sources r.root = .ok sources ∧
      Project.phasesOf r ⟨{ w with console := c, notices := ns },
        sources.map TranslationUnit.ofSource⟩ = .ok warnings p ∧
      report.units = some p.units ∧ w'.files = p.workspace.files ∧
      w'.runs = p.workspace.runs := by
  rcases build_returns h with ⟨start, c, ⟨units, w₁, c', hdiscover, h⟩ | ⟨b, w₁, _, h⟩⟩
  · rcases discover_eq_ok hdiscover with ⟨sources, ns, hsources, rfl, rfl⟩
    rcases Workspace.buildUnits_cases h with
      ⟨warnings, p, hphases, _, hreport⟩ | ⟨b, p, _, htells, _⟩
    · exact ⟨sources, c', ns, warnings, p, hsources, hphases, hreport⟩
    · exact absurd hsuccess htells.not_isSuccess
  · exact absurd hsuccess (Workspace.reportFailure_eq_ok h).1.not_isSuccess

end DialectBuild
