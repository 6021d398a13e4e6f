import DialectBuild.Proofs.EveryBuild

/-!
# The Plan of Tool Calls

The tools that a build runs, in order. If all goes well, an external transpiler is called for
each unit in the order of discovery, then the compiler for each of them in the same order, and
then the linker once for all objects. Whatever goes wrong, what has been called by then is a
beginning of this plan, and only the last call can have failed: a build stops at the first
failure. Its exit code tells the phase.

Each phase is followed from one unit to the next. So far as it goes well, the calls of the units
that have been taken are complete; where it fails, those of one more unit have begun.

## Main definitions

* `planOf`: The calls of a build, in order.
* `Workspace.HasMade`, `Workspace.HasBegun`: Calls that have been made, or begun.

## Theorems

* `Project.ensures_writeSources`, `Project.ensures_makeObjects`: The calls of the phases.
* `build_follows_plan`: The calls of a build that returns.
-/

namespace DialectBuild

/-- The calls of the external transpiler for sources, if there is one. -/
def transpilePlan (tools : Toolchain) (sources : List Path) : List ToolCall :=
  sources.flatMap (transpileCalls tools)

/-- The calls of the compiler for units. -/
def compilePlan (tools : Toolchain) (us : List TranslationUnit) : List ToolCall :=
  us.map fun u => Desk.compileCall tools u.settings (Artifacts.beside u.source)

/-- The calls of a build of units, in order: for each unit that of the external transpiler, if
    there is one, then for each unit that of the compiler, and then that of the linker. -/
def planOf (r : BuildRequest) (us : List TranslationUnit) : List ToolCall :=
  transpilePlan r.toolchain (us.map TranslationUnit.source) ++ callsOf r us

theorem planOf_eq (r : BuildRequest) (us : List TranslationUnit) :
    planOf r us = transpilePlan r.toolchain (us.map TranslationUnit.source) ++
      compilePlan r.toolchain us ++
      [linkCall r.toolchain (us.map fun u => (Artifacts.beside u.source).object) r.output] := by
  rw [planOf, List.append_assoc]
  rfl

/-- Runs that follow some calls do not complete them and more. -/
theorem Follows.not_completes {calls more : List ToolCall} {runs : List ToolRun}
    (h : Follows calls runs) (hmore : more ≠ []) : ¬ Completes (calls ++ more) runs := by
  intro hall
  have hlength := h.calls_le.length_le
  rw [hall.calls_eq, List.length_append] at hlength
  have hpos := List.length_pos_iff.mpr hmore
  omega

theorem role_of_mem_transpilePlan {tools : Toolchain} {sources : List Path} {call : ToolCall}
    (h : call ∈ transpilePlan tools sources) : call.role = .transpile := by
  rcases List.mem_flatMap.mp h with ⟨s, _, hcall⟩
  unfold transpileCalls at hcall
  split at hcall
  · exact absurd hcall List.not_mem_nil
  · rw [List.mem_singleton.mp hcall]
    rfl

namespace Workspace

/-- Since there were only `runs`, all of some calls have been made, and well. -/
structure HasMade (tools : Tools) (runs : List ToolRun) (calls : List ToolCall) (w : Workspace) :
    Prop where
  /-- The tools are these. -/
  tools_eq : w.tools = tools
  /-- The calls have been made. -/
  made : ∃ new, w.runs = runs ++ new ∧ Completes calls new

/-- Since there were only `runs`, the first of some calls have been made, all but the last of them
    well. -/
def HasBegun (runs : List ToolRun) (calls : List ToolCall) (w : Workspace) : Prop :=
  ∃ new, w.runs = runs ++ new ∧ Follows calls new

section Calls

variable {tools : Tools} {runs : List ToolRun} {calls more : List ToolCall} {call : ToolCall}
  {w w' : Workspace}

theorem HasMade.shown (h : HasMade tools runs calls w) (htools : w'.tools = w.tools)
    (hruns : w'.runs = w.runs) : HasMade tools runs calls w' :=
  ⟨htools.trans h.tools_eq, hruns ▸ h.made⟩

theorem HasMade.setFiles (h : HasMade tools runs calls w) (f : Files) :
    HasMade tools runs calls { w with files := f } :=
  h.shown rfl rfl

/-- More calls that went well. -/
theorem HasMade.completes {new : List ToolRun} (h : HasMade tools runs calls w)
    (htools : w'.tools = w.tools) (hruns : w'.runs = w.runs ++ new) (hnew : Completes more new) :
    HasMade tools runs (calls ++ more) w' := by
  rcases h.made with ⟨old, hold, hcompletes⟩
  refine ⟨htools.trans h.tools_eq, old ++ new, ?_, hcompletes.append hnew⟩
  rw [hruns, hold, List.append_assoc]

/-- More calls, of which one may have failed. -/
theorem HasMade.follows {new : List ToolRun} (h : HasMade tools runs calls w)
    (hruns : w'.runs = w.runs ++ new) (hnew : Follows more new) :
    HasBegun runs (calls ++ more) w' := by
  rcases h.made with ⟨old, hold, hcompletes⟩
  refine ⟨old ++ new, ?_, hcompletes.append_follows hnew⟩
  rw [hruns, hold, List.append_assoc]

/-- One more call, which went well. -/
theorem HasMade.attempted (h : HasMade tools runs calls w) (hcall : Attempted call w true w') :
    HasMade tools runs (calls ++ [call]) w' := by
  rcases hcall with ⟨run, hran, hok⟩
  exact h.completes hran.tools hran.runs_eq (hran.call_eq ▸ completes_singleton hok)

/-- One more call, which failed or was not made. -/
theorem HasMade.failed (h : HasMade tools runs calls w)
    (hcall : w'.runs = w.runs ∨ Attempted call w false w') :
    ∃ new, w'.runs = runs ++ new ∧ Follows (calls ++ [call]) new ∧
      ¬ Completes (calls ++ [call]) new := by
  rcases h.made with ⟨old, hold, hcompletes⟩
  rcases hcall with hsame | ⟨run, hran, hok⟩
  · have hfollows : Follows (calls ++ []) old := hcompletes.follows
    rw [List.append_nil] at hfollows
    exact ⟨old, hsame.trans hold, hcompletes.follows,
      hfollows.not_completes (List.cons_ne_nil _ _)⟩
  · refine ⟨old ++ [run], ?_, hcompletes.append_follows (hran.call_eq ▸ follows_singleton run), ?_⟩
    · rw [hran.runs_eq, hold, List.append_assoc]
    · intro hall
      have hrun := hall.isOk run (List.mem_append_right old (List.mem_singleton_self run))
      rw [hok] at hrun
      cases hrun

theorem HasBegun.append (h : HasBegun runs calls w) : HasBegun runs (calls ++ more) w := by
  rcases h with ⟨new, hruns, hfollows⟩
  exact ⟨new, hruns, hfollows.append⟩

end Calls

end Workspace

open Workspace

namespace Project

variable {root : Path} {tools : Toolchain} {ts : Tools} {runs : List ToolRun}
  {sources : List Path} {calls : List ToolCall}

/-- All of some calls have been made, and the units are still those of the sources. -/
def HasMade (ts : Tools) (runs : List ToolRun) (sources : List Path) (calls : List ToolCall)
    (p : Project) : Prop :=
  p.units.map TranslationUnit.source = sources ∧ Workspace.HasMade ts runs calls p.workspace

/-- A transpile failure after the first of some calls. -/
def FailsAfter (runs : List ToolRun) (sources : List Path) (calls : List ToolCall) (e : Failure)
    (p : Project) : Prop :=
  e.IsOf .transpile ∧ p.units.map TranslationUnit.source = sources ∧
    Workspace.HasBegun runs calls p.workspace

/-- The first pass calls an external transpiler for each unit in turn. -/
theorem ensures_firstPass (hplain : ts.FailPlainly) :
    Action.Ensures (HasMade ts runs sources []) (eachUnit (prepareShown root tools))
      (fun _ => HasMade ts runs sources (transpilePlan tools sources))
      (FailsAfter runs sources (transpilePlan tools sources)) := by
  -- The units that have been taken have had their calls.
  have hpass := @ensures_eachUnit _ (prepareShown root tools)
    (fun done rest w => (done ++ rest).map TranslationUnit.source = sources ∧
      Workspace.HasMade ts runs (transpilePlan tools (done.map TranslationUnit.source)) w)
    (FailsAfter runs sources (transpilePlan tools sources)) ?_
  · refine hpass.mono (fun p hp => hp) (fun _ p hp => ?_) fun _ _ => id
    rcases hp with ⟨hsources, hmade⟩
    rw [List.append_nil] at hsources
    exact ⟨hsources, hsources ▸ hmade⟩
  intro done u rest
  refine .of_each ?_
  rintro d ⟨rfl, hsources, hmade⟩
  have hplain' : d.workspace.tools.FailPlainly := hmade.tools_eq ▸ hplain
  rw [List.map_append, List.map_cons] at hsources
  have hplan : transpilePlan tools sources =
      transpilePlan tools (done.map TranslationUnit.source) ++
        transpileCalls tools d.unit.source ++
        transpilePlan tools (rest.map TranslationUnit.source) := by
    rw [← hsources, transpilePlan, List.flatMap_append, List.flatMap_cons, List.append_assoc]
    rfl
  refine (ensures_prepareShown d hplain').mono (fun _ => id) ?_ ?_
  · rintro _ d' ⟨new, hcompletes, hworks⟩
    refine ⟨?_, ?_⟩
    · rw [List.append_assoc, List.map_append, List.singleton_append, List.map_cons,
        hworks.source, hsources]
    · rw [List.map_append, List.map_singleton, hworks.source, transpilePlan,
        List.flatMap_append, List.flatMap_singleton]
      exact hmade.completes hworks.workspace.tools hworks.workspace.runs_eq hcompletes
  · rintro e d' ⟨new, hfailed⟩
    refine ⟨hfailed.tells.isOf, ?_, ?_⟩
    · rw [List.map_append, List.map_cons, hfailed.works.source, hsources]
    · rw [hplan]
      exact (hmade.follows hfailed.works.workspace.runs_eq hfailed.follows).append

/-- The second pass calls no tool. -/
theorem ensures_secondPass {others : List Path} :
    Action.Ensures (HasMade ts runs sources calls) (eachUnit (finishShown root others))
      (fun _ => HasMade ts runs sources calls) (FailsAfter runs sources calls) := by
  have hpass := @ensures_eachUnit _ (finishShown root others)
    (fun done rest w => (done ++ rest).map TranslationUnit.source = sources ∧
      Workspace.HasMade ts runs calls w)
    (FailsAfter runs sources calls) ?_
  · refine hpass.mono (fun p hp => hp) (fun _ p hp => ?_) fun _ _ => id
    rcases hp with ⟨hsources, hmade⟩
    rw [List.append_nil] at hsources
    exact ⟨hsources, hmade⟩
  intro done u rest
  refine .of_each ?_
  rintro d ⟨rfl, hsources, hmade⟩
  rw [List.map_append, List.map_cons] at hsources
  -- The second stage runs no tool, so that the calls are still those of the first.
  refine (ensures_finishShown d).mono (fun _ => id) ?_ ?_
  · rintro _ d' hworks
    refine ⟨?_, hmade.shown hworks.workspace.tools ?_⟩
    · rw [List.append_assoc, List.map_append, List.singleton_append, List.map_cons,
        hworks.source, hsources]
    · rw [hworks.workspace.runs_eq, List.append_nil]
  · intro e d' hfailed
    refine ⟨hfailed.tells.isOf, ?_, ?_⟩
    · rw [List.map_append, List.map_cons, hfailed.works.source, hsources]
    · have hbegun := hmade.follows hfailed.works.workspace.runs_eq (follows_nil [])
      rw [List.append_nil] at hbegun
      exact hbegun

/-- The first two phases, however they end: an external transpiler is called for each unit in
    turn. -/
theorem ensures_writeSources (hplain : ts.FailPlainly) :
    Action.Ensures (HasMade ts runs sources []) (writeSources root tools)
      (fun _ => HasMade ts runs sources (transpilePlan tools sources))
      (FailsAfter runs sources (transpilePlan tools sources)) := by
  have hshown : ∀ {calls : List ToolCall} (p : Project) (c : Console),
      HasMade ts runs sources calls p →
        HasMade ts runs sources calls ⟨{ p.workspace with console := c }, p.units⟩ :=
    fun p c hp => ⟨hp.1, hp.2.shown rfl rfl⟩
  refine .followed (.of_get fun p hp => hp) fun p₀ => ?_
  refine .bind (ensures_phase hshown (fun _ => hshown) (ensures_firstPass hplain)) fun _ => ?_
  exact .bind (ensures_phase hshown (fun _ => hshown) ensures_secondPass) fun _ =>
    .of_pure fun p hp => hp

/-- The third phase, however it ends: the compiler is called for each unit in turn. -/
theorem ensures_makeObjects {us : List TranslationUnit} (hplain : ts.FailPlainly) :
    Action.Ensures (fun p => p.units = us ∧ Workspace.HasMade ts runs calls p.workspace)
      (makeObjects root tools)
      (fun _ p => p.units = us ∧
        Workspace.HasMade ts runs (calls ++ compilePlan tools us) p.workspace)
      fun e p => e.IsOf .compile ∧ p.units = us ∧
        Workspace.HasBegun runs (calls ++ compilePlan tools us) p.workspace := by
  have hpass := @ensures_eachUnit _ (compileShown root tools)
    (fun done rest w => done ++ rest = us ∧
      Workspace.HasMade ts runs (calls ++ compilePlan tools done) w)
    (fun e p => e.IsOf .compile ∧ p.units = us ∧
      Workspace.HasBegun runs (calls ++ compilePlan tools us) p.workspace) ?_
  · refine .followed (.of_get fun p hp => hp) fun p₀ => .bind (ensures_phase
      (fun p c hp => ⟨hp.1, hp.2.shown rfl rfl⟩) (fun _ p c hp => ⟨hp.1, hp.2.shown rfl rfl⟩)
      (hpass.mono (fun p hp => ⟨hp.1, ?_⟩) (fun _ p hp => ?_) fun _ _ => id)) fun _ =>
      .of_pure fun p hp => hp
    · rw [compilePlan, List.map_nil, List.append_nil]
      exact hp.2
    · rcases hp with ⟨hunits, hmade⟩
      rw [List.append_nil] at hunits
      exact ⟨hunits, hunits ▸ hmade⟩
  intro done u rest
  refine .of_each ?_
  rintro d ⟨rfl, hunits, hmade⟩
  have hplain' : d.workspace.tools.FailPlainly := hmade.tools_eq ▸ hplain
  have hdone : ∀ u, compilePlan tools (done ++ [u]) = compilePlan tools done ++
      [Desk.compileCall tools u.settings (Artifacts.beside u.source)] :=
    fun u => List.map_append
  refine (ensures_compileShown (u := d.unit) d.workspace hplain').mono ?_ ?_ ?_
  · rintro _ rfl
    exact ⟨rfl, rfl⟩
  · rintro _ d' ⟨hunit, hcall⟩
    refine ⟨?_, ?_⟩
    · rw [hunit, List.append_assoc, List.singleton_append, hunits]
    · rw [hunit, hdone, ← List.append_assoc]
      exact hmade.attempted hcall
  · rintro e d' ⟨he, hunit, hcall⟩
    rcases hmade.failed (hcall.imp (congrArg Workspace.runs) id) with ⟨new, hruns, hfollows, _⟩
    refine ⟨he, by rw [hunit, hunits], new, hruns, ?_⟩
    -- The other units have not been taken yet.
    have hplan : compilePlan tools us = compilePlan tools (done ++ [d.unit]) ++
        compilePlan tools rest := by
      rw [← hunits, ← List.singleton_append, ← List.append_assoc]
      exact List.map_append
    rw [hplan, hdone, ← List.append_assoc, ← List.append_assoc]
    exact hfollows.append

/-- Phases that succeed carry out the whole plan. -/
theorem completes_of_phasesOf {r : BuildRequest} {start p : Project} {warnings : List Text}
    (hplain : start.workspace.tools.FailPlainly) (h : phasesOf r start = .ok warnings p) :
    ∃ new, p.workspace.runs = start.workspace.runs ++ new ∧ Completes (planOf r p.units) new ∧
      p.units.map TranslationUnit.source = start.units.map TranslationUnit.source ∧
      Ends r start .success ∧ ∃ p₁, writeSources r.root r.toolchain start = .ok () p₁ := by
  rcases phasesOf_eq_ok h with ⟨ws, p₁, p₂, hwrite, hobjects, hprogram⟩
  have hstart : HasMade start.workspace.tools start.workspace.runs
      (start.units.map TranslationUnit.source) [] start :=
    ⟨rfl, rfl, [], (List.append_nil _).symm, .nil⟩
  -- Each phase hands its part of the plan to the next one.
  rcases (ensures_writeSources hplain).ok hstart hwrite with ⟨hsources, hmade₁⟩
  rcases (ensures_makeObjects hplain).ok ⟨rfl, hmade₁⟩ hobjects with ⟨hunits, hmade₂⟩
  rcases (ensures_makeProgram _ p₂.workspace (hmade₂.tools_eq ▸ hplain)).ok
    ⟨rfl, rfl, rfl, rfl⟩ hprogram with ⟨hunits', f, _, hlink⟩
  have hmade₃ := (hmade₂.setFiles f).attempted hlink
  rcases hmade₃.made with ⟨new, hruns, hcompletes⟩
  refine ⟨new, hruns, ?_, ?_, .success hwrite hobjects hprogram, p₁, hwrite⟩
  · rw [planOf_eq, hunits', hunits, hsources]
    rw [hunits] at hcompletes
    exact hcompletes
  · rw [hunits', hunits, hsources]

/-- Phases that fail have begun the plan and have not carried it out. -/
theorem follows_of_phasesOf {r : BuildRequest} {start p : Project} {b : BuildError}
    (hplain : start.workspace.tools.FailPlainly) (h : phasesOf r start = .error (.build b) p) :
    ∃ new, p.workspace.runs = start.workspace.runs ++ new ∧ Follows (planOf r p.units) new ∧
      ¬ Completes (planOf r p.units) new ∧
      p.units.map TranslationUnit.source = start.units.map TranslationUnit.source ∧
      Ends r start b.kind.exitCode ∧
      (∀ run ∈ new, run.call.role = .compile →
        ∃ p₁, writeSources r.root r.toolchain start = .ok () p₁) := by
  have hstart : HasMade start.workspace.tools start.workspace.runs
      (start.units.map TranslationUnit.source) [] start :=
    ⟨rfl, rfl, [], (List.append_nil _).symm, .nil⟩
  have hcalls : callsOf r p.units ≠ [] :=
    List.append_ne_nil_of_right_ne_nil _ (List.cons_ne_nil _ _)
  rcases ends_of_error h with hwrite | ⟨p₁, hwrite, hrest⟩
  · -- Transpiling failed, and the compiler has not been called.
    rcases (ensures_writeSources hplain).error hstart hwrite with
      ⟨hkind, hsources, new, hruns, hfollows⟩
    rw [← hsources] at hfollows
    refine ⟨new, hruns, hfollows.append, hfollows.not_completes hcalls, hsources, ?_, ?_⟩
    · rw [hkind b rfl]
      exact .transpiling hwrite
    · intro run hrun hrole
      have hmem := hfollows.calls_le.subset (List.mem_map_of_mem hrun)
      rw [role_of_mem_transpilePlan hmem] at hrole
      cases hrole
  rcases (ensures_writeSources hplain).ok hstart hwrite with ⟨hsources, hmade₁⟩
  rw [← hsources] at hmade₁ ⊢
  rcases hrest with hobjects | ⟨ws, p₂, hobjects, hprogram⟩
  · rcases (ensures_makeObjects hplain).error ⟨rfl, hmade₁⟩ hobjects with
      ⟨hkind, hunits, new, hruns, hfollows⟩
    rw [planOf_eq, hunits]
    refine ⟨new, hruns, hfollows.append, hfollows.not_completes (List.cons_ne_nil _ _), rfl, ?_,
      fun _ _ _ => ⟨p₁, hwrite⟩⟩
    rw [hkind b rfl]
    exact .compiling hwrite hobjects
  · rcases (ensures_makeObjects hplain).ok ⟨rfl, hmade₁⟩ hobjects with ⟨hunits, hmade₂⟩
    rcases (ensures_makeProgram _ p₂.workspace (hmade₂.tools_eq ▸ hplain)).error
      ⟨rfl, rfl, rfl, rfl⟩ hprogram with ⟨hkind, hunits', hlink⟩
    have hlinked : ∃ new, p.workspace.runs = start.workspace.runs ++ new ∧
        Follows (planOf r p.units) new ∧ ¬ Completes (planOf r p.units) new := by
      rw [planOf_eq, hunits', hunits]
      rw [hunits] at hlink
      rcases hlink with ⟨g, _, hagrees⟩ | ⟨f, _, hcall⟩
      · exact (hmade₂.setFiles g).failed (Or.inl hagrees.runs)
      · exact (hmade₂.setFiles f).failed (Or.inr hcall)
    rcases hlinked with ⟨new, hruns, hfollows, hnot⟩
    refine ⟨new, hruns, hfollows, hnot, by rw [hunits', hunits], ?_, fun _ _ _ => ⟨p₁, hwrite⟩⟩
    rw [hkind b rfl]
    exact .linking hwrite hobjects hprogram

end Project

/-- What a build calls that returns is a beginning of the plan, and a build stops at the first
    failure. Where there is nothing to build, nothing is called. Otherwise the calls are the first
    of the plan for the units of the report, which are in the order of discovery; every call but
    the last went well; the compiler is called only when both passes over the sources are
    finished; the build succeeds exactly if the whole plan was carried out and every call went
    well; and the exit code is that of the first phase that failed. -/
theorem build_follows_plan {r : BuildRequest} {verbose : Bool} {w w' : Workspace}
    {report : BuildReport} (hplain : w.tools.FailPlainly)
    (h : build r verbose w = .ok report w') :
    ∃ runs, w'.runs = w.runs ++ runs ∧ (∀ run ∈ runs.dropLast, run.isOk = true) ∧
      ((report.exitCode = .noSources ∧ report.units = none ∧ runs = [] ∧
          ∀ sources, w.files.sources r.root = .ok sources → sources = []) ∨
        ∃ sources start us, w.files.sources r.root = .ok sources ∧ sources ≠ [] ∧
          start.workspace.files = w.files ∧ start.workspace.tools = w.tools ∧
          start.units = sources.map TranslationUnit.ofSource ∧
          report.units = some us ∧ us.map TranslationUnit.source = sources ∧
          runs.map ToolRun.call <+: planOf r us ∧
          (∀ run ∈ runs, run.call.role = .compile →
            ∃ p, Project.writeSources r.root r.toolchain start = .ok () p) ∧
          (report.isSuccess = true ↔
            runs.map ToolRun.call = planOf r us ∧ ∀ run ∈ runs, run.isOk = true) ∧
          Project.Ends r start report.exitCode) := by
  have hmap : ∀ sources : List Path,
      (sources.map TranslationUnit.ofSource).map TranslationUnit.source = sources := by
    intro sources
    rw [List.map_map]
    exact List.map_id sources
  rcases build_cases h with ⟨hcode, hunits, _, hruns, hnone⟩ |
    ⟨sources, c, ns, hsources, hne, hsuccess | hfailure⟩
  · refine ⟨[], ?_, fun run hrun => absurd hrun List.not_mem_nil,
      Or.inl ⟨hcode, hunits, rfl, hnone⟩⟩
    rw [hruns, List.append_nil]
  · rcases hsuccess with ⟨warnings, p, hphases, hcode, hunits, _, hruns⟩
    rcases Project.completes_of_phasesOf hplain hphases with
      ⟨new, hnew, hcompletes, hsame, hends, hfinished⟩
    refine ⟨new, hruns.trans hnew,
      fun run hrun => hcompletes.isOk run (List.mem_of_mem_dropLast hrun),
      Or.inr ⟨sources, _, p.units, hsources, hne, rfl, rfl, rfl, hunits, hsame.trans (hmap sources),
        hcompletes.calls_eq ▸ List.prefix_rfl, fun _ _ _ => hfinished, ?_, hcode ▸ hends⟩⟩
    refine ⟨fun _ => ⟨hcompletes.calls_eq, hcompletes.isOk⟩, fun _ => ?_⟩
    rw [BuildReport.isSuccess, hcode, decide_eq_true_eq]
  · rcases hfailure with ⟨b, p, hphases, htells, _, hruns⟩
    rcases Project.follows_of_phasesOf hplain hphases with
      ⟨new, hnew, hfollows, hnot, hsame, hends, hfinished⟩
    refine ⟨new, hruns.trans hnew, hfollows.isOk,
      Or.inr ⟨sources, _, p.units, hsources, hne, rfl, rfl, rfl, htells.units,
        hsame.trans (hmap sources), hfollows.calls_le, hfinished, ?_, htells.exitCode ▸ hends⟩⟩
    refine ⟨fun hsuccess => ?_, fun hall => absurd ⟨hall.1, hall.2⟩ hnot⟩
    rw [BuildReport.isSuccess, htells.exitCode, decide_eq_true_eq] at hsuccess
    exact absurd hsuccess (ErrorKind.exitCode_ne_success b.kind)

theorem build_follows_plan_importing : ∃ report w' us,
    importingWorkspace.tools.FailPlainly ∧
    build importingRequest false importingWorkspace = .ok report w' ∧
    report.exitCode = .success ∧ report.units = some us ∧
    us.map TranslationUnit.source = importingSources ∧
    w'.runs.map ToolRun.call = planOf importingRequest us ∧
    ∀ run ∈ w'.runs, run.isOk = true := by
  rcases exists_of_hasBuilt (Bool.and_eq_true_iff.mp hasBuilt_importing).1 with
    ⟨report, hbuild, hsuccess⟩
  have hcode : report.exitCode = .success := of_decide_eq_true hsuccess
  rcases build_follows_plan targetTools_failPlainly hbuild with ⟨runs, hruns, _, hends⟩
  rcases hends with ⟨hnone, _⟩ |
    ⟨sources, start, us, hsources, _, _, _, _, hunits, hmap, _, _, hplan, _⟩
  · rw [hcode] at hnone
    cases hnone
  · -- No tool had been run before.
    have hnew : (workspaceAfter (build importingRequest false importingWorkspace)).runs = runs :=
      hruns
    rw [isProject_importing.discovers, Except.ok.injEq] at hsources
    refine ⟨report, _, us, targetTools_failPlainly, hbuild, hcode, hunits,
      hmap.trans hsources.symm, ?_⟩
    rw [hnew]
    exact hplan.mp hsuccess

end DialectBuild
