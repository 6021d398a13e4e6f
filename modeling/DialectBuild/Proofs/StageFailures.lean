import DialectBuild.Proofs.EveryBuild
import DialectBuild.Proofs.Refusals

/-!
# How the Stages of a Unit Fail

Each step of a stage has a handler that turns an error of the file system into a build error,
which tells the stage and the unit. What no handler is made for gets out, and there are few ways
in which this can happen: a tool cannot be run for an odd reason, an external transpiler fails and
what is in place of its C text cannot be removed, or a unit mentions a path that makes no sense.

For each step it is shown that it fails in no other way. At the same time, this keeps track of the
tools: until the units are compiled, no tool but the external transpiler is called. Both are
properties of a step that hold however it ends, so they can be followed through a stage together.

## Main definitions

* `Failure.IsTold`: A build error that tells its stage and its unit.
* `Workspace.Escapes`: The ways in which a failure gets out of a build.
* `Action.Keeps`: A step that keeps an invariant and fails only as is allowed.
* `Workspace.Tries`, `Desk.Tries`: Only the external transpiler has been called.
* `Desk.Allows`: The failures of work on a unit.

## Theorems

* `Action.Keeps.reported`: What a handler of errors of the file system comes to.
* `Desk.keeps_runTranspiler`: How an external transpiler fails.
* `Desk.keeps_prepare`, `Desk.keeps_finish`: How the first two stages fail.
-/

namespace DialectBuild

open Outcome Failure

/-- A build error of one kind that tells its stage, and its unit as `named` says. -/
def Failure.IsTold (k : ErrorKind) (named : Option Path → Prop) (e : Failure) : Prop :=
  ∃ b, e = .build b ∧ b.kind = k ∧ named b.unit ∧ ∃ stage, b.stage = some stage ∧ stage ≠ []

theorem isTold_transpileError {named : Option Path → Prop} {stage message : Text}
    {unit : Option Path} {output : Text} (hstage : stage ≠ []) (hunit : named unit) :
    (transpileError stage message unit output).IsTold .transpile named :=
  ⟨_, rfl, rfl, hunit, stage, rfl, hstage⟩

/-- How a failure gets out of a build of units whose program is to be at `output`. -/
inductive Workspace.Escapes (output : Path) (us : List TranslationUnit) (w : Workspace)
    (e : Failure) : Prop where
  /-- The last tool could not be run, for a reason that is not expected of it. -/
  | tool {run : ToolRun} (hlast : w.runs.getLast? = some run) (h : run.outcome = .error e)
      (hforeign : e.IsForeign) (hrefusal : ¬ e.IsRefusal)
      (hlimit : run.call.role ≠ .transpile → ∀ command seconds, e ≠ .timeout command seconds)
  /-- The external transpiler failed, and what is in place of the C text cannot be removed. -/
  | removal {run : ToolRun} {toolExit : ToolExit} {u : TranslationUnit} (hu : u ∈ us)
      (hlast : w.runs.getLast? = some run) (hrole : run.call.role = .transpile)
      (hexit : run.outcome = .ok toolExit) (hstatus : toolExit.status ≠ 0)
      (h : w.files.unlinkIfPresent (Artifacts.beside u.source).code = .error e)
  /-- A unit mentions a path that makes no sense. -/
  | path {u : TranslationUnit} {p : Path} (hu : u ∈ us) (hp : u.Mentions p)
      (h : w.files.resolve p = .error e)
  /-- The path of the directory for the program makes no sense. -/
  | output (hclear : ¬ output.parent.IsClear) (h : w.files.mkdirs output.parent = .error e)

namespace Workspace.Escapes

variable {output : Path} {us us' : List TranslationUnit} {w : Workspace} {e : Failure}

theorem isForeign (h : Escapes output us w e) : e.IsForeign := by
  cases h with
  | tool _ _ hforeign _ _ => exact hforeign
  | removal _ _ _ _ _ h => exact Files.unlinkIfPresent_foreign e h
  | path _ _ h => exact Files.resolve_foreign e h
  | output _ h =>
      rcases Files.mkdirs_eq_error_iff.mp h with ⟨g, hg⟩
      exact FileAction.ensures_mkdirs_foreign.error trivial hg

theorem mono (h : Escapes output us w e) (hus : ∀ u ∈ us, u ∈ us') : Escapes output us' w e := by
  cases h with
  | tool hlast h hforeign hrefusal hlimit => exact .tool hlast h hforeign hrefusal hlimit
  | removal hu hlast hrole hexit hstatus h =>
      exact .removal (hus _ hu) hlast hrole hexit hstatus h
  | path hu hp h => exact .path (hus _ hu) hp h
  | output hclear h => exact .output hclear h

end Workspace.Escapes

namespace Action

variable {σ α β : Type} {inv : σ → Prop} {allowed allowed' : Failure → σ → Prop}

/-- A step that keeps `inv` and fails only as is allowed. -/
def Keeps (inv : σ → Prop) (allowed : Failure → σ → Prop) (a : Action σ α) : Prop :=
  Ensures inv a (fun _ => inv) fun e x => inv x ∧ allowed e x

namespace Keeps

theorem bind {a : Action σ α} {f : α → Action σ β} (ha : Keeps inv allowed a)
    (hf : ∀ x, Keeps inv allowed (f x)) : Keeps inv allowed (a >>= f) :=
  Ensures.bind ha hf

theorem of_pure (x : α) : Keeps inv allowed (pure x) :=
  fun _ hx => hx

theorem of_throw {e : Failure} (he : ∀ x, inv x → allowed e x) :
    Keeps inv allowed (throw e : Action σ α) :=
  fun x hx => ⟨hx, he x hx⟩

theorem mono {a : Action σ α} (ha : Keeps inv allowed a)
    (h : ∀ e x, inv x → allowed e x → allowed' e x) : Keeps inv allowed' a :=
  Ensures.mono ha (fun _ => id) (fun _ _ => id) fun e x hx => ⟨hx.1, h e x hx.1 hx.2⟩

/-- A step that keeps `inv` may be followed from one state. -/
theorem from_state {a : Action σ α} (ha : Keeps inv allowed a) {x : σ} (hx : inv x) :
    Ensures (· = x) a (fun _ => inv) fun e x => inv x ∧ allowed e x :=
  Ensures.mono ha (fun _ hy => hy ▸ hx) (fun _ _ => id) fun _ _ => id

/-- A step that is refused at worst, with a handler that gives a failure of its own. -/
theorem reported {a : Action σ α} {message : OsError → Failure}
    (ha : Keeps inv (fun e _ => e.IsRefusal) a) (h : ∀ o x, inv x → allowed (message o) x) :
    Keeps inv allowed (a.onOsError fun o => throw (message o)) := by
  refine Ensures.onOsError ha (fun o => .of_throw fun x hx => ⟨hx.1, h o x hx.1⟩) ?_
  rintro e x hnot ⟨_, o, rfl⟩
  exact absurd rfl (hnot o)

end Keeps

end Action

/-- The tools are the same, and none has been called. -/
structure Workspace.SameCalls (w w' : Workspace) : Prop where
  /-- The tools are the same. -/
  tools : w'.tools = w.tools
  /-- The runs are the same. -/
  runs : w'.runs = w.runs

/-- The tools are `ts`, and none but the external transpiler has been called since there were only
    `runs`. -/
structure Workspace.Tries (ts : Tools) (runs : List ToolRun) (w : Workspace) : Prop where
  /-- The tools are these. -/
  tools : w.tools = ts
  /-- Only the external transpiler has been called. -/
  runs_eq : ∃ new, w.runs = runs ++ new ∧ ∀ run ∈ new, run.call.role = .transpile

theorem Workspace.Tries.shown {ts : Tools} {runs : List ToolRun} {w w' : Workspace}
    (h : Tries ts runs w) (hw : w.SameCalls w') : Tries ts runs w' :=
  ⟨hw.tools.trans h.tools, hw.runs ▸ h.runs_eq⟩

/-- A step on files calls no tool. -/
theorem Workspace.ensures_files {α : Type} {a : FileAction α} {P : Failure → Prop} {w : Workspace}
    (h : Action.Ensures (fun _ => True) a (fun _ _ => True) fun e _ => P e) :
    Action.Ensures (· = w) (liftM a : Action Workspace α) (fun _ => w.SameCalls)
      fun e w' => w.SameCalls w' ∧ P e := by
  refine ensures_liftM ?_
  rintro _ rfl
  exact h.mono (fun _ _ => trivial) (fun _ f _ => ⟨rfl, rfl⟩) fun e f he => ⟨⟨rfl, rfl⟩, he⟩

namespace Desk

/-- Work on the unit of `s` before any compiler is called. -/
structure Tries (s : Path) (ts : Tools) (runs : List ToolRun) (d : Desk) : Prop where
  /-- The unit is that of the source. -/
  source : d.unit.source = s
  /-- No compiler has been called. -/
  workspace : d.workspace.Tries ts runs

/-- The failures that work on a unit may end with: those that are told, and those that get out. -/
def Allows (output : Path) (k : ErrorKind) (named : Option Path → Prop) (e : Failure) (d : Desk) :
    Prop :=
  d.workspace.tools.FailPlainly →
    e.IsTold k named ∨ d.workspace.Escapes output [d.unit] e

section Quiet

variable {α : Type} {s : Path} {ts : Tools} {runs : List ToolRun} {output : Path} {k : ErrorKind}
  {named : Option Path → Prop} {allowed : Failure → Desk → Prop}

theorem allows_of_isTold {e : Failure} {d : Desk} (h : e.IsTold k named) :
    Allows output k named e d :=
  fun _ => Or.inl h

/-- What is done to files, shown or noted does not matter. -/
theorem Tries.shown {d : Desk} (h : Tries s ts runs d) {w : Workspace}
    (hw : d.workspace.SameCalls w) : Tries s ts runs { d with workspace := w } :=
  ⟨h.source, h.workspace.shown hw⟩

theorem keeps_liftM {a : Action Workspace α} {P : Failure → Prop}
    (h : ∀ w, Action.Ensures (· = w) a (fun _ => w.SameCalls) fun e w' => w.SameCalls w' ∧ P e) :
    Action.Keeps (Tries s ts runs) (fun e _ => P e) (liftM a : Action Desk α) :=
  ensures_liftM fun d hd => (h d.workspace).mono (fun _ => id) (fun _ _ hw => hd.shown hw)
    fun _ _ hw => ⟨hd.shown hw.1, hw.2⟩

theorem keeps_files {a : FileAction α} {P : Failure → Prop}
    (h : Action.Ensures (fun _ => True) a (fun _ _ => True) fun e _ => P e) :
    Action.Keeps (Tries s ts runs) (fun e _ => P e)
      (liftM (liftM a : Action Workspace α) : Action Desk α) :=
  keeps_liftM fun _ => Workspace.ensures_files h

theorem keeps_query {q : Files → Except Failure α} {P : Failure → Prop}
    (h : ∀ f, FailsWith P (q f)) :
    Action.Keeps (Tries s ts runs) (fun e _ => P e)
      (liftM (liftM (FileAction.query q) : Action Workspace α) : Action Desk α) :=
  keeps_files (.of_each fun f _ => (FileAction.ensures_query f).mono (fun _ => id)
    (fun _ _ _ => trivial) fun e _ he => h f e he.1)

theorem keeps_notifyAll (ns : List Notice) : Action.Keeps (Tries s ts runs) allowed
    (liftM (Workspace.notifyAll ns) : Action Desk Unit) :=
  fun _ hd => hd.shown ⟨rfl, rfl⟩

theorem keeps_notify (n : Notice) : Action.Keeps (Tries s ts runs) allowed
    (liftM (Workspace.notify n) : Action Desk Unit) :=
  fun _ hd => hd.shown ⟨rfl, rfl⟩

theorem keeps_exportedNoted (t : Text) : Action.Keeps (Tries s ts runs) allowed
    (liftM (exportedNoted t) : Action Desk (List Declaration)) :=
  fun _ hd => hd.shown ⟨rfl, rfl⟩

/-- The source of the unit stays. -/
theorem keeps_amend {f : TranslationUnit → TranslationUnit} {k : Unit → Action Desk α}
    (hk : Action.Keeps (Tries s ts runs) allowed (k ()))
    (hf : ∀ u, (f u).source = u.source := by exact fun _ => rfl) :
    Action.Keeps (Tries s ts runs) allowed (amend f >>= k) :=
  Action.Ensures.followed (fun d hd => ⟨(hf d.unit).trans hd.source, hd.workspace⟩)
    fun _ => hk

theorem keeps_unitOf {f : TranslationUnit → Action Desk α}
    (hf : ∀ u, u.source = s → Action.Keeps (Tries s ts runs) allowed (f u)) :
    Action.Keeps (Tries s ts runs) allowed (unitOf >>= f) := by
  refine Action.Ensures.bind (q := fun u d => Tries s ts runs d ∧ u.source = s) ?_
    fun u => .given fun hu => hf u hu
  exact fun d hd => ⟨hd, hd.source⟩

/-- The artifacts of a source that has a name can be asked for. -/
theorem keeps_artifacts (hname : s.parts ≠ []) {f : Artifacts → Action Desk α}
    (hf : Action.Keeps (Tries s ts runs) allowed (f (Artifacts.beside s))) :
    Action.Keeps (Tries s ts runs) allowed (artifacts >>= f) := by
  refine Action.Ensures.bind (q := fun a d => Tries s ts runs d ∧ a = Artifacts.beside s) ?_
    fun a => .given fun ha => ha ▸ hf
  have hartifacts : Artifacts.ofSource s = .ok (Artifacts.beside s) :=
    Artifacts.ofSource_eq_ok_iff.mpr ⟨hname, rfl⟩
  intro d hd
  have hfound : artifacts d = .ok (Artifacts.beside s) d :=
    artifacts_eq_ok_iff.mpr ⟨hd.source ▸ hartifacts, rfl⟩
  rw [hfound]
  exact ⟨hd, rfl⟩

end Quiet

section Stages

variable {s : Path} {ts : Tools} {runs : List ToolRun} {output : Path}
  {named : Option Path → Prop}

theorem keeps_readSource (hclear : s.IsClear) (hsome : named (some s)) :
    Action.Keeps (Tries s ts runs) (Allows output .transpile named) readSource := by
  refine keeps_unitOf fun u hu => .reported ?_ fun o d _ => allows_of_isTold ?_
  · exact keeps_query fun f => Files.text_refusal (hu ▸ hclear)
  · exact isTold_transpileError (by decide) (hu ▸ hsome)

theorem keeps_writeCode (hclear : s.IsClear) (hname : s.parts ≠ []) {stage : Text}
    (hstage : stage ≠ []) (hsome : named (some s)) :
    Action.Keeps (Tries s ts runs) (Allows output .transpile named) (writeCode stage) := by
  refine keeps_unitOf fun u hu => keeps_artifacts hname
    (.reported ?_ fun o d _ => allows_of_isTold ?_)
  · exact keeps_files (ensures_writeAtomic_refusal (hclear.beside _ List.mem_cons_self)
      (List.append_ne_nil_of_right_ne_nil _ (List.cons_ne_nil _ _)))
  · exact isTold_transpileError hstage (hu ▸ hsome)

theorem keeps_exportHeader (hclear : s.IsClear) (hname : s.parts ≠ []) (root : Path)
    (hnone : named none) :
    Action.Keeps (Tries s ts runs) (Allows output .transpile named) (exportHeader root) := by
  have hheader : (Artifacts.beside s).header.IsClear :=
    hclear.beside _ (List.mem_cons_of_mem _ List.mem_cons_self)
  refine keeps_unitOf fun u _ => (keeps_exportedNoted _).bind fun ds => keeps_amend
    (keeps_artifacts hname (.bind (.mono (keeps_liftM fun w => ?_)
      fun e d _ he => allows_of_isTold he) fun _ => .of_pure _))
  -- Only the write can fail, and its refusal is told as an error of the transpiler.
  refine .bind (q := fun _ => w.SameCalls)
    (.onOsError (q := fun e w' => w.SameCalls w' ∧ e.IsRefusal)
    (Workspace.ensures_files (ensures_writeAtomic_refusal hheader
      (List.append_ne_nil_of_right_ne_nil _ (List.cons_ne_nil _ _))))
    (fun o => .of_throw fun w' hw => ⟨hw.1, isTold_transpileError (by decide) hnone⟩) ?_)
    fun _ => .bind (q := fun _ => w.SameCalls) (fun w' hw => ⟨hw.tools, hw.runs⟩)
      fun _ => .of_pure fun w' hw => hw
  rintro e w' hnot ⟨_, o, rfl⟩
  exact absurd rfl (hnot o)

/-- A call of the external transpiler, which may end in any way. -/
theorem ensures_transpileCall {command : List Text} {a : Artifacts} :
    Action.Ensures (Tries s ts runs)
      (liftM (Workspace.callTool (transpileCall command s a)) : Action Desk ToolReport)
      (fun report d => Tries s ts runs d ∧ ∃ run toolExit, d.workspace.runs.getLast? = some run ∧
        run.call.role = .transpile ∧ run.outcome = .ok toolExit ∧
        report.isOk = (toolExit.status == 0))
      fun e d => Tries s ts runs d ∧ (d.workspace.tools.FailPlainly → e.IsForeign) ∧
        ∃ run, d.workspace.runs.getLast? = some run ∧ run.call.role = .transpile ∧
          run.outcome = .error e := by
  -- A call adds one run, and it is one of the transpiler.
  have htries : ∀ {d : Desk} {ns : List Notice}, Tries s ts runs d →
      Tries s ts runs ⟨d.workspace.afterCall (transpileCall command s a) ns, d.unit⟩ := by
    intro d ns hd
    rcases hd.workspace.runs_eq with ⟨new, hnew, hroles⟩
    refine ⟨hd.source, hd.workspace.tools,
      new ++ [⟨transpileCall command s a, d.workspace.files, _⟩],
      (congrArg (· ++ _) hnew).trans (List.append_assoc _ _ _), ?_⟩
    exact List.forall_mem_append.mpr ⟨hroles, List.forall_mem_singleton.mpr rfl⟩
  refine ensures_liftM fun d hd => (Workspace.ensures_callTool_record d.workspace).mono
    (fun _ => id) ?_ ?_
  · rintro report _ ⟨ns, toolExit, rfl, hrun, hok⟩
    exact ⟨htries hd, _, toolExit, List.getLast?_concat, rfl, hrun, hok⟩
  · rintro e _ ⟨ns, rfl, hrun⟩
    exact ⟨htries hd, fun hplain => hplain _ _ e hrun, _, List.getLast?_concat, rfl, hrun⟩

/-- The external transpiler can fail in three ways that are told, and in two that are not. -/
theorem keeps_runTranspiler (hclear : s.IsClear) (hname : s.parts ≠ []) {command : List Text}
    (hsome : named (some s)) :
    Action.Keeps (Tries s ts runs) (Allows output .transpile named) (runTranspiler command) := by
  refine keeps_unitOf fun u hu => keeps_artifacts hname ?_
  subst hu
  have hcode : (Artifacts.beside u.source).code.IsClear := hclear.beside _ List.mem_cons_self
  refine Action.Ensures.bind (ensures_transpileCall.onOsError (fun o => .of_throw fun d hd =>
    ⟨hd.1, allows_of_isTold (isTold_transpileError (by decide) hsome)⟩) ?_) fun report => ?_
  · -- A transpiler that cannot be run is reported only if an error of the system says so.
    rintro e d hnot ⟨hd, hforeign, run, hlast, hrole, hrun⟩
    refine ⟨hd, fun hplain => Or.inr (.tool hlast hrun (hforeign hplain) ?_ ?_)⟩
    · rintro ⟨o, rfl⟩
      exact hnot o rfl
    · exact fun hother => absurd hrole hother
  refine .of_each ?_
  rintro d ⟨hd, run, toolExit, hlast, hrole, hexit, hok⟩
  by_cases hfailed : (!report.isOk) = true
  · rw [if_pos hfailed]
    have hstatus : toolExit.status ≠ 0 := by
      rw [hok, Bool.not_eq_true', beq_eq_false_iff_ne] at hfailed
      exact hfailed
    -- What is in place of the C text is removed without a handler.
    refine .bind (q := fun _ => Tries u.source ts runs) (ensures_liftM ?_)
      fun _ => .of_throw_bind fun d' hd' =>
        ⟨hd', allows_of_isTold (isTold_transpileError (by decide) hsome)⟩
    rintro _ rfl
    refine Workspace.ensures_liftM ?_
    rintro _ rfl
    refine (FileAction.ensures_change _).mono (fun _ => id) (fun _ f _ => hd.shown ⟨rfl, rfl⟩) ?_
    rintro e _ ⟨he, rfl⟩
    exact ⟨hd, fun _ => Or.inr (.removal (List.mem_singleton_self _) hlast hrole hexit hstatus
      (hd.source ▸ he))⟩
  · rw [if_neg hfailed]
    have hread : Action.Keeps (Tries u.source ts runs) (Allows output .transpile named)
        (Action.onOsError
          (liftM (FileAction.query (·.text (Artifacts.beside u.source).code)) : Action Desk Text)
          fun e => throw (transpileError "transpile"
            ("Transpiler produced no output: " ++ e.message) u.source)) :=
      .reported (keeps_query fun f => Files.text_refusal hcode)
        fun o d _ => allows_of_isTold (isTold_transpileError (by decide) hsome)
    exact hread.from_state hd

/-- Reading and transpiling a source. -/
theorem keeps_transpile (hclear : s.IsClear) (hname : s.parts ≠ []) {tools : Toolchain}
    (hsome : named (some s)) :
    Action.Keeps (Tries s ts runs) (Allows output .transpile named) (transpile tools) := by
  refine (keeps_readSource hclear hsome).bind fun raw => keeps_amend ?_
  -- What follows is the same whether there is an external transpiler or not.
  lift_lets
  intro rest
  have hrest : ∀ staged, Action.Keeps (Tries s ts runs) (Allows output .transpile named)
      (rest staged) :=
    fun staged => keeps_amend ((keeps_writeCode hclear hname (by decide) hsome).bind fun _ =>
      keeps_unitOf fun u _ => (keeps_notify _).bind fun _ => .of_pure _)
  rcases tools.transpiler with _ | command
  · exact (Action.Keeps.of_pure raw).bind hrest
  · exact (keeps_runTranspiler hclear hname hsome).bind hrest

/-- Removing artifacts does not fail: what is refused is noted. -/
theorem keeps_discardArtifacts {allowed : Failure → Desk → Prop} (hclear : s.IsClear)
    (hname : s.parts ≠ []) : Action.Keeps (Tries s ts runs) allowed discardArtifacts := by
  -- Discarding never fails, so any failure may be allowed.
  suffices h : Action.Keeps (Tries s ts runs) (fun _ _ => False) discardArtifacts from
    h.mono fun _ _ _ hfalse => hfalse.elim
  have hdiscard : ∀ (p : Path) (w : Workspace), p.IsClear → Action.Ensures (· = w)
      (discardArtifact p) (fun _ => w.SameCalls) fun _ w' => w.SameCalls w' ∧ False := by
    intro p w hp
    refine .onOsError (q := fun e w' => w.SameCalls w' ∧ e.IsRefusal) (Workspace.ensures_files
      (.of_each fun f _ => (FileAction.ensures_change f).mono (fun _ => id) (fun _ _ _ => trivial)
        fun e _ he => Files.unlinkIfPresent_refusal hp e he.1))
      (fun o w' hw => ⟨hw.1.tools, hw.1.runs⟩) ?_
    rintro e w' hnot ⟨_, o, rfl⟩
    exact absurd rfl (hnot o)
  refine keeps_artifacts hname (.bind (Action.Ensures.forIn (fun _ => Tries s ts runs) ?_)
    fun _ => .of_pure _)
  intro done p rest hl
  have hp : p ∈ (Artifacts.beside s).toList := by
    rw [hl]
    exact List.mem_append_right done List.mem_cons_self
  exact keeps_liftM fun w => hdiscard p w (hclear.beside p hp)

/-- The first stage. -/
theorem keeps_prepare (hclear : s.IsClear) (hname : s.parts ≠ []) {root : Path}
    {tools : Toolchain} :
    Action.Keeps (Tries s ts runs) (Allows output .transpile (· = some s))
      (prepare root tools) := by
  have hstage : Action.Keeps (Tries s ts runs)
      (Allows output .transpile fun unit => unit.getD s = s) (do
        let _ ← transpile tools
        exportHeader root) :=
    .bind (keeps_transpile hclear hname rfl) fun _ => keeps_exportHeader hclear hname root rfl
  refine Action.Ensures.onBuildError hstage (fun b => .of_each ?_) ?_
  · -- The artifacts are removed, and then the unit is named.
    rintro d ⟨hd, hallows⟩
    refine .bind ((keeps_discardArtifacts hclear hname).from_state hd) fun _ => ?_
    refine keeps_unitOf fun u hu => .of_throw fun d' hd' hplain => ?_
    rw [hd'.workspace.tools, ← hd.workspace.tools] at hplain
    rcases hallows hplain with ⟨_, ⟨rfl⟩, hkind, hunit, hstage⟩ | hescapes
    · refine Or.inl ⟨_, rfl, hkind, ?_, hstage⟩
      dsimp only
      rw [hu, hunit]
    · exact absurd rfl (hescapes.isForeign b)
  · rintro e d hforeign ⟨hd, hallows⟩
    refine ⟨hd, fun hplain => (hallows hplain).imp ?_ id⟩
    rintro ⟨b, rfl, _⟩
    exact absurd rfl (hforeign b)

/-- Expanding imports fails because a directory cannot be read, which is told, or at a path that
    makes no sense. -/
theorem keeps_expandMarkers (hsome : named (some s)) :
    Action.Keeps (Tries s ts runs) (Allows output .transpile named) expandMarkers := by
  refine Action.Ensures.of_each fun d hd => ?_
  refine .bind (q := fun u d' => d' = d ∧ u = d.unit) ?_ fun u => .given ?_
  · rintro _ rfl
    exact ⟨rfl, rfl⟩
  rintro rfl
  by_cases hresolved : d.unit.importsResolved = true
  · rw [if_pos hresolved]
    exact .of_pure fun d' hd' => hd' ▸ hd
  rw [if_neg hresolved]
  refine .bind (q := fun d₀ d' => d' = d ∧ d₀ = d) (.of_get fun d' hd' => ⟨hd', hd'⟩)
    fun d₀ => .given ?_
  rintro rfl
  -- Notices change neither the unit nor the files.
  refine .bind (q := fun _ d' => Tries s ts runs d' ∧ d'.unit = d₀.unit ∧
    d'.workspace.files = d₀.workspace.files) ?_ fun _ => ?_
  · rintro _ rfl
    exact ⟨hd.shown ⟨rfl, rfl⟩, rfl, rfl⟩
  rcases hfailure : (Expansion.ofText d₀.workspace.files d₀.unit.directory d₀.unit.text).failure
    with _ | e
  · dsimp only
    have hexpanded : Action.Keeps (Tries s ts runs) (Allows output .transpile named) (do
        amend (·.withExpansion
          (Expansion.ofText d₀.workspace.files d₀.unit.directory d₀.unit.text))
        Workspace.notifyAll ((Expansion.ofText d₀.workspace.files d₀.unit.directory
          d₀.unit.text).imports.map fun i => .debug .imports
            (d₀.unit.source.text ++ ": import \"" ++ i.modulePath ++ "\" -> " ++
              Text.ofNat i.headers.length ++ " header(s)"))
        return (← unitOf).imports : Action Desk (List (Text × Import))) :=
      keeps_amend ((keeps_notifyAll _).bind fun _ => keeps_unitOf fun _ _ => .of_pure _)
    exact Action.Ensures.mono hexpanded (fun d' hd' => hd'.1) (fun _ _ => id) fun _ _ => id
  · have hescapes : ∀ d' : Desk, d'.unit = d₀.unit → d'.workspace.files = d₀.workspace.files →
        (∀ o, e ≠ .os o) → d'.workspace.Escapes output [d'.unit] e := by
      intro d' hunit hfiles hnot
      rcases TranslationUnit.mentions_of_expansion hfailure with ⟨o, ho⟩ | ⟨p, hp, hresolve⟩
      · exact absurd ho (hnot o)
      · rw [← hfiles] at hresolve
        exact .path (List.mem_singleton_self _) (hunit ▸ hp) hresolve
    cases e with
    | os o =>
        exact .of_throw fun d' hd' => ⟨hd'.1, allows_of_isTold
          (isTold_transpileError (by decide) (hd.source ▸ hsome))⟩
    | _ =>
        exact .of_throw fun d' hd' => ⟨hd'.1, fun _ => Or.inr
          (hescapes d' hd'.2.1 hd'.2.2 fun o ho => by cases ho)⟩

/-- Adding includes fails only at a path that makes no sense. -/
theorem keeps_inject (hname : s.parts ≠ []) {sources : List Path}
    (hnames : ∀ s ∈ sources, s.parts ≠ []) :
    Action.Keeps (Tries s ts runs) (Allows output .transpile named) (inject sources) := by
  refine Action.Ensures.of_each fun d hd => ?_
  refine .bind (q := fun u d' => d' = d ∧ u = d.unit) ?_ fun u => .given ?_
  · rintro _ rfl
    exact ⟨rfl, rfl⟩
  rintro rfl
  by_cases hinjected : d.unit.siblingsInjected = true
  · rw [if_pos hinjected]
    exact .of_pure fun d' hd' => hd' ▸ hd
  rw [if_neg hinjected]
  rcases exists_headersBeside d.unit.source fun s hs _ => hnames s hs with ⟨siblings, hsiblings⟩
  rw [hsiblings]
  refine .bind (q := fun xs d' => d' = d ∧ xs = siblings) (.of_pure fun d' hd' => ⟨hd', rfl⟩)
    fun xs => .given ?_
  rintro rfl
  -- From here on the unit knows the headers beside it.
  have hd₁ : Tries s ts runs { d with unit := { d.unit with siblings := xs } } :=
    ⟨hd.source, hd.workspace⟩
  refine .bind (q := fun _ d' => d' = { d with unit := { d.unit with siblings := xs } }) ?_
    fun _ => ?_
  · rintro _ rfl
    rfl
  refine .bind (q := fun a d' => d' = { d with unit := { d.unit with siblings := xs } } ∧
    a = Artifacts.beside d.unit.source) ?_ fun a => .given ?_
  · rintro _ rfl
    rw [artifacts_eq_ok_iff.mpr ⟨Artifacts.ofSource_eq_ok_iff.mpr ⟨hd₁.source ▸ hname, rfl⟩, rfl⟩]
    exact ⟨rfl, rfl⟩
  rintro rfl
  refine .bind (q := fun d₂ d' => d' = { d with unit := { d.unit with siblings := xs } } ∧ d₂ = d')
    (.of_get fun d' hd' => ⟨hd', rfl⟩) fun d₂ => ?_
  refine .bind (q := fun _ => Tries s ts runs) (.of_except ?_ ?_) fun i => ?_
  · rintro i _ _ ⟨rfl, _⟩
    exact hd₁
  · rintro e he _ ⟨rfl, rfl⟩
    rcases TranslationUnit.mentions_of_injection (u := { d.unit with siblings := xs }) he with
      ⟨p, hp, hresolve⟩
    exact ⟨hd₁, fun _ => Or.inr (.path (List.mem_singleton_self _) hp hresolve)⟩
  have hrest : Action.Keeps (Tries s ts runs) (Allows output .transpile named) (do
      amend fun u => { u with text := i.text, siblingsInjected := true }
      Workspace.notify (.debug .siblings
        (d.unit.source.text ++ ": injected " ++ Text.ofNat i.added.length ++ " include(s)"))
      return i.added : Action Desk (List Path)) :=
    keeps_amend ((keeps_notify _).bind fun _ => .of_pure _)
  by_cases hown : i.added.contains (Artifacts.beside d.unit.source).header = true
  · rw [if_pos hown]
    exact (keeps_exportedNoted _).bind fun _ => hrest
  · rw [if_neg hown]
    exact hrest

/-- The second stage. -/
theorem keeps_finish (hclear : s.IsClear) (hname : s.parts ≠ []) {sources : List Path}
    (hnames : ∀ s ∈ sources, s.parts ≠ []) :
    Action.Keeps (Tries s ts runs) (Allows output .transpile (· = some s)) (finish sources) := by
  have hsome : (fun unit => unit = some s) (some s) := rfl
  have hstage : Action.Keeps (Tries s ts runs) (Allows output .transpile (· = some s)) (do
      let _ ← expandMarkers
      let _ ← inject sources
      writeCode "includes") :=
    .bind (keeps_expandMarkers hsome) fun _ => .bind (keeps_inject hname hnames) fun _ =>
      keeps_writeCode hclear hname (by decide) hsome
  refine Action.Ensures.onBuildError hstage (fun b => .of_each ?_) fun e d _ hd => hd
  -- The artifacts are removed, and the error is passed on as it is.
  rintro d ⟨hd, hallows⟩
  refine .bind ((keeps_discardArtifacts hclear hname).from_state hd) fun _ =>
    .of_throw fun d' hd' => ⟨hd', fun hplain => ?_⟩
  rw [hd'.workspace.tools, ← hd.workspace.tools] at hplain
  rcases hallows hplain with htold | hescapes
  · exact Or.inl htold
  · exact absurd rfl (hescapes.isForeign b)

end Stages

end Desk

end DialectBuild
