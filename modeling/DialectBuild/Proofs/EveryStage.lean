import DialectBuild.Proofs.Leftovers
import DialectBuild.Proofs.Rebuild

/-!
# Stages, However They End

What the first two stages of a unit can have done by the time they end, in success or in failure.
Nearly all of their steps are quiet: they run no tool and touch no files but the unit's own. The
one that is not is the external transpiler, which is run once and may write the unit's C text.

A failure that the build reports is a transpile error which names its stage. It names the unit,
too, once a stage is over, and by then the unit's artifacts have been removed.

## Main definitions

* `Failure.Tells`: A failure that tells its stage and its unit.
* `Workspace.Works`, `Desk.Works`: What work on a unit has come to.
* `Action.Minds`: A quiet step.
* `transpileCalls`: The calls of an external transpiler for a unit.
* `Completes`, `Follows`: Runs that make all of some calls, or the first of them.

## Theorems

* `Desk.ensures_prepare`: The first stage, however it ends.
* `Desk.ensures_finish`: The second stage, however it ends.
-/

namespace DialectBuild

open Files

/-- A failure that, if it is a build error at all, is a transpile error that tells its stage and
    the unit as `named` says. -/
def Failure.Tells (named : Option Path → Prop) (e : Failure) : Prop :=
  ∀ b, e = .build b → b.kind = .transpile ∧ named b.unit ∧
    ∃ stage, b.stage = some stage ∧ stage ≠ []

theorem Failure.IsForeign.tells {e : Failure} (h : e.IsForeign) (named : Option Path → Prop) :
    e.Tells named :=
  fun b hb => absurd hb (h b)

theorem tells_transpileError {named : Option Path → Prop} {stage message : Text}
    {unit : Option Path} {output : Text} (hstage : stage ≠ []) (hunit : named unit) :
    (transpileError stage message unit output).Tells named := by
  intro b hb
  cases hb
  exact ⟨rfl, hunit, stage, rfl, hstage⟩

/-- Runs that make all of some calls, each of which goes well. -/
structure Completes (calls : List ToolCall) (runs : List ToolRun) : Prop where
  /-- The calls are those. -/
  calls_eq : runs.map ToolRun.call = calls
  /-- All of them go well. -/
  isOk : ∀ r ∈ runs, r.isOk = true

/-- Runs that make the first of some calls, each of which but the last goes well. -/
structure Follows (calls : List ToolCall) (runs : List ToolRun) : Prop where
  /-- The calls are the first ones. -/
  calls_le : runs.map ToolRun.call <+: calls
  /-- All of them but the last go well. -/
  isOk : ∀ r ∈ runs.dropLast, r.isOk = true

section Runs

variable {calls more : List ToolCall} {runs runs' : List ToolRun} {run : ToolRun}

theorem Completes.nil : Completes [] [] :=
  ⟨rfl, fun _ hr => absurd hr List.not_mem_nil⟩

theorem Completes.append (h : Completes calls runs) (h' : Completes more runs') :
    Completes (calls ++ more) (runs ++ runs') where
  calls_eq := by rw [List.map_append, h.calls_eq, h'.calls_eq]
  isOk := List.forall_mem_append.mpr ⟨h.isOk, h'.isOk⟩

theorem Completes.follows (h : Completes calls runs) : Follows (calls ++ more) runs where
  calls_le := h.calls_eq ▸ List.prefix_append calls more
  isOk := fun r hr => h.isOk r (List.mem_of_mem_dropLast hr)

theorem follows_nil (calls : List ToolCall) : Follows calls [] :=
  Completes.nil.follows

/-- After calls that all went well, others are made up to a failure. -/
theorem Completes.append_follows (h : Completes calls runs) (h' : Follows more runs') :
    Follows (calls ++ more) (runs ++ runs') where
  calls_le := by
    rw [List.map_append, h.calls_eq]
    exact (List.prefix_append_right_inj calls).mpr h'.calls_le
  isOk := by
    intro r hr
    by_cases hempty : runs' = []
    · rw [hempty, List.append_nil] at hr
      exact h.isOk r (List.mem_of_mem_dropLast hr)
    · rw [List.dropLast_append_of_ne_nil hempty, List.mem_append] at hr
      exact hr.elim (h.isOk r) (h'.isOk r)

theorem Follows.append (h : Follows calls runs) : Follows (calls ++ more) runs :=
  ⟨h.calls_le.trans (List.prefix_append calls more), h.isOk⟩

theorem completes_singleton (h : run.isOk = true) : Completes [run.call] [run] :=
  ⟨rfl, List.forall_mem_singleton.mpr h⟩

theorem follows_singleton (run : ToolRun) : Follows [run.call] [run] :=
  ⟨List.prefix_rfl, fun _ hr => absurd hr List.not_mem_nil⟩

end Runs

/-- The C text of a unit is in its directory. -/
theorem Files.slotOf_code (f : Files) (s : Path) :
    f.slotOf (Artifacts.beside s).code = f.placeOf (Artifacts.beside s).code := by
  have hplace : f.placeOf (Artifacts.beside s).code = _ :=
    placeOf_written (e := ".c") (by decide) f s
  rw [hplace, slotOf, Artifacts.beside, Path.parent_child, Path.name_child]

namespace Workspace

/-- What work on the unit of `s` has come to that began in the workspace `w₀` and has run the
    tools of `runs`. Only the unit's own files have been touched, if the tools did what they were
    asked. -/
structure Works (s : Path) (w₀ : Workspace) (runs : List ToolRun) (w : Workspace) : Prop where
  /-- The tools are the same. -/
  tools : w.tools = w₀.tools
  /-- These runs have been added. -/
  runs_eq : w.runs = w₀.runs ++ runs
  /-- The files of the unit have been touched. -/
  files : w₀.files.Hosts s →
    (∀ r ∈ runs, w₀.tools.WritesOnly r.call (Artifacts.beside s).code) →
    Amends (w₀.files.Stores s) (w₀.files.Borrows s) w₀.files w.files

namespace Works

variable {s : Path} {w₀ w w' : Workspace} {runs : List ToolRun}

theorem refl (s : Path) (w : Workspace) : Works s w [] w :=
  ⟨rfl, (List.append_nil _).symm, fun _ _ => Amends.refl _ _ _⟩

/-- What is shown or noted does not matter. -/
theorem shown (h : Works s w₀ runs w) (htools : w'.tools = w.tools) (hruns : w'.runs = w.runs)
    (hfiles : w'.files = w.files) : Works s w₀ runs w' :=
  ⟨htools.trans h.tools, hruns.trans h.runs_eq, fun hhosts hobey => hfiles ▸ h.files hhosts hobey⟩

/-- Files of the unit are touched. -/
theorem amend (h : Works s w₀ runs w) {f : Files}
    (hstep : w.files.Hosts s → Amends (w.files.Stores s) (w.files.Borrows s) w.files f) :
    Works s w₀ runs { w with files := f } where
  tools := h.tools
  runs_eq := h.runs_eq
  files := by
    intro hhosts hobey
    have hamends := h.files hhosts hobey
    have hmore := hstep (hhosts.amended hamends)
    rw [hamends.changes.stores_eq, hamends.changes.borrows_eq] at hmore
    exact hamends.trans hmore

end Works

/-- A tool was run in the workspace `w`, and `run` tells how. -/
structure Ran (call : ToolCall) (w : Workspace) (run : ToolRun) (w' : Workspace) : Prop where
  /-- The run is of this call. -/
  call_eq : run.call = call
  /-- The tools are the same. -/
  tools : w'.tools = w.tools
  /-- The run has been added. -/
  runs_eq : w'.runs = w.runs ++ [run]
  /-- The files are those that the tool left. -/
  files : w'.files = (w.tools.run call w.files).2

/-- The workspace after a call of a tool. -/
def afterCall (w : Workspace) (call : ToolCall) (ns : List Notice) : Workspace :=
  { w with
    files := (w.tools.run call w.files).2
    notices := ns
    runs := w.runs ++ [⟨call, w.files, (w.tools.run call w.files).1⟩] }

/-- A call leaves a record of what it found and of how it ended. -/
theorem ensures_callTool_record {call : ToolCall} (w : Workspace) :
    Action.Ensures (· = w) (callTool call)
      (fun report w' => ∃ ns toolExit, w' = w.afterCall call ns ∧
        (w.tools.run call w.files).1 = .ok toolExit ∧ report.isOk = (toolExit.status == 0))
      fun e w' => ∃ ns, w' = w.afterCall call ns ∧ (w.tools.run call w.files).1 = .error e := by
  -- A notice may have been given before the tool is run.
  have hrest : Action.Ensures (fun v => ∃ ns, v = { w with notices := ns })
      (do
        modify fun v => { v with
          files := (w.tools.run call w.files).2
          runs := v.runs ++ [⟨call, w.files, (w.tools.run call w.files).1⟩] }
        let toolExit ← Action.ofExcept (w.tools.run call w.files).1
        return { toolExit with command := call.command } : Action Workspace ToolReport)
      (fun report w' => ∃ ns toolExit, w' = w.afterCall call ns ∧
        (w.tools.run call w.files).1 = .ok toolExit ∧ report.isOk = (toolExit.status == 0))
      fun e w' => ∃ ns, w' = w.afterCall call ns ∧ (w.tools.run call w.files).1 = .error e := by
    rintro _ ⟨ns, rfl⟩
    rcases hrun : (w.tools.run call w.files).1 with e | toolExit
    · refine ⟨ns, ?_, rfl⟩
      rw [afterCall, hrun]
    · refine ⟨ns, toolExit, ?_, rfl, rfl⟩
      rw [afterCall, hrun]
  refine .bind (q := fun v w' => w' = w ∧ v = w) (.of_get fun w' hw => ⟨hw, hw⟩)
    fun v => .given ?_
  rintro rfl
  by_cases hannounced : v.tools.announced = true
  · rw [if_pos hannounced]
    refine .bind (q := fun _ w' => ∃ ns, w' = { v with notices := ns }) ?_ fun _ => hrest
    rintro _ rfl
    exact ⟨_, rfl⟩
  · rw [if_neg hannounced]
    refine hrest.mono ?_ (fun _ _ => id) fun _ _ => id
    rintro _ rfl
    exact ⟨_, rfl⟩

/-- A call leaves a record of itself, however it ends. -/
theorem ensures_callTool {call : ToolCall} (w : Workspace) :
    Action.Ensures (· = w) (callTool call)
      (fun report w' => ∃ run, Ran call w run w' ∧ run.isOk = report.isOk)
      fun e w' => (w.tools.run call w.files).1 = .error e ∧
        ∃ run, Ran call w run w' ∧ run.isOk = false := by
  refine (ensures_callTool_record w).mono (fun _ => id) ?_ ?_
  · rintro report _ ⟨ns, toolExit, rfl, hrun, hok⟩
    refine ⟨_, ⟨rfl, rfl, rfl, rfl⟩, ?_⟩
    rw [ToolRun.isOk, hrun, hok]
  · rintro e _ ⟨ns, rfl, hrun⟩
    refine ⟨hrun, _, ⟨rfl, rfl, rfl, rfl⟩, ?_⟩
    rw [ToolRun.isOk, hrun]

/-- A tool has been run for the C text of the unit. -/
theorem Works.ran {s : Path} {w₀ w w' : Workspace} {runs : List ToolRun} {call : ToolCall}
    {run : ToolRun} (h : Works s w₀ runs w) (hran : Ran call w run w') :
    Works s w₀ (runs ++ [run]) w' where
  tools := hran.tools.trans h.tools
  runs_eq := by rw [hran.runs_eq, h.runs_eq, List.append_assoc]
  files := by
    intro hhosts hobey
    rw [List.forall_mem_append, List.forall_mem_singleton] at hobey
    have hamends := h.files hhosts hobey.1
    have hnow := hhosts.amended hamends
    rcases hobey.2 w.files hnow.linkless hnow.sound with ⟨hchanges, hsound⟩
    rw [hran.files, ← hran.call_eq, h.tools]
    -- What the tool wrote is at the place of the C text.
    rw [Files.slotOf_code, hamends.changes.placeOf_eq] at hchanges
    refine hamends.trans ⟨hchanges.mono fun q hq => Or.inl ?_, fun q hq => Or.inl ?_,
      fun _ => hsound⟩
    · exact ⟨_, List.mem_cons_self, hq⟩
    · exact hchanges.outside q fun heq => hq ⟨_, List.mem_cons_self, heq⟩

end Workspace

namespace Action

variable {σ α β : Type} {named : Option Path → Prop} {inv : σ → Prop}

/-- A quiet step: it keeps `inv`, and if it fails with a build error, then with one that names a
    unit as `named` says. -/
def Minds (named : Option Path → Prop) (inv : σ → Prop) (a : Action σ α) : Prop :=
  Ensures inv a (fun _ => inv) fun e x => e.Tells named ∧ inv x

namespace Minds

theorem bind {a : Action σ α} {f : α → Action σ β} (ha : Minds named inv a)
    (hf : ∀ x, Minds named inv (f x)) : Minds named inv (a >>= f) :=
  Ensures.bind ha hf

theorem of_pure (x : α) : Minds named inv (pure x) :=
  fun _ hx => hx

theorem of_throw {e : Failure} (he : e.Tells named) : Minds named inv (throw e : Action σ α) :=
  fun _ hx => ⟨he, hx⟩

theorem of_get : Minds named inv (get : Action σ σ) :=
  fun _ hx => hx

theorem of_except {x : Except Failure α} (h : Outcome.FailsWith Failure.IsForeign x) :
    Minds named inv (ofExcept x) :=
  Ensures.of_except (fun _ _ _ hx => hx) fun e he _ hx => ⟨(h e he).tells named, hx⟩

theorem onOsError {a : Action σ α} {handle : OsError → Action σ α} (ha : Minds named inv a)
    (hhandle : ∀ o, Minds named inv (handle o)) : Minds named inv (a.onOsError handle) :=
  Ensures.onOsError ha (fun o x hx => hhandle o x hx.2) fun _ _ _ hx => hx

/-- A step that is quiet whatever runs there have been. -/
theorem of_exists {γ : Type} {c : γ → Prop} {inv : γ → σ → Prop} {a : Action σ α}
    (h : ∀ y, Minds named (inv y) a) : Minds named (fun x => ∃ y, c y ∧ inv y x) a := by
  refine .of_each ?_
  rintro x ⟨y, hy, hx⟩
  refine (h y).mono (fun x' hx' => hx' ▸ hx) (fun _ x' hx' => ⟨y, hy, hx'⟩) ?_
  exact fun e x' hx' => ⟨hx'.1, y, hy, hx'.2⟩

end Minds

end Action

section Quiet

variable {α : Type} {named : Option Path → Prop} {s : Path} {w₀ : Workspace}
  {runs : List ToolRun}

namespace Workspace

/-- A step on files that touches those of the unit only. -/
theorem minds_liftM {a : FileAction α}
    (h : ∀ f, Action.Ensures (· = f) a
      (fun _ g => f.Hosts s → Amends (f.Stores s) (f.Borrows s) f g)
      fun e g => e.Tells named ∧ (f.Hosts s → Amends (f.Stores s) (f.Borrows s) f g)) :
    Action.Minds named (Works s w₀ runs) (liftM a) := by
  refine ensures_liftM fun w hw => (h w.files).mono (fun _ => id) (fun _ f hf => hw.amend hf) ?_
  exact fun e f hf => ⟨hf.1, hw.amend hf.2⟩

theorem minds_query {q : Files → Except Failure α}
    (hq : ∀ f, Outcome.FailsWith Failure.IsForeign (q f)) :
    Action.Minds named (Works s w₀ runs) (liftM (FileAction.query q)) := by
  refine minds_liftM fun f => (FileAction.ensures_query f).mono (fun _ => id) ?_ ?_
  · rintro _ _ ⟨_, rfl⟩ _
    exact Amends.refl _ _ _
  · rintro e _ ⟨he, rfl⟩
    exact ⟨(hq _ e he).tells named, fun _ => Amends.refl _ _ _⟩

theorem minds_notify (n : Notice) : Action.Minds named (Works s w₀ runs) (notify n) :=
  fun _ hw => hw.shown rfl rfl rfl

theorem minds_notifyAll (ns : List Notice) : Action.Minds named (Works s w₀ runs) (notifyAll ns) :=
  fun _ hw => hw.shown rfl rfl rfl

theorem minds_exportedNoted (t : Text) : Action.Minds named (Works s w₀ runs) (exportedNoted t) :=
  (minds_notify _).bind fun _ => .of_pure _

/-- Writing C text or a header touches files of the unit only. -/
theorem minds_writeAtomic {p : Path} {t : Text}
    (hp : p ∈ [(Artifacts.beside s).code, (Artifacts.beside s).header]) :
    Action.Minds named (Works s w₀ runs) (liftM (writeAtomic p t)) := by
  refine minds_liftM fun f => .intro ?_ ?_
  · rintro _ _ g rfl h hhosts
    exact (hhosts.ensures_writeAtomic hp).ok rfl h
  · rintro _ e g rfl h
    exact ⟨(writeAtomic_foreign.error trivial h).tells named,
      fun hhosts => (hhosts.ensures_writeAtomic hp).error rfl h⟩

theorem minds_storeHeader {ds : List Declaration} {key : Text} (hnone : named none) :
    Action.Minds named (Works s w₀ runs) (storeHeader (Artifacts.beside s).header ds key) := by
  refine (Action.Minds.onOsError (minds_writeAtomic ?_) fun o => ?_).bind fun _ =>
    (minds_notify _).bind fun _ => .of_pure _
  · exact List.mem_cons_of_mem _ (List.mem_singleton_self _)
  · exact .of_throw (tells_transpileError (by decide) hnone)

end Workspace

namespace Desk

/-- What work on the unit of `s` has come to, with that unit on the desk. -/
structure Works (s : Path) (w₀ : Workspace) (runs : List ToolRun) (d : Desk) : Prop where
  /-- The unit is that of the source. -/
  source : d.unit.source = s
  /-- The workspace is what the work has come to. -/
  workspace : Workspace.Works s w₀ runs d.workspace

theorem minds_liftM {a : Action Workspace α}
    (h : Action.Minds named (Workspace.Works s w₀ runs) a) :
    Action.Minds named (Works s w₀ runs) (liftM a) := by
  refine ensures_liftM fun d hd => Action.Ensures.mono h ?_ (fun _ w hw => ⟨hd.source, hw⟩) ?_
  · rintro _ rfl
    exact hd.workspace
  · exact fun e w hw => ⟨hw.1, hd.source, hw.2⟩

/-- The source of the unit stays. -/
theorem minds_amend {f : TranslationUnit → TranslationUnit} {k : Unit → Action Desk α}
    (hk : Action.Minds named (Works s w₀ runs) (k ()))
    (hf : ∀ u, (f u).source = u.source := by exact fun _ => rfl) :
    Action.Minds named (Works s w₀ runs) (amend f >>= k) :=
  Action.Ensures.followed (fun d hd => ⟨(hf d.unit).trans hd.source, hd.workspace⟩) fun _ => hk

/-- The unit on the desk is that of the source. -/
theorem ensures_unitOf {k : TranslationUnit → Action Desk α} {post : α → Desk → Prop}
    {fail : Failure → Desk → Prop}
    (hk : ∀ u, u.source = s → Action.Ensures (Works s w₀ runs) (k u) post fail) :
    Action.Ensures (Works s w₀ runs) (unitOf >>= k) post fail := by
  refine .bind (q := fun u d => Works s w₀ runs d ∧ u.source = s) ?_
    fun u => .given fun hu => hk u hu
  exact fun d hd => ⟨hd, hd.source⟩

theorem minds_unitOf {k : TranslationUnit → Action Desk α}
    (hk : ∀ u, u.source = s → Action.Minds named (Works s w₀ runs) (k u)) :
    Action.Minds named (Works s w₀ runs) (unitOf >>= k) :=
  ensures_unitOf hk

/-- The artifacts are those of the source. -/
theorem ensures_artifacts {k : Artifacts → Action Desk α} {post : α → Desk → Prop}
    {fail : Failure → Desk → Prop}
    (hk : Action.Ensures (Works s w₀ runs) (k (Artifacts.beside s)) post fail)
    (hfail : ∀ e d, e.IsForeign → Works s w₀ runs d → fail e d) :
    Action.Ensures (Works s w₀ runs) (artifacts >>= k) post fail := by
  refine .bind (q := fun a d => Works s w₀ runs d ∧ a = Artifacts.beside s) ?_
    fun a => .given fun ha => ha ▸ hk
  refine ensures_unitOf fun u hu => .of_except (fun a ha d hd => ⟨hd, ?_⟩) fun e he d hd => ?_
  · rw [Artifacts.eq_beside ha, hu]
  · exact hfail e d (Artifacts.ofSource_foreign e he) hd

theorem minds_artifacts {k : Artifacts → Action Desk α}
    (hk : Action.Minds named (Works s w₀ runs) (k (Artifacts.beside s))) :
    Action.Minds named (Works s w₀ runs) (artifacts >>= k) :=
  ensures_artifacts hk fun _ _ he hd => ⟨he.tells named, hd⟩

theorem minds_readSource (hsome : named (some s)) :
    Action.Minds named (Works s w₀ runs) readSource := by
  refine minds_unitOf fun u hu => .onOsError ?_ fun o => .of_throw ?_
  · exact minds_liftM (Workspace.minds_query fun f => Files.text_foreign)
  · exact tells_transpileError (by decide) (hu ▸ hsome)

theorem minds_writeCode {stage : Text} (hstage : stage ≠ []) (hsome : named (some s)) :
    Action.Minds named (Works s w₀ runs) (writeCode stage) := by
  refine minds_unitOf fun u hu => minds_artifacts (.onOsError ?_ fun o => .of_throw ?_)
  · exact minds_liftM (Workspace.minds_writeAtomic List.mem_cons_self)
  · exact tells_transpileError hstage (hu ▸ hsome)

theorem minds_exportHeader (root : Path) (hnone : named none) :
    Action.Minds named (Works s w₀ runs) (exportHeader root) := by
  refine minds_unitOf fun u _ => (minds_liftM (Workspace.minds_exportedNoted _)).bind fun ds => ?_
  refine minds_amend (minds_artifacts ?_)
  exact (minds_liftM (Workspace.minds_storeHeader hnone)).bind fun _ => .of_pure _

theorem minds_expandMarkers (hsome : named (some s)) :
    Action.Minds named (Works s w₀ runs) expandMarkers := by
  refine minds_unitOf fun u hu => ?_
  -- A unit that is resolved already is left alone.
  by_cases hresolved : u.importsResolved = true
  · rw [if_pos hresolved]
    exact .of_pure _
  · rw [if_neg hresolved]
    refine Action.Minds.of_get.bind fun d =>
      (minds_liftM (Workspace.minds_notifyAll _)).bind fun _ => ?_
    rcases hfailure : (Expansion.ofText d.workspace.files u.directory u.text).failure with _ | e
    · dsimp only
      refine minds_amend ?_
      exact (minds_liftM (Workspace.minds_notifyAll _)).bind fun _ =>
        minds_unitOf fun _ _ => .of_pure _
    · have hforeign := Expansion.foreign_of_failure hfailure
      cases e with
      | os o => exact .of_throw (tells_transpileError (by decide) (hu ▸ hsome))
      | _ => exact .of_throw (hforeign.tells named)

theorem minds_inject (sources : List Path) :
    Action.Minds named (Works s w₀ runs) (inject sources) := by
  refine minds_unitOf fun u hu => ?_
  by_cases hinjected : u.siblingsInjected = true
  · rw [if_pos hinjected]
    exact .of_pure _
  · rw [if_neg hinjected]
    refine (Action.Minds.of_except headersBeside_foreign).bind fun siblings =>
      minds_amend (minds_artifacts (Action.Minds.of_get.bind fun d => ?_))
    refine (Action.Minds.of_except Injection.ofText_foreign).bind fun i => ?_
    have hrest : Action.Minds named (Works s w₀ runs) (do
        amend fun u => { u with text := i.text, siblingsInjected := true }
        Workspace.notify (.debug .siblings
          (u.source.text ++ ": injected " ++ Text.ofNat i.added.length ++ " include(s)"))
        return i.added : Action Desk (List Path)) :=
      minds_amend ((minds_liftM (Workspace.minds_notify _)).bind fun _ => .of_pure _)
    -- What the text exports is looked at again only if the own header was missing.
    by_cases hown : i.added.contains (Artifacts.beside s).header = true
    · rw [if_pos hown]
      exact (minds_liftM (Workspace.minds_exportedNoted _)).bind fun _ => hrest
    · rw [if_neg hown]
      exact hrest

/-- Removing an artifact touches files of the unit only. -/
theorem minds_unlink {p : Path} (hp : p ∈ (Artifacts.beside s).toList) :
    Action.Minds named (Works s w₀ runs)
      (liftM (liftM (FileAction.change (·.unlinkIfPresent p)) : Action Workspace Unit)) := by
  refine minds_liftM (Workspace.minds_liftM fun f => .intro ?_ ?_)
  · rintro _ _ g rfl h hhosts
    exact ((hhosts.ensures_unlink hp).ok rfl h).1.mono (fun _ => False.elim) fun _ => Or.inl
  · rintro _ e g rfl h
    have hfail := (FileAction.ensures_change _).error rfl h
    refine ⟨(unlinkIfPresent_foreign e hfail.1).tells named, fun _ => ?_⟩
    rw [hfail.2]
    exact Amends.refl _ _ _

end Desk

end Quiet

/-- Tools that cannot be run for other reasons than those of the build. -/
def Tools.FailPlainly (tools : Tools) : Prop :=
  ∀ call f, Outcome.FailsWith Failure.IsForeign (tools.run call f).1

theorem targetTools_failPlainly : targetTools.FailPlainly := by
  intro call f e he
  rw [targetTools] at he
  dsimp only at he
  split at he
  all_goals cases he

/-- The calls of an external transpiler for the unit of a source, if there is one. -/
def transpileCalls (tools : Toolchain) (s : Path) : List ToolCall :=
  match tools.transpiler with
  | none => []
  | some command => [Desk.transpileCall command s (Artifacts.beside s)]

namespace Desk

/-- Work on the unit of `s` that has made all of some calls, and well. -/
def HasDone (calls : List ToolCall) (s : Path) (w₀ : Workspace) (d : Desk) : Prop :=
  ∃ runs, Completes calls runs ∧ Works s w₀ runs d

/-- Work on the unit of `s` that has made the first of some calls. -/
def HasTried (calls : List ToolCall) (s : Path) (w₀ : Workspace) (d : Desk) : Prop :=
  ∃ runs, Follows calls runs ∧ Works s w₀ runs d

theorem HasDone.tried {calls : List ToolCall} {s : Path} {w₀ : Workspace} {d : Desk}
    (h : HasDone calls s w₀ d) : HasTried calls s w₀ d := by
  rcases h with ⟨runs, hruns, hworks⟩
  refine ⟨runs, ?_, hworks⟩
  have hfollows : Follows (calls ++ []) runs := hruns.follows
  rw [List.append_nil] at hfollows
  exact hfollows

section Stages

variable {named : Option Path → Prop} {s : Path} {w₀ : Workspace}

/-- An external transpiler is run once. -/
theorem ensures_runTranspiler {command : List Text} (htools : w₀.tools.FailPlainly)
    (hsome : named (some s)) :
    Action.Ensures (Works s w₀ []) (runTranspiler command)
      (fun _ => HasDone [transpileCall command s (Artifacts.beside s)] s w₀)
      fun e d => e.Tells named ∧
        HasTried [transpileCall command s (Artifacts.beside s)] s w₀ d := by
  have hcall : Action.Ensures (Works s w₀ [])
      (liftM (Workspace.callTool (transpileCall command s (Artifacts.beside s))) :
        Action Desk ToolReport)
      (fun report d => ∃ run, run.isOk = report.isOk ∧
        run.call = transpileCall command s (Artifacts.beside s) ∧ Works s w₀ [run] d)
      fun e d => e.IsForeign ∧ HasTried [transpileCall command s (Artifacts.beside s)] s w₀ d := by
    refine ensures_liftM fun d hd => (Workspace.ensures_callTool d.workspace).mono (fun _ => id)
      ?_ ?_
    · rintro report w ⟨run, hran, hok⟩
      exact ⟨run, hok, hran.call_eq, hd.source, hd.workspace.ran hran⟩
    · rintro e w ⟨he, run, hran, _⟩
      refine ⟨?_, [run], hran.call_eq ▸ follows_singleton run, hd.source, hd.workspace.ran hran⟩
      rw [hd.workspace.tools] at he
      exact htools _ _ e he
  refine ensures_unitOf fun u hu => ensures_artifacts ?_ fun e d he hd =>
    ⟨he.tells named, [], follows_nil _, hd⟩
  subst hu
  refine .bind (.onOsError hcall (fun o => .of_throw fun d hd => ⟨?_, hd.2⟩)
    fun e d _ hd => ⟨hd.1.tells _, hd.2⟩) fun report => ?_
  · exact tells_transpileError (by decide) hsome
  -- From here on the run is known, and all that follows is quiet.
  refine .of_each ?_
  rintro d ⟨run, hok, hrun, hworks⟩
  have hfollows := follows_singleton run
  rw [hrun] at hfollows
  by_cases hfailed : (!report.isOk) = true
  · rw [if_pos hfailed]
    have hunlink : Action.Minds named (Works u.source w₀ [run])
        (liftM (FileAction.change (·.unlinkIfPresent (Artifacts.beside u.source).code)) :
          Action Desk PUnit) := minds_unlink List.mem_cons_self
    refine .bind (hunlink.mono (fun d' hd' => hd' ▸ hworks) (fun _ _ => id)
      fun e d' hd' => ⟨hd'.1, [run], hfollows, hd'.2⟩) fun _ => .of_throw_bind ?_
    exact fun d' hd' => ⟨tells_transpileError (by decide) hsome, [run], hfollows, hd'⟩
  · rw [if_neg hfailed]
    have hcompletes : Completes [run.call] [run] := completes_singleton ?_
    · rw [hrun] at hcompletes
      have hread : Action.Minds named (Works u.source w₀ [run]) (Action.onOsError
          (liftM (FileAction.query (·.text (Artifacts.beside u.source).code)) : Action Desk Text)
          fun e => throw (transpileError "transpile"
            ("Transpiler produced no output: " ++ e.message) u.source)) :=
        .onOsError (minds_liftM (Workspace.minds_query fun f => text_foreign)) fun o =>
          .of_throw (tells_transpileError (by decide) hsome)
      exact hread.mono (fun d' hd' => hd' ▸ hworks) (fun _ d' hd' => ⟨[run], hcompletes, hd'⟩)
        fun e d' hd' => ⟨hd'.1, [run], hfollows, hd'.2⟩
    · rw [hok]
      simpa only [Bool.not_eq_true', Bool.not_eq_false] using hfailed

/-- A quiet step before any call. -/
theorem minds_tried {α : Type} {a : Action Desk α} (calls : List ToolCall)
    (h : Action.Minds named (Works s w₀ []) a) :
    Action.Ensures (Works s w₀ []) a (fun _ => Works s w₀ [])
      fun e d => e.Tells named ∧ HasTried calls s w₀ d :=
  h.mono (fun _ => id) (fun _ _ => id) fun _ _ hd => ⟨hd.1, [], follows_nil _, hd.2⟩

/-- A quiet step after all calls. -/
theorem minds_done {α : Type} {a : Action Desk α} {calls : List ToolCall}
    (h : ∀ runs, Action.Minds named (Works s w₀ runs) a) :
    Action.Ensures (HasDone calls s w₀) a (fun _ => HasDone calls s w₀)
      fun e d => e.Tells named ∧ HasTried calls s w₀ d :=
  (Action.Minds.of_exists h).mono (fun _ => id) (fun _ _ => id) fun _ _ hd =>
    ⟨hd.1, HasDone.tried hd.2⟩

/-- Reading and transpiling a source, however it ends. -/
theorem ensures_transpile {tools : Toolchain} (htools : w₀.tools.FailPlainly)
    (hsome : named (some s)) :
    Action.Ensures (Works s w₀ []) (transpile tools)
      (fun _ => HasDone (transpileCalls tools s) s w₀)
      fun e d => e.Tells named ∧ HasTried (transpileCalls tools s) s w₀ d := by
  refine .bind (minds_tried _ (minds_readSource hsome)) fun raw => ?_
  refine .followed (fun d hd => ⟨hd.source, hd.workspace⟩) fun _ => ?_
  lift_lets
  intro rest
  -- Whatever comes after the external transpiler is quiet.
  have hrest : ∀ staged, Action.Ensures (HasDone (transpileCalls tools s) s w₀) (rest staged)
      (fun _ => HasDone (transpileCalls tools s) s w₀)
      fun e d => e.Tells named ∧ HasTried (transpileCalls tools s) s w₀ d := by
    refine fun staged => minds_done fun runs => minds_amend ?_
    refine (minds_writeCode (by decide) hsome).bind fun _ => minds_unitOf fun u _ => ?_
    exact (minds_liftM (Workspace.minds_notify _)).bind fun _ => .of_pure _
  rcases htranspiler : tools.transpiler with _ | command
  · have hcalls : transpileCalls tools s = [] := by
      rw [transpileCalls, htranspiler]
    rw [hcalls] at hrest ⊢
    exact .bind (.of_pure fun d hd => ⟨[], .nil, hd⟩) hrest
  · have hcalls : transpileCalls tools s = [transpileCall command s (Artifacts.beside s)] := by
      rw [transpileCalls, htranspiler]
    rw [hcalls] at hrest ⊢
    exact .bind (ensures_runTranspiler htools hsome) hrest

end Stages

end Desk

/-- In what work on the unit of `s` has come to, there is no file at any of some paths that is not
    stuck, if the tools did what they were asked. -/
def Workspace.HasCleared (s : Path) (w₀ : Workspace) (runs : List ToolRun) (paths : List Path)
    (w : Workspace) : Prop :=
  w₀.files.Hosts s → (∀ r ∈ runs, w₀.tools.WritesOnly r.call (Artifacts.beside s).code) →
    ∀ p ∈ paths, ∀ b, w.files.tree.find? (w.files.placeOf p) = some (.file b) → w.files.IsStuck p

namespace Desk

/-- Work on the unit of `s` that has failed after the first of some calls. Where the build reports
    it, the unit is named and none of its artifacts is left that could be removed. -/
structure HasFailed (calls : List ToolCall) (s : Path) (w₀ : Workspace) (e : Failure)
    (runs : List ToolRun) (d : Desk) : Prop where
  /-- The unit is named. -/
  tells : e.Tells (· = some s)
  /-- The first calls have been made. -/
  follows : Follows calls runs
  /-- Only the unit's own files have been touched. -/
  works : Works s w₀ runs d
  /-- None of its artifacts is left that could be removed. -/
  cleared : ∀ b, e = .build b →
    Workspace.HasCleared s w₀ runs (Artifacts.beside s).toList d.workspace

section Discarding

variable {s : Path} {w₀ : Workspace} {runs : List ToolRun}

/-- Removing one artifact leaves no file there that could be removed and brings none back
    elsewhere. -/
theorem ensures_discardArtifact {p : Path} {done : List Path}
    (hdone : ∀ q ∈ done, q ∈ (Artifacts.beside s).toList)
    (hp : p ∈ (Artifacts.beside s).toList) :
    Action.Ensures
      (fun w => Workspace.Works s w₀ runs w ∧ Workspace.HasCleared s w₀ runs done w)
      (discardArtifact p)
      (fun _ w => Workspace.Works s w₀ runs w ∧ Workspace.HasCleared s w₀ runs (done ++ [p]) w)
      fun e w => e.IsForeign ∧ Workspace.Works s w₀ runs w := by
  -- One more file is gone, and those before it have not come back.
  have hremoved : ∀ {w : Workspace} {g : Files}, Workspace.Works s w₀ runs w →
      Workspace.HasCleared s w₀ runs done w →
      (w.files.Hosts s → Amends (fun _ => False) (w.files.Stores s) w.files g ∧
        ∀ b, g.tree.find? (g.placeOf p) = some (.file b) → g.IsStuck p) →
      Workspace.Works s w₀ runs { w with files := g } ∧
        Workspace.HasCleared s w₀ runs (done ++ [p]) { w with files := g } := by
    intro w g hworks hnone hstep
    refine ⟨hworks.amend fun hhosts =>
      (hstep hhosts).1.mono (fun _ => False.elim) fun _ => Or.inl, fun hhosts hobey => ?_⟩
    have hnow := hhosts.amended (hworks.files hhosts hobey)
    rcases hstep hnow with ⟨hamends, hfile⟩
    rw [List.forall_mem_append, List.forall_mem_singleton]
    refine ⟨fun q hq b hb => ?_, hfile⟩
    rcases hamends.exists_file hnow.linkless hb with ⟨c, hc⟩
    have halike := hamends.changes.alike hnow.linkless
    rw [halike.placeOf_eq] at hc
    exact halike.isStuck (endsPlain_of_mem_artifacts (hdone q hq)) (hnone hhosts hobey q hq c hc)
  refine .onOsError (q := fun e w => e.IsForeign ∧ Workspace.Works s w₀ runs w ∧
    Workspace.HasCleared s w₀ runs (done ++ [p]) w) ?_
    (fun o w hw => ⟨hw.2.1.shown rfl rfl rfl, hw.2.2⟩) fun e w _ hw => ⟨hw.1, hw.2.1⟩
  refine Workspace.ensures_liftM fun w hw => .intro ?_ ?_
  · rintro _ _ g rfl h
    exact hremoved hw.1 hw.2 fun hhosts => (hhosts.ensures_unlink hp).ok rfl h
  · rintro _ e g rfl h
    refine ⟨?_, hremoved hw.1 hw.2 fun hhosts => (hhosts.ensures_unlink hp).error rfl h⟩
    exact unlinkIfPresent_foreign e ((FileAction.ensures_change _).error rfl h).1

/-- Removing all artifacts leaves none of them that could be removed. -/
theorem ensures_discardArtifacts :
    Action.Ensures (Works s w₀ runs) discardArtifacts
      (fun _ d => Works s w₀ runs d ∧
        Workspace.HasCleared s w₀ runs (Artifacts.beside s).toList d.workspace)
      fun e d => e.IsForeign ∧ Works s w₀ runs d := by
  refine ensures_artifacts ?_ fun e d he hd => ⟨he, hd⟩
  -- The loop keeps that every path it has passed holds no file that could be removed.
  refine .bind ((Action.Ensures.forIn (fun done d => Works s w₀ runs d ∧
    Workspace.HasCleared s w₀ runs done d.workspace) ?_).mono (fun d hd => ⟨hd, ?_⟩)
    (fun _ _ => id) fun _ _ => id) fun _ => .of_pure fun d hd => hd
  · intro done p rest hl
    have hp : p ∈ (Artifacts.beside s).toList := by
      rw [hl]
      exact List.mem_append_right done List.mem_cons_self
    have hdone : ∀ q ∈ done, q ∈ (Artifacts.beside s).toList := by
      rw [hl]
      exact fun q hq => List.mem_append_left _ hq
    refine ensures_liftM fun d hd => (ensures_discardArtifact hdone hp).mono ?_
      (fun _ w hw => ⟨⟨hd.1.source, hw.1⟩, hw.2⟩) fun e w hw => ⟨hw.1, hd.1.source, hw.2⟩
    rintro _ rfl
    exact ⟨hd.1.workspace, hd.2⟩
  · exact fun _ _ p hp => absurd hp List.not_mem_nil

end Discarding

section Stages

variable {s : Path} {w₀ : Workspace}

/-- The first stage, however it ends. -/
theorem ensures_prepare {root : Path} {tools : Toolchain} (htools : w₀.tools.FailPlainly) :
    Action.Ensures (Works s w₀ []) (prepare root tools)
      (fun _ => HasDone (transpileCalls tools s) s w₀)
      fun e d => ∃ runs, HasFailed (transpileCalls tools s) s w₀ e runs d := by
  have hstage : Action.Ensures (Works s w₀ []) (do
      let _ ← transpile tools
      exportHeader root) (fun _ => HasDone (transpileCalls tools s) s w₀)
      fun e d => e.Tells (fun unit => unit.getD s = s) ∧
        HasTried (transpileCalls tools s) s w₀ d :=
    .bind (ensures_transpile htools rfl) fun _ => minds_done fun _ => minds_exportHeader root rfl
  refine hstage.onBuildError (fun b => ?_) fun e d hforeign hd => ?_
  · -- The artifacts are removed, and then the unit is named.
    refine .of_each ?_
    rintro d ⟨htells, runs, hfollows, hworks⟩
    rcases htells b rfl with ⟨hkind, hunit, hstage⟩
    refine .bind (ensures_discardArtifacts.mono (fun d' hd' => hd' ▸ hworks) (fun _ _ => id)
      fun e d' hd' => ?_) fun _ => ?_
    · exact ⟨runs, hd'.1.tells _, hfollows, hd'.2, fun b hb => absurd hb (hd'.1 b)⟩
    · rintro d' ⟨hworks', hcleared⟩
      refine ⟨runs, ?_, hfollows, hworks', fun _ _ => hcleared⟩
      rintro _ ⟨rfl⟩
      refine ⟨hkind, ?_, hstage⟩
      dsimp only
      rw [hworks'.source, hunit]
  · rcases hd.2 with ⟨runs, hfollows, hworks⟩
    exact ⟨runs, fun b hb => absurd hb (hforeign b), hfollows, hworks,
      fun b hb => absurd hb (hforeign b)⟩

/-- The second stage, however it ends. -/
theorem ensures_finish {sources : List Path} :
    Action.Ensures (Works s w₀ []) (finish sources) (fun _ => Works s w₀ [])
      fun e d => HasFailed [] s w₀ e [] d := by
  have hstage : Action.Minds (· = some s) (Works s w₀ []) (do
      let _ ← expandMarkers
      let _ ← inject sources
      writeCode "includes") := by
    have hsome : (fun unit => unit = some s) (some s) := rfl
    exact .bind (minds_expandMarkers hsome) fun _ => .bind (minds_inject sources) fun _ =>
      minds_writeCode (by decide) hsome
  -- A failure of the build discards the artifacts and is thrown again; a foreign one passes by.
  refine Action.Ensures.onBuildError hstage (fun b => .bind (q := fun _ d =>
    (Works s w₀ [] d ∧ Workspace.HasCleared s w₀ [] (Artifacts.beside s).toList d.workspace) ∧
      (Failure.build b).Tells (· = some s)) (.of_each fun d hd => ?_) fun _ => .of_throw ?_) ?_
  · refine ensures_discardArtifacts.mono (fun d' hd' => hd' ▸ hd.2) (fun _ d' hd' => ⟨hd', hd.1⟩) ?_
    exact fun e d' hd' => ⟨hd'.1.tells _, follows_nil _, hd'.2, fun b hb => absurd hb (hd'.1 b)⟩
  · exact fun d hd => ⟨hd.2, follows_nil _, hd.1.1, fun _ _ => hd.1.2⟩
  · exact fun e d hforeign hd => ⟨hd.1, follows_nil _, hd.2, fun b hb => absurd hb (hforeign b)⟩

end Stages

end Desk

namespace Project

/-- Preparing the unit on a desk, however it ends. -/
theorem ensures_prepareShown {root : Path} {tools : Toolchain} (d : Desk)
    (htools : d.workspace.tools.FailPlainly) :
    Action.Ensures (· = d) (prepareShown root tools)
      (fun _ => Desk.HasDone (transpileCalls tools d.unit.source) d.unit.source d.workspace)
      fun e d' => ∃ runs, Desk.HasFailed (transpileCalls tools d.unit.source) d.unit.source
        d.workspace e runs d' := by
  refine .bind ((Desk.ensures_prepare htools).mono ?_ (fun _ _ => id) fun _ _ => id) fun _ => ?_
  · rintro _ rfl
    exact ⟨rfl, Workspace.Works.refl _ _⟩
  · rintro d' ⟨runs, hcompletes, hworks⟩
    exact ⟨runs, hcompletes, hworks.source, hworks.workspace.shown rfl rfl rfl⟩

/-- Finishing the unit on a desk, however it ends. -/
theorem ensures_finishShown {root : Path} {sources : List Path} (d : Desk) :
    Action.Ensures (· = d) (finishShown root sources)
      (fun _ => Desk.Works d.unit.source d.workspace [])
      fun e d' => Desk.HasFailed [] d.unit.source d.workspace e [] d' := by
  refine .bind (Desk.ensures_finish.mono ?_ (fun _ _ => id) fun _ _ => id) fun _ =>
    .bind (q := fun _ => Desk.Works d.unit.source d.workspace []) (fun d hd => hd) fun u => ?_
  · rintro _ rfl
    exact ⟨rfl, Workspace.Works.refl _ _⟩
  refine .bind (Action.Ensures.forIn (fun _ => Desk.Works d.unit.source d.workspace []) ?_)
    fun _ => .of_pure fun d hd => hd
  exact fun done i rest _ d hd => ⟨hd.source, hd.workspace.shown rfl rfl rfl⟩

end Project

end DialectBuild
