import DialectBuild.Proofs.Naming
import DialectBuild.Unit.Stage

/-!
# Work on One Unit

What the steps at a desk do when they succeed. Each step is taken apart into what it asks of
the files, what it writes and what the unit learns, so that the stages of a unit can be
followed without looking into the actions they are made of.

Notices are of no concern here: that some are given is said by leaving the workspace open
where only they can have changed.

## Main definitions

* `Desk.transpileCall`: The call that asks a transpiler for the code of a unit.
* `Desk.Transpiles`: What becomes of a unit when its source is taken or transpiled.

## Theorems

* `Desk.inject_eq_ok`, `Desk.exists_inject`: Adding the includes that a unit lacks.
* `Desk.transpile_eq_ok`: Taking or transpiling a source.
* `Desk.prepare_eq_ok`: The first stage of a unit.
* `Desk.finish_eq_ok`: The second stage of a unit.
* `Desk.exists_prepare`, `Desk.exists_finish`: When the two stages succeed.
-/

namespace DialectBuild

namespace Workspace

variable {α : Type} {w w' : Workspace}

theorem liftM_eq_ok_iff {a : FileAction α} {x : α} :
    (liftM a : Action Workspace α) w = .ok x w' ↔
      ∃ f, a w.files = .ok x f ∧ w' = { w with files := f } := by
  have hlift : (liftM a : Action Workspace α) w = onFiles a w := rfl
  rw [hlift, onFiles]
  rcases a w.files with ⟨y, f⟩ | ⟨e, f⟩
  · constructor
    · rintro ⟨rfl, rfl⟩
      exact ⟨f, rfl, rfl⟩
    · rintro ⟨_, ⟨rfl, rfl⟩, rfl⟩
      rfl
  · refine ⟨fun h => (by cases h), ?_⟩
    rintro ⟨_, h, _⟩
    cases h

theorem notifyAll_eq_ok_iff {ns : List Notice} {u : Unit} :
    notifyAll ns w = .ok u w' ↔ { w with notices := w.notices ++ ns } = w' :=
  Action.modify_eq_ok_iff

theorem notify_eq_ok_iff {n : Notice} {u : Unit} :
    notify n w = .ok u w' ↔ { w with notices := w.notices ++ [n] } = w' :=
  Action.modify_eq_ok_iff

end Workspace

namespace Desk

variable {α : Type} {d d' : Desk}

theorem liftM_eq_ok_iff {a : Action Workspace α} {x : α} :
    (liftM a : Action Desk α) d = .ok x d' ↔
      ∃ w, a d.workspace = .ok x w ∧ d' = { d with workspace := w } := by
  have hlift : (liftM a : Action Desk α) d = onWorkspace a d := rfl
  rw [hlift, onWorkspace]
  rcases a d.workspace with ⟨y, w⟩ | ⟨e, w⟩
  · constructor
    · rintro ⟨rfl, rfl⟩
      exact ⟨w, rfl, rfl⟩
    · rintro ⟨_, ⟨rfl, rfl⟩, rfl⟩
      rfl
  · refine ⟨fun h => (by cases h), ?_⟩
    rintro ⟨_, h, _⟩
    cases h

theorem unitOf_eq_ok_iff {u : TranslationUnit} : unitOf d = .ok u d' ↔ d.unit = u ∧ d = d' := by
  simp only [unitOf, Action.bind_eq_ok_iff, Action.get_eq_ok_iff, Action.pure_eq_ok_iff]
  constructor
  · rintro ⟨_, _, ⟨rfl, rfl⟩, h⟩
    exact h
  · exact fun h => ⟨d, d, ⟨rfl, rfl⟩, h⟩

theorem amend_eq_ok_iff {f : TranslationUnit → TranslationUnit} {u : Unit} :
    amend f d = .ok u d' ↔ { d with unit := f d.unit } = d' :=
  Action.modify_eq_ok_iff

theorem artifacts_eq_ok_iff {a : Artifacts} :
    artifacts d = .ok a d' ↔ Artifacts.ofSource d.unit.source = .ok a ∧ d = d' := by
  simp only [artifacts, Action.bind_eq_ok_iff, unitOf_eq_ok_iff, Action.ofExcept_eq_ok_iff]
  constructor
  · rintro ⟨_, _, ⟨rfl, rfl⟩, h⟩
    exact h
  · exact fun h => ⟨d.unit, d, ⟨rfl, rfl⟩, h⟩

/-- Adding the includes that a unit lacks: the headers beside its own are found, and the text
    is given the includes. No file changes. -/
theorem inject_eq_ok {sources added : List Path} (hfresh : d.unit.siblingsInjected = false)
    (h : inject sources d = .ok added d') : ∃ siblings a i ns,
      headersBeside d.unit.source sources = .ok siblings ∧
      Artifacts.ofSource d.unit.source = .ok a ∧
      Injection.ofText d.workspace.files d.unit.directory a.header siblings d.unit.text = .ok i ∧
      added = i.added ∧
      d' = ⟨{ d.workspace with notices := ns },
        { d.unit with siblings := siblings, text := i.text, siblingsInjected := true }⟩ := by
  simp only [inject, Action.bind_eq_ok_iff, unitOf_eq_ok_iff] at h
  rcases h with ⟨_, _, ⟨rfl, rfl⟩, h⟩
  rw [hfresh, if_neg Bool.false_ne_true] at h
  simp only [Action.bind_eq_ok_iff, Action.ofExcept_eq_ok_iff, amend_eq_ok_iff,
    artifacts_eq_ok_iff, Action.get_eq_ok_iff] at h
  rcases h with ⟨siblings, _, ⟨hs, rfl⟩, _, _, rfl, a, _, ⟨ha, rfl⟩, _, _, ⟨rfl, rfl⟩, i, _,
    ⟨hi, rfl⟩, h⟩
  refine ⟨siblings, a, i, ?_⟩
  -- What the text exports is looked at again only if the own header was missing.
  by_cases hown : i.added.contains a.header = true
  · rw [if_pos hown] at h
    simp only [Action.bind_eq_ok_iff, amend_eq_ok_iff, liftM_eq_ok_iff, exportedNoted,
      Workspace.notify_eq_ok_iff, Action.pure_eq_ok_iff] at h
    rcases h with ⟨_, _, ⟨_, ⟨_, _, rfl, _, rfl⟩, rfl⟩, _, _, rfl, _, _, ⟨_, rfl, rfl⟩, rfl, rfl⟩
    exact ⟨_, hs, ha, hi, rfl, rfl⟩
  · rw [if_neg hown] at h
    simp only [Action.bind_eq_ok_iff, amend_eq_ok_iff, liftM_eq_ok_iff,
      Workspace.notify_eq_ok_iff, Action.pure_eq_ok_iff] at h
    rcases h with ⟨_, _, rfl, _, _, ⟨_, rfl, rfl⟩, rfl, rfl⟩
    exact ⟨_, hs, ha, hi, rfl, rfl⟩

/-- If the headers and the text with its includes are known, adding them succeeds. -/
theorem exists_inject {sources siblings : List Path} {a : Artifacts} {i : Injection}
    (hfresh : d.unit.siblingsInjected = false)
    (hs : headersBeside d.unit.source sources = .ok siblings)
    (ha : Artifacts.ofSource d.unit.source = .ok a)
    (hi : Injection.ofText d.workspace.files d.unit.directory a.header siblings d.unit.text =
      .ok i) : ∃ d', inject sources d = .ok i.added d' ∧ d'.unit.text = i.text := by
  -- Each step before the text is made succeeds, and leaves all but the headers as it was.
  have hunit : unitOf d = .ok d.unit d := rfl
  have hbeside : (Action.ofExcept (headersBeside d.unit.source sources) : Action Desk _) d =
      .ok siblings d := Action.ofExcept_eq_ok_iff.mpr ⟨hs, rfl⟩
  have hamend : amend (fun u => { u with siblings := siblings }) d =
      .ok () { d with unit := { d.unit with siblings := siblings } } := rfl
  have hplaces : artifacts { d with unit := { d.unit with siblings := siblings } } =
      .ok a { d with unit := { d.unit with siblings := siblings } } :=
    artifacts_eq_ok_iff.mpr ⟨ha, rfl⟩
  have hget : ∀ d₁ : Desk, (get : Action Desk Desk) d₁ = .ok d₁ d₁ := fun _ => rfl
  have hmade : ∀ d₁ : Desk, (Action.ofExcept (Injection.ofText d.workspace.files d.unit.directory
      a.header siblings d.unit.text) : Action Desk _) d₁ = .ok i d₁ :=
    fun _ => Action.ofExcept_eq_ok_iff.mpr ⟨hi, rfl⟩
  rw [inject, Action.bind_of_ok hunit, hfresh, if_neg Bool.false_ne_true,
    Action.bind_of_ok hbeside, Action.bind_of_ok hamend, Action.bind_of_ok hplaces,
    Action.bind_of_ok (hget _), Action.bind_of_ok (hmade _)]
  by_cases hown : i.added.contains a.header = true
  · rw [if_pos hown]
    exact ⟨_, rfl, rfl⟩
  · rw [if_neg hown]
    exact ⟨_, rfl, rfl⟩

theorem liftFiles_eq_ok_iff {a : FileAction α} {x : α} :
    (liftM a : Action Desk α) d = .ok x d' ↔ ∃ f, a d.workspace.files = .ok x f ∧
      d' = { d with workspace := { d.workspace with files := f } } := by
  have hlift : (liftM a : Action Desk α) = liftM (liftM a : Action Workspace α) := rfl
  rw [hlift, liftM_eq_ok_iff]
  simp only [Workspace.liftM_eq_ok_iff]
  constructor
  · rintro ⟨_, ⟨f, ha, rfl⟩, rfl⟩
    exact ⟨f, ha, rfl⟩
  · rintro ⟨f, ha, rfl⟩
    exact ⟨_, ⟨f, ha, rfl⟩, rfl⟩

/-- Reading the source changes nothing. -/
theorem readSource_eq_ok {t : Text} (h : readSource d = .ok t d') :
    d.workspace.files.text d.unit.source = .ok t ∧ d' = d := by
  simp only [readSource, Action.bind_eq_ok_iff, unitOf_eq_ok_iff] at h
  rcases h with ⟨_, _, ⟨rfl, rfl⟩, h⟩
  rw [Action.onOsError_eq_ok_iff (fun e t a t' h => Action.throw_eq_ok_iff.mp h),
    liftFiles_eq_ok_iff] at h
  simp only [FileAction.query_eq_ok_iff] at h
  rcases h with ⟨_, ⟨hread, rfl⟩, rfl⟩
  exact ⟨hread, rfl⟩

/-- Writing the C text changes nothing but files. -/
theorem writeCode_eq_ok {stage : Text} {u : Unit} (h : writeCode stage d = .ok u d') :
    ∃ a f, Artifacts.ofSource d.unit.source = .ok a ∧
      writeAtomic a.code d.unit.text d.workspace.files = .ok () f ∧
      d' = { d with workspace := { d.workspace with files := f } } := by
  simp only [writeCode, Action.bind_eq_ok_iff, unitOf_eq_ok_iff, artifacts_eq_ok_iff] at h
  rcases h with ⟨_, _, ⟨rfl, rfl⟩, a, _, ⟨ha, rfl⟩, h⟩
  rw [Action.onOsError_eq_ok_iff (fun e t a t' h => Action.throw_eq_ok_iff.mp h),
    liftFiles_eq_ok_iff] at h
  rcases h with ⟨f, hwrite, rfl⟩
  exact ⟨a, f, ha, hwrite, rfl⟩

end Desk

namespace Workspace

variable {w w' : Workspace}

/-- Running a tool leaves the files it made and a record of the run. -/
theorem callTool_eq_ok {call : ToolCall} {r : ToolReport} (h : callTool call w = .ok r w') :
    ∃ e ns, (w.tools.run call w.files).1 = .ok e ∧
      w' = { w with files := (w.tools.run call w.files).2, notices := ns,
                    runs := w.runs ++ [⟨call, w.files, .ok e⟩] } := by
  simp only [callTool, Action.bind_eq_ok_iff, Action.get_eq_ok_iff] at h
  rcases h with ⟨_, _, ⟨rfl, rfl⟩, h⟩
  -- An announced call adds notices and nothing else.
  by_cases hannounced : w.tools.announced = true
  · rw [if_pos hannounced] at h
    simp only [Action.bind_eq_ok_iff, notify_eq_ok_iff, Action.modify_eq_ok_iff,
      Action.ofExcept_eq_ok_iff, Action.pure_eq_ok_iff] at h
    rcases h with ⟨_, _, rfl, _, _, rfl, e, _, ⟨he, rfl⟩, _, rfl⟩
    exact ⟨e, _, he, by rw [he]⟩
  · rw [if_neg hannounced] at h
    simp only [Action.bind_eq_ok_iff, Action.modify_eq_ok_iff,
      Action.ofExcept_eq_ok_iff, Action.pure_eq_ok_iff] at h
    rcases h with ⟨_, _, rfl, e, _, ⟨he, rfl⟩, _, rfl⟩
    exact ⟨e, _, he, by rw [he]⟩

end Workspace

namespace Desk

variable {d d' : Desk}

/-- The call by which an external transpiler is run for a source. -/
def transpileCall (command : List Text) (source : Path) (a : Artifacts) : ToolCall :=
  { role := .transpile, command := command ++ [source.text, a.code.text] }

/-- An external transpiler is run once, and what it wrote is read. -/
theorem runTranspiler_eq_ok {command : List Text} {t : Text}
    (h : runTranspiler command d = .ok t d') :
    ∃ a e ns, Artifacts.ofSource d.unit.source = .ok a ∧
      (d.workspace.tools.run (transpileCall command d.unit.source a) d.workspace.files).2.text
        a.code = .ok t ∧
      d' = { d with workspace := { d.workspace with
        files := (d.workspace.tools.run (transpileCall command d.unit.source a)
          d.workspace.files).2
        notices := ns
        runs := d.workspace.runs ++
          [⟨transpileCall command d.unit.source a, d.workspace.files, .ok e⟩] } } := by
  simp only [runTranspiler, Action.bind_eq_ok_iff, unitOf_eq_ok_iff, artifacts_eq_ok_iff] at h
  rcases h with ⟨_, _, ⟨rfl, rfl⟩, a, _, ⟨ha, rfl⟩, report, d₁, hrun, h⟩
  rw [Action.onOsError_eq_ok_iff (fun e t a t' h => Action.throw_eq_ok_iff.mp h),
    liftM_eq_ok_iff] at hrun
  rcases hrun with ⟨w, hcall, rfl⟩
  rcases Workspace.callTool_eq_ok hcall with ⟨e, ns, _, rfl⟩
  -- A transpiler that fails ends the stage, so this one has not.
  by_cases hok : (!report.isOk) = true
  · rw [if_pos hok] at h
    simp only [Action.bind_eq_ok_iff, Action.throw_eq_ok_iff, false_and, and_false,
      exists_false] at h
  · rw [if_neg hok, Action.onOsError_eq_ok_iff (fun e t a t' h => Action.throw_eq_ok_iff.mp h),
      liftFiles_eq_ok_iff] at h
    simp only [FileAction.query_eq_ok_iff] at h
    rcases h with ⟨_, ⟨hread, rfl⟩, rfl⟩
    exact ⟨a, e, ns, ha, hread, rfl⟩

/-- How C text comes about from a source that was read: it is the source itself, or what an
    external transpiler wrote. Given are the C text, the files afterwards and the runs. -/
inductive Transpiles (tools : Toolchain) (w : Workspace) (source : Path) (a : Artifacts)
    (raw : Text) : Text → Files → List ToolRun → Prop where
  | plain (h : tools.transpiler = none) : Transpiles tools w source a raw raw w.files w.runs
  | external {command : List Text} {out : Text} {e : ToolExit}
      (h : tools.transpiler = some command)
      (hread : (w.tools.run (transpileCall command source a) w.files).2.text a.code = .ok out) :
      Transpiles tools w source a raw out
        (w.tools.run (transpileCall command source a) w.files).2
        (w.runs ++ [⟨transpileCall command source a, w.files, .ok e⟩])

/-- Transpiling: the source is read, C text is made from it, and what remains of that without
    directives is written and becomes the unit's text. -/
theorem transpile_eq_ok {tools : Toolchain} {t : Text} (h : transpile tools d = .ok t d') :
    ∃ a raw out f₁ f runs ns, Artifacts.ofSource d.unit.source = .ok a ∧
      d.workspace.files.text d.unit.source = .ok raw ∧
      Transpiles tools d.workspace d.unit.source a raw out f₁ runs ∧
      writeAtomic a.code (Stripped.ofText BufferSize.default out).text f₁ = .ok () f ∧
      d' = ⟨{ d.workspace with files := f, notices := ns, runs := runs },
        { d.unit with
          rawText := raw
          settings := Settings.ofLines (Stripped.ofText BufferSize.default raw).removed
          text := (Stripped.ofText BufferSize.default out).text }⟩ := by
  simp only [transpile, Action.bind_eq_ok_iff, amend_eq_ok_iff] at h
  rcases h with ⟨raw, _, hread, _, _, rfl, h⟩
  rcases readSource_eq_ok hread with ⟨hraw, rfl⟩
  -- Both ways end with stripping and writing, and differ in what is stripped.
  rcases htranspiler : tools.transpiler with _ | command
  · rw [htranspiler] at h
    simp only [Action.bind_eq_ok_iff, amend_eq_ok_iff, unitOf_eq_ok_iff, Action.pure_eq_ok_iff,
      liftM_eq_ok_iff, Workspace.notify_eq_ok_iff] at h
    rcases h with ⟨_, _, ⟨rfl, rfl⟩, _, _, rfl, _, _, hwrite, _, _, ⟨rfl, rfl⟩, _, _,
      ⟨_, rfl, rfl⟩, _, rfl⟩
    rcases writeCode_eq_ok hwrite with ⟨a, f, ha, hcode, rfl⟩
    exact ⟨a, raw, raw, _, f, _, _, ha, hraw, .plain htranspiler, hcode, rfl⟩
  · rw [htranspiler] at h
    simp only [Action.bind_eq_ok_iff, amend_eq_ok_iff, unitOf_eq_ok_iff, Action.pure_eq_ok_iff,
      liftM_eq_ok_iff, Workspace.notify_eq_ok_iff] at h
    rcases h with ⟨out, _, hrun, _, _, rfl, _, _, hwrite, _, _, ⟨rfl, rfl⟩, _, _,
      ⟨_, rfl, rfl⟩, _, rfl⟩
    rcases runTranspiler_eq_ok hrun with ⟨a, e, ns, ha, hout, rfl⟩
    rcases writeCode_eq_ok hwrite with ⟨a', f, ha', hcode, rfl⟩
    have heq : a' = a := Except.ok.inj (ha'.symm.trans ha)
    rw [heq] at hcode
    exact ⟨a, raw, out, _, f, _, _, ha, hraw, .external htranspiler hout, hcode, rfl⟩

/-- Exporting: the header is written for the functions that the unit's text defines. -/
theorem exportHeader_eq_ok {root : Path} {u : Unit} (h : exportHeader root d = .ok u d') :
    ∃ a f ns, Artifacts.ofSource d.unit.source = .ok a ∧
      writeAtomic a.header (Header.text (exported d.unit.text) a.header.name
        (Path.display root a.header)) d.workspace.files = .ok () f ∧
      d' = ⟨{ d.workspace with files := f, notices := ns },
        { d.unit with declarations := exported d.unit.text }⟩ := by
  simp only [exportHeader, exportedNoted, storeHeader, Action.bind_eq_ok_iff, unitOf_eq_ok_iff,
    amend_eq_ok_iff, artifacts_eq_ok_iff, liftM_eq_ok_iff, Workspace.notify_eq_ok_iff,
    Action.pure_eq_ok_iff] at h
  rcases h with ⟨_, _, ⟨rfl, rfl⟩, _, _, ⟨_, ⟨_, _, rfl, rfl, rfl⟩, rfl⟩, _, _, rfl, a, _,
    ⟨ha, rfl⟩, _, _, ⟨_, ⟨_, _, hwrite, _, _, rfl, rfl, rfl⟩, rfl⟩, _, rfl⟩
  rw [Action.onOsError_eq_ok_iff (fun e t a t' h => Action.throw_eq_ok_iff.mp h),
    Workspace.liftM_eq_ok_iff] at hwrite
  rcases hwrite with ⟨f, hwrite, rfl⟩
  exact ⟨a, f, _, ha, hwrite, rfl⟩

/-- The first stage: the staged text is written as C text, and its header beside it. -/
theorem prepare_eq_ok {root : Path} {tools : Toolchain} {u : Unit}
    (h : prepare root tools d = .ok u d') :
    ∃ a raw out f₁ f₂ f₃ runs ns staged, Artifacts.ofSource d.unit.source = .ok a ∧
      d.workspace.files.text d.unit.source = .ok raw ∧
      Transpiles tools d.workspace d.unit.source a raw out f₁ runs ∧
      staged = (Stripped.ofText BufferSize.default out).text ∧
      writeAtomic a.code staged f₁ = .ok () f₂ ∧
      writeAtomic a.header (Header.text (exported staged) a.header.name
        (Path.display root a.header)) f₂ = .ok () f₃ ∧
      d' = ⟨{ d.workspace with files := f₃, notices := ns, runs := runs },
        { d.unit with
          rawText := raw
          settings := Settings.ofLines (Stripped.ofText BufferSize.default raw).removed
          text := staged
          declarations := exported staged }⟩ := by
  rw [prepare, Action.onBuildError_eq_ok_iff (fun e t a t' h => by
    simp only [Action.bind_eq_ok_iff, Action.throw_eq_ok_iff, and_false, exists_false] at h)] at h
  simp only [Action.bind_eq_ok_iff] at h
  rcases h with ⟨_, _, htranspile, hexport⟩
  rcases transpile_eq_ok htranspile with
    ⟨a, raw, out, f₁, f₂, runs, _, ha, hraw, hout, hcode, rfl⟩
  rcases exportHeader_eq_ok hexport with ⟨a', f₃, ns, ha', hheader, rfl⟩
  -- Both parts ask for the places of the unit and are given the same.
  have heq : a' = a := Except.ok.inj (ha'.symm.trans ha)
  rw [heq] at hheader
  exact ⟨a, raw, out, f₁, f₂, f₃, runs, ns, _, ha, hraw, hout, rfl, hcode, hheader, rfl⟩

/-- Expanding the markers of a unit: the text is expanded, and no file changes. -/
theorem expandMarkers_eq_ok {imports : List (Text × Import)}
    (hfresh : d.unit.importsResolved = false) (h : expandMarkers d = .ok imports d') :
    ∃ ns, (Expansion.ofText d.workspace.files d.unit.directory d.unit.text).failure = none ∧
      d' = ⟨{ d.workspace with notices := ns }, d.unit.withExpansion
        (Expansion.ofText d.workspace.files d.unit.directory d.unit.text)⟩ := by
  simp only [expandMarkers, Action.bind_eq_ok_iff, unitOf_eq_ok_iff] at h
  rcases h with ⟨_, _, ⟨rfl, rfl⟩, h⟩
  rw [hfresh, if_neg Bool.false_ne_true] at h
  simp only [Action.bind_eq_ok_iff, Action.get_eq_ok_iff, liftM_eq_ok_iff,
    Workspace.notifyAll_eq_ok_iff] at h
  rcases h with ⟨_, _, ⟨rfl, rfl⟩, _, _, ⟨_, rfl, rfl⟩, h⟩
  -- Only whether the expansion failed matters from here on.
  generalize Expansion.ofText d.workspace.files d.unit.directory d.unit.text = x at h ⊢
  rcases hfailure : x.failure with _ | e
  · rw [hfailure] at h
    simp only [Action.bind_eq_ok_iff, amend_eq_ok_iff, liftM_eq_ok_iff, unitOf_eq_ok_iff,
      Workspace.notifyAll_eq_ok_iff, Action.pure_eq_ok_iff] at h
    rcases h with ⟨_, _, rfl, _, _, ⟨_, rfl, rfl⟩, _, _, ⟨rfl, rfl⟩, _, rfl⟩
    exact ⟨_, rfl, rfl⟩
  · rw [hfailure] at h
    cases e with
    | _ => exact absurd h (fun h => Action.throw_eq_ok_iff.mp h)

/-- The second stage: markers are expanded and includes added, and the C text is written anew. -/
theorem finish_eq_ok {sources : List Path} {u : Unit} (himports : d.unit.importsResolved = false)
    (hsiblings : d.unit.siblingsInjected = false) (h : finish sources d = .ok u d') :
    ∃ x siblings a i f ns, x = Expansion.ofText d.workspace.files d.unit.directory d.unit.text ∧
      x.failure = none ∧ Artifacts.ofSource d.unit.source = .ok a ∧
      headersBeside d.unit.source sources = .ok siblings ∧
      Injection.ofText d.workspace.files d.unit.directory a.header siblings x.text = .ok i ∧
      writeAtomic a.code i.text d.workspace.files = .ok () f ∧
      d' = ⟨{ d.workspace with files := f, notices := ns },
        { d.unit.withExpansion x with siblings := siblings, text := i.text,
                                      siblingsInjected := true }⟩ := by
  rw [finish, Action.onBuildError_eq_ok_iff (fun e t a t' h => by
    simp only [Action.bind_eq_ok_iff, Action.throw_eq_ok_iff, and_false, exists_false] at h)] at h
  simp only [Action.bind_eq_ok_iff] at h
  rcases h with ⟨_, _, hexpand, _, _, hinject, hwrite⟩
  rcases expandMarkers_eq_ok himports hexpand with ⟨_, hfailure, hd⟩
  -- The expansion is named, so that the stages after it do not open it.
  generalize Expansion.ofText d.workspace.files d.unit.directory d.unit.text = x at hfailure hd ⊢
  rw [hd] at hinject
  rcases inject_eq_ok (d := ⟨_, d.unit.withExpansion x⟩) hsiblings hinject with
    ⟨siblings, a, i, ns, hs, ha, hi, _, rfl⟩
  rcases writeCode_eq_ok hwrite with ⟨a', f, ha', hcode, rfl⟩
  have heq : a' = a := Except.ok.inj (ha'.symm.trans ha)
  rw [heq] at hcode
  exact ⟨x, siblings, a, i, f, ns, rfl, hfailure, ha, hs, hi, hcode, rfl⟩

/-- If the C text can be written, writing it succeeds. -/
theorem writeCode_of_ok {stage : Text} {a : Artifacts} {f : Files}
    (ha : Artifacts.ofSource d.unit.source = .ok a)
    (hwrite : writeAtomic a.code d.unit.text d.workspace.files = .ok () f) :
    writeCode stage d = .ok () { d with workspace := { d.workspace with files := f } } := by
  have hunit : unitOf d = .ok d.unit d := rfl
  have hplaces : artifacts d = .ok a d := artifacts_eq_ok_iff.mpr ⟨ha, rfl⟩
  rw [writeCode, Action.bind_of_ok hunit, Action.bind_of_ok hplaces]
  refine (Action.onOsError_eq_ok_iff fun e t a t' h => Action.throw_eq_ok_iff.mp h).mpr ?_
  exact liftFiles_eq_ok_iff.mpr ⟨f, hwrite, rfl⟩

/-- If a source can be read and its C text be written, taking it as it is succeeds. -/
theorem exists_transpile {tools : Toolchain} {a : Artifacts} {raw : Text} {f : Files}
    (hplain : tools.transpiler = none) (ha : Artifacts.ofSource d.unit.source = .ok a)
    (hraw : d.workspace.files.text d.unit.source = .ok raw)
    (hwrite : writeAtomic a.code (Stripped.ofText BufferSize.default raw).text
      d.workspace.files = .ok () f) :
    ∃ t d', transpile tools d = .ok t d' := by
  -- Each stage is run forward: read, amend, keep the text, amend, write.
  have hread : readSource d = .ok raw d := by
    have hunit : unitOf d = .ok d.unit d := rfl
    rw [readSource, Action.bind_of_ok hunit]
    refine (Action.onOsError_eq_ok_iff fun e t a t' h => Action.throw_eq_ok_iff.mp h).mpr ?_
    exact liftFiles_eq_ok_iff.mpr ⟨_, FileAction.query_eq_ok_iff.mpr ⟨hraw, rfl⟩, rfl⟩
  have hamend : ∀ (g : TranslationUnit → TranslationUnit) (d₁ : Desk),
      amend g d₁ = .ok () { d₁ with unit := g d₁.unit } := fun _ _ => rfl
  have hpure : ∀ d₁ : Desk, (pure raw : Action Desk Text) d₁ = .ok raw d₁ := fun _ => rfl
  rw [transpile, Action.bind_of_ok hread, Action.bind_of_ok (hamend _ _), hplain]
  dsimp only
  rw [Action.bind_of_ok (hpure _), Action.bind_of_ok (hamend _ _)]
  exact ⟨_, _, Action.bind_eq_ok_iff.mpr ⟨(), _, writeCode_of_ok ha hwrite, rfl⟩⟩

/-- If its header can be written, exporting a unit succeeds. -/
theorem exists_exportHeader {root : Path} {a : Artifacts} {f : Files}
    (ha : Artifacts.ofSource d.unit.source = .ok a)
    (hwrite : writeAtomic a.header (Header.text (exported d.unit.text) a.header.name
      (Path.display root a.header)) d.workspace.files = .ok () f) :
    ∃ d', exportHeader root d = .ok () d' := by
  have hunit : unitOf d = .ok d.unit d := rfl
  obtain ⟨ns, hnoted⟩ : ∃ ns, (liftM (exportedNoted d.unit.text) : Action Desk _) d =
      .ok (exported d.unit.text) ⟨{ d.workspace with notices := ns }, d.unit⟩ := ⟨_, rfl⟩
  have hamend : ∀ (g : TranslationUnit → TranslationUnit) (d₁ : Desk),
      amend g d₁ = .ok () { d₁ with unit := g d₁.unit } := fun _ _ => rfl
  obtain ⟨t, w, hstore⟩ : ∃ t w, storeHeader a.header (exported d.unit.text)
      (Path.display root a.header) { d.workspace with notices := ns } = .ok t w := by
    have hstored := Workspace.liftM_eq_ok_iff (w := { d.workspace with notices := ns }).mpr
      ⟨f, hwrite, rfl⟩
    rw [storeHeader, Action.bind_of_ok ((Action.onOsError_eq_ok_iff
      fun e t a t' h => Action.throw_eq_ok_iff.mp h).mpr hstored)]
    exact ⟨_, _, rfl⟩
  rw [exportHeader, Action.bind_of_ok hunit, Action.bind_of_ok hnoted,
    Action.bind_of_ok (hamend _ _)]
  exact ⟨_, Action.bind_eq_ok_iff.mpr ⟨a, _, artifacts_eq_ok_iff.mpr ⟨ha, rfl⟩,
    Action.bind_eq_ok_iff.mpr ⟨t, _, liftM_eq_ok_iff.mpr ⟨w, hstore, rfl⟩, rfl⟩⟩⟩

/-- If a source can be read and its C text and its header be written, the first stage succeeds. -/
theorem exists_prepare {root : Path} {tools : Toolchain} {a : Artifacts} {raw : Text} {f g : Files}
    (hplain : tools.transpiler = none) (ha : Artifacts.ofSource d.unit.source = .ok a)
    (hraw : d.workspace.files.text d.unit.source = .ok raw)
    (hcode : writeAtomic a.code (Stripped.ofText BufferSize.default raw).text
      d.workspace.files = .ok () f)
    (hheader : writeAtomic a.header (Header.text
      (exported (Stripped.ofText BufferSize.default raw).text) a.header.name
      (Path.display root a.header)) f = .ok () g) :
    ∃ d', prepare root tools d = .ok () d' := by
  rcases exists_transpile hplain ha hraw hcode with ⟨t, d₁, htranspile⟩
  rcases transpile_eq_ok htranspile with
    ⟨a', raw', out, f₁, f', runs, ns, ha', hraw', hout, hcode', hd₁⟩
  rw [ha, Except.ok.injEq] at ha'
  rw [hraw, Except.ok.injEq] at hraw'
  subst ha' hraw'
  -- The header is made from the text that was just written.
  have hstaged : d₁.unit.text = (Stripped.ofText BufferSize.default raw).text ∧
      d₁.workspace.files = f ∧ d₁.unit.source = d.unit.source := by
    cases hout with
    | external hsome _ =>
        rw [hplain] at hsome
        cases hsome
    | plain _ =>
        rw [hcode] at hcode'
        cases hcode'
        rw [hd₁]
        exact ⟨rfl, rfl, rfl⟩
  rcases hstaged with ⟨htext, hfiles, hsource⟩
  rw [← htext, ← hfiles] at hheader
  rcases exists_exportHeader (hsource ▸ ha) hheader with ⟨d', hexport⟩
  refine ⟨d', (Action.onBuildError_eq_ok_iff fun e t a t' h => ?_).mpr ?_⟩
  · simp only [Action.bind_eq_ok_iff, Action.throw_eq_ok_iff, and_false, exists_false] at h
  · exact Action.bind_eq_ok_iff.mpr ⟨_, _, htranspile, hexport⟩

/-- If no import of a unit fails, expanding them succeeds. -/
theorem exists_expandMarkers (hfresh : d.unit.importsResolved = false)
    (hx : (Expansion.ofText d.workspace.files d.unit.directory d.unit.text).failure = none) :
    ∃ imports d', expandMarkers d = .ok imports d' := by
  have hunit : unitOf d = .ok d.unit d := rfl
  have hget : (get : Action Desk Desk) d = .ok d d := rfl
  have hnoted : ∀ ns : List Notice, (liftM (Workspace.notifyAll ns) : Action Desk Unit) d =
      .ok () ⟨{ d.workspace with notices := d.workspace.notices ++ ns }, d.unit⟩ := fun _ => rfl
  rw [expandMarkers, Action.bind_of_ok hunit, hfresh, if_neg Bool.false_ne_true,
    Action.bind_of_ok hget, Action.bind_of_ok (hnoted _), hx]
  exact ⟨_, _, rfl⟩

/-- If the text of a unit with its imports and includes is known and can be written, the second
    stage succeeds. -/
theorem exists_finish {sources siblings : List Path} {a : Artifacts} {x : Expansion} {i : Injection}
    {f : Files} (himports : d.unit.importsResolved = false)
    (hsiblings : d.unit.siblingsInjected = false)
    (hx : x = Expansion.ofText d.workspace.files d.unit.directory d.unit.text)
    (hfailure : x.failure = none) (ha : Artifacts.ofSource d.unit.source = .ok a)
    (hs : headersBeside d.unit.source sources = .ok siblings)
    (hi : Injection.ofText d.workspace.files d.unit.directory a.header siblings x.text = .ok i)
    (hwrite : writeAtomic a.code i.text d.workspace.files = .ok () f) :
    ∃ d', finish sources d = .ok () d' := by
  subst hx
  rcases exists_expandMarkers himports hfailure with ⟨_, _, hexpand⟩
  rcases expandMarkers_eq_ok himports hexpand with ⟨ns, _, rfl⟩
  generalize Expansion.ofText d.workspace.files d.unit.directory d.unit.text = x at hi hexpand
  rcases exists_inject (d := ⟨{ d.workspace with notices := ns }, d.unit.withExpansion x⟩)
    hsiblings hs ha hi with ⟨d₂, hinject, htext⟩
  -- The includes are put in without touching a file, so the C text can be written as before.
  have hkept : d₂.workspace.files = d.workspace.files ∧ d₂.unit.source = d.unit.source := by
    rcases inject_eq_ok (d := ⟨_, d.unit.withExpansion x⟩) hsiblings hinject with
      ⟨_, _, _, _, _, _, _, _, hd₂⟩
    rw [hd₂]
    exact ⟨rfl, rfl⟩
  rw [← htext, ← hkept.1] at hwrite
  have hwritten : writeCode "includes" d₂ = .ok () _ := writeCode_of_ok (hkept.2 ▸ ha) hwrite
  refine ⟨_, (Action.onBuildError_eq_ok_iff fun e t a t' h => ?_).mpr (Action.bind_eq_ok_iff.mpr
    ⟨_, _, hexpand, Action.bind_eq_ok_iff.mpr ⟨_, _, hinject, hwritten⟩⟩)⟩
  simp only [Action.bind_eq_ok_iff, Action.throw_eq_ok_iff, and_false, exists_false] at h

end Desk

end DialectBuild
