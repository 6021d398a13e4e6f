import DialectBuild.Proofs.BuildGround

/-!
# Building Again

A build that is run again on what it left behind does the same once more. Both runs are on the
ground of the files that the first one started with, so they discover the same sources and read
the same texts. What the first phase makes of a unit is a function of its source. What the second
one makes of it depends on the files as well, but only on where paths lead and on the generated
headers, and these are the same at any time in the second phase of either run. The compiler and
the linker are called for the units as they are then.

A run is followed phase by phase. In each phase the unit on the desk becomes what it should, and
what is known of the other units stays true, since they own other places.

## Main definitions

* `Tools.IsModest`: A compiler and a linker that write what they are asked for.
* `preparedUnit`, `PreparedFrom`: A unit after the first phase.
* `Finishes`, `FinishedOn`: A unit after the second phase.
* `OnDisk`: A unit whose C text and header are on disk.
* `callsOf`: The calls that compile and link units.

## Theorems

* `FinishedOn.unique`: A finished unit is known from its source.
* `Project.prepareShown_of_plain`, `Project.finishes_of_finishShown`: The two phases of one unit.
* `build_onGround`: What a build leaves behind.
* `build_reproducible`: Two builds in a row do the same.
-/

namespace DialectBuild

open Files Workspace

/-- A call that writes nothing but one file. -/
def Tools.WritesOnly (tools : Tools) (call : ToolCall) (target : Path) : Prop :=
  ∀ f : Files, f.IsLinkless → f.tree.IsSound →
    ChangesOnly (· = f.slotOf target) f (tools.run call f).2 ∧ (tools.run call f).2.tree.IsSound

/-- A compiler and a linker that write nothing but the file they are asked for. -/
structure Tools.IsModest (tools : Tools) (r : BuildRequest) (sources : List Path) : Prop where
  /-- The compiler writes the object of the unit. -/
  compile : ∀ s ∈ sources, ∀ settings, tools.WritesOnly
    (Desk.compileCall r.toolchain settings (Artifacts.beside s)) (Artifacts.beside s).object
  /-- The linker writes the program. -/
  link : ∀ objects, tools.WritesOnly (linkCall r.toolchain objects r.output) r.output

/-- The unit of a source whose text is taken as it is, after the first phase. -/
def preparedUnit (source : Path) (raw : Text) : TranslationUnit :=
  { TranslationUnit.ofSource source with
    rawText := raw
    settings := Settings.ofLines (Stripped.ofText BufferSize.default raw).removed
    text := (Stripped.ofText BufferSize.default raw).text
    declarations := exported (Stripped.ofText BufferSize.default raw).text }

/-- A unit that the first phase has made from the files `f`. -/
def PreparedFrom (f : Files) (u : TranslationUnit) : Prop :=
  ∃ raw, f.text u.source = .ok raw ∧ u = preparedUnit u.source raw

/-- What the second phase makes of the unit `u`, given the files. -/
def Finishes (sources : List Path) (g : Files) (u v : TranslationUnit) : Prop :=
  ∃ siblings i, (Expansion.ofText g u.directory u.text).failure = none ∧
    headersBeside u.source sources = .ok siblings ∧
    Injection.ofText g u.directory (Artifacts.beside u.source).header siblings
      (Expansion.ofText g u.directory u.text).text = .ok i ∧
    v = { u.withExpansion (Expansion.ofText g u.directory u.text) with
      siblings := siblings, text := i.text, siblingsInjected := true }

/-- A unit that has passed the second phase of a build on the ground `f`. -/
def FinishedOn (f : Files) (r : BuildRequest) (sources : List Path) (v : TranslationUnit) : Prop :=
  ∃ u g, PreparedFrom f u ∧ OnGround f r sources g ∧ Headed sources g ∧ Finishes sources g u v

/-- A unit whose header is on disk. -/
def HeaderOnDisk (root : Path) (g : Files) (u : TranslationUnit) : Prop :=
  g.read (Artifacts.beside u.source).header = .ok (Encoding.encode
    (Header.text u.declarations (Artifacts.beside u.source).header.name
      (Path.display root (Artifacts.beside u.source).header)))

/-- A unit whose C text and header are on disk. -/
def OnDisk (root : Path) (g : Files) (u : TranslationUnit) : Prop :=
  g.read (Artifacts.beside u.source).code = .ok (Encoding.encode u.text) ∧ HeaderOnDisk root g u

/-- The calls that compile units and link their objects. -/
def callsOf (r : BuildRequest) (us : List TranslationUnit) : List ToolCall :=
  us.map (fun u => Desk.compileCall r.toolchain u.settings (Artifacts.beside u.source)) ++
    [linkCall r.toolchain (us.map fun u => (Artifacts.beside u.source).object) r.output]

section Units

variable {f g k : Files} {r : BuildRequest} {sources : List Path} {u u' v v' : TranslationUnit}

theorem PreparedFrom.unique (h : PreparedFrom f u) (h' : PreparedFrom f u')
    (hs : u.source = u'.source) : u = u' := by
  rcases h with ⟨raw, hraw, hu⟩
  rcases h' with ⟨raw', hraw', hu'⟩
  rw [hs, hraw', Except.ok.injEq] at hraw
  rw [hu, hu', hs, hraw]

/-- Such a unit has not been in the second phase. -/
theorem PreparedFrom.isFresh (h : PreparedFrom f u) :
    u.importsResolved = false ∧ u.siblingsInjected = false := by
  rcases h with ⟨raw, _, hu⟩
  rw [hu]
  exact ⟨rfl, rfl⟩

theorem Finishes.source_eq (h : Finishes sources g u v) : v.source = u.source := by
  rcases h with ⟨_, _, _, _, _, rfl⟩
  rfl

/-- The second phase makes the same of a unit wherever imports find the same headers. -/
theorem Finishes.unique (halike : ImportAlike g k) (h : Finishes sources g u v)
    (h' : Finishes sources k u v') : v = v' := by
  rcases h with ⟨siblings, i, hfailure, hbeside, hi, rfl⟩
  rcases h' with ⟨siblings', i', hfailure', hbeside', hi', rfl⟩
  have hx := halike.expansion_eq hfailure hfailure'
  have hsiblings : siblings = siblings' := Except.ok.inj (hbeside.symm.trans hbeside')
  subst hsiblings
  rw [hx, halike.injection_eq, hi, Except.ok.injEq] at hi'
  rw [hx, hi']

/-- A finished unit is known from its source. -/
theorem FinishedOn.unique (hp : IsProject f r sources) (h : FinishedOn f r sources v)
    (h' : FinishedOn f r sources v') (hs : v.source = v'.source) : v = v' := by
  rcases h with ⟨u, g, hu, hg, hheaded, hv⟩
  rcases h' with ⟨u', k, hu', hk, hheaded', hv'⟩
  have heq : u = u' := hu.unique hu' (by rw [← hv.source_eq, ← hv'.source_eq, hs])
  subst heq
  exact hv.unique (hg.importAlike hk hp hheaded hheaded') hv'

end Units

section Desks

variable {d d' : Desk} {root : Path} {x : Unit}

/-- The first phase of a unit whose source is taken as it is: two files are written one after the
    other, and no tool is run. -/
theorem Project.prepareShown_of_plain {tools : Toolchain} (hplain : tools.transpiler = none)
    (hfresh : d.unit = TranslationUnit.ofSource d.unit.source)
    (h : prepareShown root tools d = .ok x d') : ∃ raw g,
      d.workspace.files.text d.unit.source = .ok raw ∧
      d'.unit = preparedUnit d.unit.source raw ∧
      writeAtomic (Artifacts.beside d.unit.source).code d'.unit.text d.workspace.files = .ok () g ∧
      writeAtomic (Artifacts.beside d.unit.source).header (Header.text d'.unit.declarations
        (Artifacts.beside d.unit.source).header.name
        (Path.display root (Artifacts.beside d.unit.source).header)) g =
          .ok () d'.workspace.files ∧
      d'.workspace.tools = d.workspace.tools ∧ d'.workspace.runs = d.workspace.runs := by
  rcases prepareShown_eq_ok h with ⟨c, d₁, hprepare, rfl⟩
  rcases Desk.prepare_eq_ok hprepare with
    ⟨a, raw, out, f₁, f₂, f₃, runs, ns, staged, ha, hraw, hout, hstaged, hcode, hheader, rfl⟩
  rw [Artifacts.eq_beside ha] at hcode hheader
  -- Without a transpiler, what is stripped is the source itself.
  cases hout with
  | external hsome _ =>
      rw [hplain] at hsome
      cases hsome
  | plain _ =>
      refine ⟨raw, f₂, hraw, ?_, hcode, hheader, rfl, rfl⟩
      dsimp only
      rw [hfresh, hstaged]
      rfl

/-- The second phase of a unit: its C text is written anew, and no tool is run. -/
theorem Project.finishes_of_finishShown {sources : List Path}
    (hfresh : d.unit.importsResolved = false ∧ d.unit.siblingsInjected = false)
    (h : finishShown root sources d = .ok x d') :
    Finishes sources d.workspace.files d.unit d'.unit ∧
      writeAtomic (Artifacts.beside d.unit.source).code d'.unit.text d.workspace.files =
        .ok () d'.workspace.files ∧
      d'.unit.declarations = d.unit.declarations ∧
      d'.workspace.tools = d.workspace.tools ∧ d'.workspace.runs = d.workspace.runs := by
  rcases finishShown_eq_ok h with ⟨c, d₁, hfinish, rfl⟩
  rcases Desk.finish_eq_ok hfresh.1 hfresh.2 hfinish with
    ⟨x, siblings, a, i, k, ns, rfl, hfailure, ha, hbeside, hi, hcode, rfl⟩
  rw [Artifacts.eq_beside ha] at hi hcode
  exact ⟨⟨siblings, i, hfailure, hbeside, hi, rfl⟩, hcode, rfl, rfl, rfl⟩

end Desks

section Steps

variable {f : Files} {r : BuildRequest} {sources : List Path}

/-- A step of the unit with the given source, on the ground and without running a tool. -/
structure StepsOnGround (f : Files) (r : BuildRequest) (sources : List Path) (source : Path)
    (w w' : Workspace) : Prop where
  /-- The files are still on the ground. -/
  ground : OnGround f r sources w'.files
  /-- Only places of the unit are touched. -/
  changes : ChangesOnly (w.files.Owns source) w.files w'.files
  /-- The tools are the same. -/
  tools : w'.tools = w.tools
  /-- No tool is run. -/
  runs : w'.runs = w.runs

/-- What another unit has written is read as before. -/
theorem StepsOnGround.read {source s : Path} {w w' : Workspace} {e : Text} {b : Bytes}
    (h : StepsOnGround f r sources source w w') (hp : IsProject f r sources)
    (hground : OnGround f r sources w.files) (hsource : source ∈ sources) (hs : s ∈ sources)
    (hne : s ≠ source) (he : e ∈ writtenEndings)
    (hread : w.files.read (s.parent.child (s.name ++ e)) = .ok b) :
    w'.files.read (s.parent.child (s.name ++ e)) = .ok b :=
  (hground.apart hp).read_of_owns (hground.isLinkless hp) h.changes hsource hs hne he hread

/-- The first phase prepares a unit from its source and writes its header. -/
theorem prepare_onGround (hp : IsProject f r sources) (hplain : r.toolchain.transpiler = none)
    {d d' : Desk} {u : Unit} (h : Project.prepareShown r.root r.toolchain d = .ok u d')
    (hground : OnGround f r sources d.workspace.files) (hmem : d.unit.source ∈ sources)
    (hfresh : d.unit = TranslationUnit.ofSource d.unit.source) :
    StepsOnGround f r sources d.unit.source d.workspace d'.workspace ∧
      d'.unit.source = d.unit.source ∧ PreparedFrom f d'.unit ∧
      HeaderOnDisk r.root d'.workspace.files d'.unit := by
  rcases Project.prepareShown_of_plain hplain hfresh h with
    ⟨raw, f₂, hraw, hunit, hcode, hheader, htools, hruns⟩
  have hl := hground.isLinkless hp
  -- The code is written first, then the header, both at places of this unit.
  have hground₂ := hground.write hp hmem (by decide) (by decide) hcode
  have hl₂ := hground₂.isLinkless hp
  have hfirst := changesOnly_owns hl (by decide) (by decide) hcode
  have hsecond := changesOnly_owns hl₂ (by decide) (by decide) hheader
  rw [hfirst.owns_eq] at hsecond
  have hsource : d'.unit.source = d.unit.source := by
    rw [hunit]
    rfl
  have hraw' := hground.text_eq hp ((hground.apart hp).isSource _ hmem) hraw
  refine ⟨⟨hground₂.write hp hmem (by decide) (by decide) hheader, hfirst.trans hsecond, htools,
    hruns⟩, hsource, ⟨raw, hsource ▸ hraw', hsource ▸ hunit⟩, ?_⟩
  rw [HeaderOnDisk, hsource]
  exact (changesOnly_writeAtomic hl₂ (by decide) (by decide) hheader).2

/-- The second phase finishes a unit and writes its C text. All headers stay. -/
theorem finish_onGround (hp : IsProject f r sources) {d d' : Desk} {u : Unit}
    (h : Project.finishShown r.root sources d = .ok u d')
    (hground : OnGround f r sources d.workspace.files) (hheaded : Headed sources d.workspace.files)
    (hmem : d.unit.source ∈ sources) (hprepared : PreparedFrom f d.unit)
    (hdisk : HeaderOnDisk r.root d.workspace.files d.unit) :
    StepsOnGround f r sources d.unit.source d.workspace d'.workspace ∧
      Headed sources d'.workspace.files ∧ d'.unit.source = d.unit.source ∧
      FinishedOn f r sources d'.unit ∧ OnDisk r.root d'.workspace.files d'.unit := by
  rcases Project.finishes_of_finishShown hprepared.isFresh h with
    ⟨hfinishes, hcode, hdeclarations, htools, hruns⟩
  have hl := hground.isLinkless hp
  -- Headers stay as they are: only the code of this unit is written.
  have hkept : ∀ {s : Path} {b : Bytes},
      d.workspace.files.read (Artifacts.beside s).header = .ok b →
        d'.workspace.files.read (Artifacts.beside s).header = .ok b := fun hread =>
    read_of_writeAtomic hl (by decide) (by decide) (by decide) (by decide) hcode hread
  refine ⟨⟨hground.write hp hmem (by decide) (by decide) hcode,
    changesOnly_owns hl (by decide) (by decide) hcode, htools, hruns⟩, ?_, hfinishes.source_eq,
    ⟨d.unit, d.workspace.files, hprepared, hground, hheaded, hfinishes⟩, ?_, ?_⟩
  · exact fun s hs => (hheaded s hs).imp (fun b hb => hkept hb)
  · rw [hfinishes.source_eq]
    exact (changesOnly_writeAtomic hl (by decide) (by decide) hcode).2
  · rw [HeaderOnDisk, hfinishes.source_eq, hdeclarations]
    exact hkept hdisk

end Steps

section Tools

variable {f g : Files} {r : BuildRequest} {sources : List Path} {us : List TranslationUnit}

/-- Files on the ground with the C texts and headers of units. -/
structure Written (f : Files) (r : BuildRequest) (sources : List Path) (us : List TranslationUnit)
    (g : Files) : Prop where
  /-- The files are on the ground. -/
  ground : OnGround f r sources g
  /-- The units belong to the build. -/
  units : ∀ u ∈ us, u.source ∈ sources
  /-- C texts and headers are on disk. -/
  disk : ∀ u ∈ us, OnDisk r.root g u

/-- An object goes to a place of its own. -/
theorem slotOf_object_ne {s s' : Path} {e : Text} (he : e ∈ writtenEndings) :
    f.slotOf (Artifacts.beside s).object ≠ f.placeOf (s'.parent.child (s'.name ++ e)) := by
  have hother : ∀ e ∈ writtenEndings, ¬ (".o" : Text) <:+ e ∧ ¬ e <:+ (".o" : Text) := by decide
  intro heq
  rw [slotOf_object, placeOf_written he] at heq
  have hlast := List.singleton_inj.mp (List.append_inj' heq rfl).2
  have hends := not_endsWith_append (n := stem s) (hother e he).1 (hother e he).2
  rw [hlast, Bool.eq_false_iff] at hends
  exact hends (List.isSuffixOf_iff_suffix.mpr (List.suffix_append _ _))

/-- The program is not the header of a unit. -/
theorem IsProject.slotOf_output_ne (hp : IsProject f r sources) {s : Path} (hs : s ∈ sources) :
    f.slotOf r.output ≠ f.placeOf (Artifacts.beside s).header := by
  intro heq
  have hplace : f.placeOf (Artifacts.beside s).header = _ :=
    placeOf_written (e := ".h") (by decide) f s
  rw [hplace] at heq
  have hlast := List.singleton_inj.mp (List.append_inj' heq rfl).2
  rcases ((apart_of_sources hp.sound hp.discovers).isSource s hs).ending with ⟨n, hn⟩
  have hends : headerEnding <:+ r.output.name := by
    rw [hlast, ← hn, List.append_assoc]
    exact List.suffix_append n _
  exact Bool.false_ne_true (hp.notHeader.symm.trans (List.isSuffixOf_iff_suffix.mpr hends))

/-- A tool that writes nothing but a file that is neither C text nor header leaves what the
    units have written. -/
theorem Written.run (h : Written f r sources us g) (hp : IsProject f r sources) {tools : Tools}
    {call : ToolCall} {target : Path} (hmodest : tools.WritesOnly call target)
    (hbuilt : Built f r sources (f.slotOf target))
    (hcode : ∀ s ∈ sources, f.slotOf target ≠ f.placeOf (Artifacts.beside s).code)
    (hheader : ∀ s ∈ sources, f.slotOf target ≠ f.placeOf (Artifacts.beside s).header) :
    Written f r sources us (tools.run call g).2 := by
  have hl := h.ground.isLinkless hp
  rcases hmodest g hl h.ground.sound with ⟨hchanges, hsound⟩
  rw [h.ground.changes.slotOf_eq] at hchanges
  refine ⟨h.ground.step hchanges (fun q hq => hq ▸ hbuilt) hsound, h.units, fun u hu => ?_⟩
  rcases h.disk u hu with ⟨hreadcode, hreadheader⟩
  constructor
  · refine hchanges.read hl hreadcode (fun heq => hcode _ (h.units u hu) ?_)
    rw [← heq, h.ground.changes.placeOf_eq]
  · refine hchanges.read hl hreadheader (fun heq => hheader _ (h.units u hu) ?_)
    rw [← heq, h.ground.changes.placeOf_eq]

/-- The third phase calls the compiler for a unit. -/
theorem compile_onGround (hp : IsProject f r sources) {d d' : Desk} {x : Option Text}
    (h : Project.compileShown r.root r.toolchain d = .ok x d')
    (hmodest : d.workspace.tools.IsModest r sources) (hmem : d.unit.source ∈ sources)
    (hwritten : Written f r sources us d.workspace.files) :
    Written f r sources us d'.workspace.files ∧ d'.workspace.tools = d.workspace.tools ∧
      d'.unit = d.unit ∧ ∃ run, d'.workspace.runs = d.workspace.runs ++ [run] ∧
        run.call = Desk.compileCall r.toolchain d.unit.settings
          (Artifacts.beside d.unit.source) := by
  rcases Project.compileShown_eq_ok h with ⟨c, report, d₁, hcompile, rfl⟩
  rcases Desk.compile_eq_ok hcompile with ⟨a, e, ns, ha, rfl⟩
  rw [Artifacts.eq_beside ha]
  refine ⟨?_, rfl, rfl, _, rfl, rfl⟩
  exact hwritten.run hp (hmodest.compile _ hmem _) (Or.inr (Or.inl ⟨_, hmem, rfl⟩))
    (fun s _ => slotOf_object_ne (e := ".c") (by decide))
    (fun s _ => slotOf_object_ne (e := ".h") (by decide))

/-- The fourth phase calls the linker for all units. -/
theorem link_onGround (hp : IsProject f r sources) {p p' : Project} {u : Unit}
    (h : Project.makeProgram r.toolchain r.output p = .ok u p')
    (hmodest : p.workspace.tools.IsModest r sources)
    (hwritten : Written f r sources us p.workspace.files) :
    Written f r sources us p'.workspace.files ∧ p'.units = p.units ∧
      ∃ run, p'.workspace.runs = p.workspace.runs ++ [run] ∧
        run.call = linkCall r.toolchain
          (p.units.map fun u => (Artifacts.beside u.source).object) r.output := by
  rcases Project.makeProgram_eq_ok h with ⟨g, e, ns, c, hmkdirs, rfl⟩
  -- The directory of the program is still there, so that creating it changes nothing.
  have hparent := (hwritten.ground.alike hp).isDir_of_isDir hp.parent
  rw [mkdirs_of_isDir (hwritten.ground.isLinkless hp) hparent, Except.ok.injEq] at hmkdirs
  rw [← hmkdirs]
  refine ⟨?_, rfl, _, rfl, rfl⟩
  exact hwritten.run hp (hmodest.link _) (Or.inr (Or.inr rfl)) hp.notCode
    (fun s hs => hp.slotOf_output_ne hs)

end Tools

section Phases

variable {f : Files} {r : BuildRequest} {sources : List Path} {w w' : Workspace}
  {us us' : List TranslationUnit}

/-- A build on the ground `f` with the given tools that has not run any yet. -/
structure Underway (f : Files) (r : BuildRequest) (sources : List Path) (tools : Tools)
    (runs : List ToolRun) (w : Workspace) : Prop where
  /-- The files are on the ground. -/
  ground : OnGround f r sources w.files
  /-- The tools are the given ones. -/
  tools : w.tools = tools
  /-- Nothing has been added to the runs. -/
  runs : w.runs = runs

theorem Underway.step {source : Path} {tools : Tools} {runs : List ToolRun}
    (h : Underway f r sources tools runs w) (hs : StepsOnGround f r sources source w w') :
    Underway f r sources tools runs w' :=
  ⟨hs.ground, hs.tools.trans h.tools, hs.runs.trans h.runs⟩

/-- The first phase prepares all units. -/
theorem prepared_of_passes (hp : IsProject f r sources) (hplain : r.toolchain.transpiler = none)
    {tools : Tools} {runs : List ToolRun}
    (h : Project.Passes (fun w u w' u' =>
      ∃ x, Project.prepareShown r.root r.toolchain ⟨w, u⟩ = .ok x ⟨w', u'⟩) w us w' us')
    (hunderway : Underway f r sources tools runs w)
    (hus : us = sources.map TranslationUnit.ofSource) :
    Underway f r sources tools runs w' ∧ us'.map TranslationUnit.source = sources ∧
      ∀ u ∈ us', u.source ∈ sources ∧ PreparedFrom f u ∧ HeaderOnDisk r.root w'.files u := by
  have hmap : us.map TranslationUnit.source = sources := by
    rw [hus, List.map_map]
    exact List.map_id sources
  have hpass := h.forall_of_done (Underway f r sources tools runs)
    (fun _ u => u.source ∈ sources ∧ u = TranslationUnit.ofSource u.source)
    (fun w u => u.source ∈ sources ∧ PreparedFrom f u ∧ HeaderOnDisk r.root w.files u) ?_ ?_ ?_ []
    hunderway ?_ (fun u hu => absurd hu List.not_mem_nil) ?_
  · exact ⟨hpass.1, hpass.2.2.trans hmap, hpass.2.1⟩
  · rintro w u w' u' ⟨x, hx⟩ hunderway ⟨hmem, hfresh⟩
    rcases prepare_onGround hp hplain hx hunderway.ground hmem hfresh with
      ⟨hstep, hsource, hprepared⟩
    exact ⟨hunderway.step hstep, ⟨hsource ▸ hmem, hprepared⟩, hsource⟩
  · exact fun _ _ _ v _ hv => hv
  · -- Another unit writes another header.
    rintro w u w' u' ⟨x, hx⟩ hunderway ⟨hmem, hfresh⟩ v hne ⟨hv, hprepared, hdisk⟩
    have hstep := (prepare_onGround hp hplain hx hunderway.ground hmem hfresh).1
    exact ⟨hv, hprepared, hstep.read hp hunderway.ground hmem hv hne (by decide) hdisk⟩
  · rw [List.nil_append, hmap]
    exact (apart_of_sources hp.sound hp.discovers).nodup
  · rw [hus]
    exact List.forall_mem_map.mpr (fun s hs => ⟨hs, rfl⟩)

/-- The second phase finishes all units. -/
theorem finished_of_passes (hp : IsProject f r sources) {tools : Tools} {runs : List ToolRun}
    (h : Project.Passes (fun w u w' u' =>
      ∃ x, Project.finishShown r.root sources ⟨w, u⟩ = .ok x ⟨w', u'⟩) w us w' us')
    (hunderway : Underway f r sources tools runs w)
    (hmap : us.map TranslationUnit.source = sources)
    (hus : ∀ u ∈ us, u.source ∈ sources ∧ PreparedFrom f u ∧ HeaderOnDisk r.root w.files u) :
    Underway f r sources tools runs w' ∧ us'.map TranslationUnit.source = sources ∧
      ∀ u ∈ us', u.source ∈ sources ∧ FinishedOn f r sources u ∧ OnDisk r.root w'.files u := by
  -- Every source has its header by now.
  have hheaded : Headed sources w.files := by
    intro s hs
    rw [← hmap] at hs
    rcases List.mem_map.mp hs with ⟨u, hu, rfl⟩
    exact ⟨_, (hus u hu).2.2⟩
  have hpass := h.forall_of_done
    (fun w => Underway f r sources tools runs w ∧ Headed sources w.files)
    (fun w u => u.source ∈ sources ∧ PreparedFrom f u ∧ HeaderOnDisk r.root w.files u)
    (fun w u => u.source ∈ sources ∧ FinishedOn f r sources u ∧ OnDisk r.root w.files u) ?_ ?_ ?_
    [] ⟨hunderway, hheaded⟩ ?_ (fun u hu => absurd hu List.not_mem_nil) hus
  · exact ⟨hpass.1.1, hpass.2.2.trans hmap, hpass.2.1⟩
  · rintro w u w' u' ⟨x, hx⟩ ⟨hunderway, hheaded⟩ ⟨hmem, hprepared, hdisk⟩
    rcases finish_onGround hp hx hunderway.ground hheaded hmem hprepared hdisk with
      ⟨hstep, hheaded', hsource, hfinished⟩
    exact ⟨⟨hunderway.step hstep, hheaded'⟩, ⟨hsource ▸ hmem, hfinished⟩, hsource⟩
  · rintro w u w' u' ⟨x, hx⟩ ⟨hunderway, hheaded⟩ ⟨hmem, hprepared, hdisk⟩ v hne
      ⟨hv, hprepared', hdisk'⟩
    have hstep := (finish_onGround hp hx hunderway.ground hheaded hmem hprepared hdisk).1
    exact ⟨hv, hprepared', hstep.read hp hunderway.ground hmem hv hne (by decide) hdisk'⟩
  · rintro w u w' u' ⟨x, hx⟩ ⟨hunderway, hheaded⟩ ⟨hmem, hprepared, hdisk⟩ v hne
      ⟨hv, hfinished, hcode, hheader⟩
    have hstep := (finish_onGround hp hx hunderway.ground hheaded hmem hprepared hdisk).1
    exact ⟨hv, hfinished, hstep.read hp hunderway.ground hmem hv hne (by decide) hcode,
      hstep.read hp hunderway.ground hmem hv hne (by decide) hheader⟩
  · rw [List.nil_append, hmap]
    exact (apart_of_sources hp.sound hp.discovers).nodup

/-- The third phase calls the compiler for each unit in turn. -/
theorem compiled_of_passes (hp : IsProject f r sources) {tools : Tools}
    (hmodest : tools.IsModest r sources)
    (h : Project.Passes (fun w u w' u' =>
      ∃ x, Project.compileShown r.root r.toolchain ⟨w, u⟩ = .ok x ⟨w', u'⟩) w us w' us')
    (htools : w.tools = tools) (hwritten : Written f r sources us w.files) :
    (Written f r sources us w'.files ∧ w'.tools = tools) ∧ us' = us ∧
      ∃ rs, w'.runs = w.runs ++ rs ∧ rs.map ToolRun.call = us.map (fun u =>
        Desk.compileCall r.toolchain u.settings (Artifacts.beside u.source)) := by
  refine h.calls_of_steps (fun w => Written f r sources us w.files ∧ w.tools = tools)
    (fun u => u.source ∈ sources) _ ?_ ⟨hwritten, htools⟩ hwritten.units
  rintro w u w' u' ⟨x, hx⟩ ⟨hwritten, htools⟩ hmem
  rcases compile_onGround hp hx (htools ▸ hmodest) hmem hwritten with
    ⟨hwritten', htools', hunit, hrun⟩
  exact ⟨⟨hwritten', htools'.trans htools⟩, hunit, hrun⟩

/-- What a build leaves behind that succeeds on the ground `f`. -/
theorem build_onGround {verbose : Bool} {report : BuildReport} (hp : IsProject f r sources)
    (hplain : r.toolchain.transpiler = none) (hground : OnGround f r sources w.files)
    (hmodest : w.tools.IsModest r sources) (h : build r verbose w = .ok report w')
    (hsuccess : report.isSuccess = true) :
    ∃ us rs, report.units = some us ∧ us.map TranslationUnit.source = sources ∧
      (∀ u ∈ us, FinishedOn f r sources u) ∧ Written f r sources us w'.files ∧
      w'.runs = w.runs ++ rs ∧ rs.map ToolRun.call = callsOf r us := by
  rcases build_eq_ok h hsuccess with
    ⟨sources', c, ns, warnings, p, hsources, hphases, hunits, hfiles, hruns⟩
  rw [hground.sources_eq hp hsources] at hphases
  rcases Project.phasesOf_eq_ok hphases with ⟨ws, p₁, p₂, hwrite, hobjects, hprogram⟩
  -- The first two phases.
  rcases Project.writeSources_eq_ok hwrite with
    ⟨c₀, c₁, c₂, xs, ys, q, q', hfirst, hsecond, rfl⟩
  rcases prepared_of_passes hp hplain (Project.passes_of_runUnits (fun h => ⟨_, h⟩) hfirst)
    ⟨hground, rfl, rfl⟩ rfl with ⟨hunderway, hmap, hprepared⟩
  have hsame : (sources.map TranslationUnit.ofSource).map TranslationUnit.source = sources := by
    rw [List.map_map]
    exact List.map_id sources
  dsimp only at hsecond
  rw [hsame] at hsecond
  rcases finished_of_passes hp (Project.passes_of_runUnits (fun h => ⟨_, h⟩) hsecond)
    ⟨hunderway.ground, hunderway.tools, hunderway.runs⟩ hmap hprepared with
    ⟨hunderway₂, hmap₂, hfinished⟩
  -- The third phase.
  have hwritten : Written f r sources q'.units q'.workspace.files :=
    ⟨hunderway₂.ground, fun u hu => (hfinished u hu).1, fun u hu => (hfinished u hu).2.2⟩
  rcases Project.makeObjects_eq_ok hobjects with ⟨c₃, c₄, zs, q₃, hthird, rfl⟩
  rcases compiled_of_passes hp hmodest (Project.passes_of_runUnits (fun h => ⟨_, h⟩) hthird)
    hunderway₂.tools hwritten with ⟨⟨hwritten₃, htools₃⟩, hunits₃, rs, hruns₃, hcalls⟩
  -- The fourth phase.
  rcases link_onGround hp hprogram (htools₃ ▸ hmodest) hwritten₃ with
    ⟨hwritten₄, hunits₄, run, hruns₄, hcall⟩
  refine ⟨q'.units, rs ++ [run], ?_, hmap₂, fun u hu => (hfinished u hu).2.1, ?_, ?_, ?_⟩
  · rw [hunits, hunits₄, hunits₃]
  · rw [hfiles]
    exact hwritten₄
  · rw [hruns, hruns₄, hruns₃, hunderway₂.runs, List.append_assoc]
  · rw [List.map_append, hcalls, List.map_singleton, hcall, hunits₃]
    rfl

end Phases

/-- Finished units with the same sources are the same. -/
theorem eq_of_finishedOn {f : Files} {r : BuildRequest} {sources : List Path}
    (hp : IsProject f r sources) {us us' : List TranslationUnit}
    (hmap : us.map TranslationUnit.source = us'.map TranslationUnit.source)
    (h : ∀ u ∈ us, FinishedOn f r sources u) (h' : ∀ u ∈ us', FinishedOn f r sources u) :
    us = us' := by
  induction us generalizing us' with
  | nil => exact (List.map_eq_nil_iff.mp hmap.symm).symm
  | cons u us ih =>
      rcases List.map_eq_cons_iff.mp hmap.symm with ⟨u', rest, rfl, hsource, hrest⟩
      rcases List.forall_mem_cons.mp h with ⟨hu, h⟩
      rcases List.forall_mem_cons.mp h' with ⟨hu', h'⟩
      rw [hu.unique hp hu' hsource.symm, ih hrest.symm h h']

/-- Building a project again does the same once more. If a build succeeds and is run again on
    the files that it left behind, and succeeds again, both have the same units in the same
    order, call the same tools with the same commands in the same order, and leave the same C
    text and the same header of every unit. The console and the tools may be others, as long as
    these write nothing but what they are asked for. -/
theorem build_reproducible {r : BuildRequest} {sources : List Path} {w w₁ w₂ w₃ : Workspace}
    {verbose verbose' : Bool} {report report' : BuildReport}
    (hproject : IsProject w.files r sources) (hplain : r.toolchain.transpiler = none)
    (htools : w.tools.IsModest r sources) (htools' : w₂.tools.IsModest r sources)
    (hbuild : build r verbose w = .ok report w₁) (hsuccess : report.isSuccess = true)
    (hfiles : w₂.files = w₁.files)
    (hagain : build r verbose' w₂ = .ok report' w₃) (hsuccess' : report'.isSuccess = true) :
    ∃ units, report.units = some units ∧ report'.units = some units ∧
      units.map TranslationUnit.source = sources ∧
      (∃ runs runs', w₁.runs = w.runs ++ runs ∧ w₃.runs = w₂.runs ++ runs' ∧
        runs.map ToolRun.call = callsOf r units ∧ runs'.map ToolRun.call = callsOf r units) ∧
      ∀ u ∈ units, ∃ a code header, Artifacts.ofSource u.source = .ok a ∧
        w₁.files.read a.code = .ok code ∧ w₃.files.read a.code = .ok code ∧
        w₁.files.read a.header = .ok header ∧ w₃.files.read a.header = .ok header := by
  rcases build_onGround hproject hplain (OnGround.refl hproject) htools hbuild hsuccess with
    ⟨us, runs, hunits, hmap, hfinished, hwritten, hruns, hcalls⟩
  -- The second build is on the same ground as the first one.
  have hground : OnGround w.files r sources w₂.files := by
    rw [hfiles]
    exact hwritten.ground
  rcases build_onGround hproject hplain hground htools' hagain hsuccess' with
    ⟨us', runs', hunits', hmap', hfinished', hwritten', hruns', hcalls'⟩
  have hsame : us = us' :=
    eq_of_finishedOn hproject (hmap.trans hmap'.symm) hfinished hfinished'
  subst hsame
  refine ⟨us, hunits, hunits', hmap, ⟨runs, runs', hruns, hruns', hcalls, hcalls'⟩, ?_⟩
  intro u hu
  rcases hwritten.disk u hu with ⟨hcode, hheader⟩
  rcases hwritten'.disk u hu with ⟨hcode', hheader'⟩
  have hparts := ((hground.apart hproject).isSource _ (hwritten.units u hu)).parts
  exact ⟨Artifacts.beside u.source, _, _, Artifacts.ofSource_eq_ok_iff.mpr ⟨hparts, rfl⟩, hcode,
    hcode', hheader, hheader'⟩

/-- Tools that write an empty file where the last word of the command says. -/
def targetTools : Tools where
  run call f :=
    match f.write (Path.ofText (call.command.getLast?.getD [])) [] with
    | .ok g => (.ok ⟨0, [], []⟩, g)
    | .error _ => (.ok ⟨1, [], []⟩, f)

/-- They write nothing else if that word is the path of a file in the root. -/
theorem targetTools_writesOnly {call : ToolCall} {x : Text} (hx : IsName x)
    (hlast : call.command.getLast? = some (Path.text ⟨.root, [x]⟩))
    (hread : Path.ofText (Path.text ⟨.root, [x]⟩) = ⟨.root, [x]⟩) :
    targetTools.WritesOnly call ⟨.root, [x]⟩ := by
  intro f hl hsound
  have hplain : x ≠ Path.up ∧ x ≠ Path.here :=
    ⟨hx.2.1, fun hdot => absurd (hdot ▸ hx.1) (by decide)⟩
  have hplace : f.placeOf ⟨.root, [x]⟩ = [x] := extendPlace_name hplain.1 hplain.2 [] []
  rw [targetTools]
  dsimp only
  rw [hlast, Option.getD_some, hread]
  -- A tool that cannot write leaves the files as it found them.
  rcases hwrite : f.write ⟨.root, [x]⟩ [] with e | g
  · exact ⟨ChangesOnly.refl _ f, hsound⟩
  · have hchanges := (write_eq_ok hl hwrite).1
    rw [hplace] at hchanges
    refine ⟨hchanges, isSound_write hl hsound ?_ hwrite⟩
    rw [hplace]
    exact List.forall_mem_singleton.mpr hx

/-- Two units, one of which imports the directory that both are in. -/
def importingWorkspace : Workspace where
  files := ⟨{ entries :=
    [(["b.cz"], .file []), (["a.cz"], .file (Encoding.encode "#import \".\""))] }, []⟩
  tools := targetTools
  console := { verbose := false }

/-- Their sources. -/
def importingSources : List Path :=
  ["/a.cz", "/b.cz"]

/-- They are built into a program beside them. -/
def importingRequest : BuildRequest where
  root := "/"
  output := "/o"
  profile := default
  toolchain := { (default : Toolchain) with compiler := ["cc"] }
  verbose := false

theorem isProject_importing :
    IsProject importingWorkspace.files importingRequest importingSources where
  linkless := isLinkless_of_linkCount (by decide +kernel)
  sound := ⟨by decide +kernel, by decide +kernel⟩
  discovers := by cbv
  parent := by cbv
  notSource := by decide +kernel
  notHeader := by decide +kernel
  notCode := by decide +kernel

theorem isModest_importing : targetTools.IsModest importingRequest importingSources := by
  have hobject : ∀ s ∈ importingSources, ∃ x, (Artifacts.beside s).object = ⟨.root, [x]⟩ ∧
      IsName x ∧ Path.ofText (Path.text ⟨.root, [x]⟩) = ⟨.root, [x]⟩ := by
    refine List.forall_mem_cons.mpr ⟨⟨"a.o", ?_, ?_, ?_⟩,
      List.forall_mem_singleton.mpr ⟨"b.o", ?_, ?_, ?_⟩⟩
    all_goals decide +kernel
  constructor
  · intro s hs settings
    rcases hobject s hs with ⟨x, heq, hx, hread⟩
    -- The last word of the command is the path of the object.
    have hlast : (Desk.compileCall importingRequest.toolchain settings
        (Artifacts.beside s)).command.getLast? = some (Artifacts.beside s).object.text := by
      rw [Desk.compileCall, Toolchain.commandToCompile, List.getLast?_append]
      rfl
    rw [heq] at hlast ⊢
    exact targetTools_writesOnly hx hlast hread
  · intro objects
    have hlast : (linkCall importingRequest.toolchain objects
        importingRequest.output).command.getLast? = some importingRequest.output.text := by
      rw [linkCall, Toolchain.commandToLink, List.getLast?_append]
      rfl
    exact targetTools_writesOnly (by decide +kernel) hlast (by decide +kernel)

/-- Whether a build succeeded. -/
def hasBuilt : EStateM.Result Failure Workspace BuildReport → Bool
  | .ok report _ => report.isSuccess
  | .error _ _ => false

/-- The workspace that a build leaves behind. -/
def workspaceAfter : EStateM.Result Failure Workspace BuildReport → Workspace
  | .ok _ w => w
  | .error _ w => w

theorem exists_of_hasBuilt {result : EStateM.Result Failure Workspace BuildReport}
    (h : hasBuilt result = true) :
    ∃ report, result = .ok report (workspaceAfter result) ∧ report.isSuccess = true := by
  cases result with
  | ok report w => exact ⟨report, rfl, h⟩
  | error e w => cases h

/-- The workspace in which the two units are built again. -/
def builtWorkspace : Workspace :=
  { importingWorkspace with
    files := (workspaceAfter (build importingRequest false importingWorkspace)).files }

theorem files_builtWorkspace : builtWorkspace.files =
    (workspaceAfter (build importingRequest false importingWorkspace)).files := by
  rw [builtWorkspace]

/-- The two units can be built, and built again. -/
theorem hasBuilt_importing :
    (hasBuilt (build importingRequest false importingWorkspace) &&
      hasBuilt (build importingRequest false builtWorkspace)) = true := by
  set_option maxRecDepth 20000 in cbv

theorem build_reproducible_importing : ∃ report report' w₁ w₃ units,
    build importingRequest false importingWorkspace = .ok report w₁ ∧
    build importingRequest false builtWorkspace = .ok report' w₃ ∧
    builtWorkspace.files = w₁.files ∧ report.isSuccess = true ∧ report'.isSuccess = true ∧
    report.units = some units ∧ report'.units = some units ∧
    units.map TranslationUnit.source = importingSources ∧
    w₁.runs.map ToolRun.call = callsOf importingRequest units ∧
    w₃.runs.map ToolRun.call = callsOf importingRequest units ∧
    ∀ u ∈ units, ∃ a code header, Artifacts.ofSource u.source = .ok a ∧
      w₁.files.read a.code = .ok code ∧ w₃.files.read a.code = .ok code ∧
      w₁.files.read a.header = .ok header ∧ w₃.files.read a.header = .ok header := by
  rcases Bool.and_eq_true_iff.mp hasBuilt_importing with ⟨hfirst, hsecond⟩
  rcases exists_of_hasBuilt hfirst with ⟨report, hbuild, hsuccess⟩
  rcases exists_of_hasBuilt hsecond with ⟨report', hagain, hsuccess'⟩
  rcases build_reproducible isProject_importing rfl isModest_importing isModest_importing hbuild
    hsuccess files_builtWorkspace hagain hsuccess' with
    ⟨units, hunits, hunits', hsources, ⟨runs, runs', hruns, hruns', hcalls, hcalls'⟩, hfiles⟩
  refine ⟨report, report', _, _, units, hbuild, hagain, files_builtWorkspace, hsuccess, hsuccess',
    hunits, hunits', hsources, ?_, ?_, hfiles⟩
  -- No tool had been run before either build.
  · rw [hruns]
    exact hcalls
  · rw [hruns']
    exact hcalls'

end DialectBuild
