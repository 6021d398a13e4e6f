import DialectBuild.Proofs.AtomicWrites
import DialectBuild.Proofs.CleanText
import DialectBuild.Proofs.ReportedFailures
import DialectBuild.Proofs.Visibility

/-!
# What a Compiler Finds

Whenever a build calls the compiler, the C text that it names is on disk and has no directive in
it, as far as bytes go: not one line is written like a directive, wherever a line feed, a carriage
return or both of them end it.

The C text of a unit is clean from the moment it is first written, since it was stripped just
before. It is written once more, with its imports expanded and includes added, and for this the
names of headers have to fit on a line. The only headers that are not there at the start are
those of the units themselves. After that it is left alone: other units write elsewhere, and the
compiler writes objects.

A build may end at any point, so the theorem is about the record of runs, which is looked at however
the build ends. Before the second pass is finished no compiler is called, and in the third phase
every call adds a run that found the files as they are described here.

## Main definitions

* `Files.HasCode`: The C text of a unit is clean and on disk.
* `Workspace.IsOrderly`: What the passes over the units rely on.
* `Workspace.IsCompiling`: What holds while units are compiled.
* `ToolRun.FindsClean`: A run that has found no directive.

## Theorems

* `Workspace.IsOrderly.prepareShown`, `Workspace.IsOrderly.finishShown`: The stages of a unit.
* `Project.hasCode_of_writeSources`: The first two phases leave clean C text for every unit.
* `Workspace.IsCompiling.afterCall`: The compiler finds it and leaves it.
* `compiled_without_directives`: No run of the compiler finds a directive.
-/

namespace DialectBuild

open Text

theorem fitsLine_of_mem_writtenEndings : ∀ e ∈ writtenEndings, FitsLine e :=
  Files.forall_mem_writtenEndings.mpr ⟨⟨isLegible_ofString ".c", by decide⟩,
    ⟨isLegible_ofString ".h", by decide⟩, ⟨isLegible_ofString ".c.tmp", by decide⟩,
    ⟨isLegible_ofString ".h.tmp", by decide⟩⟩

/-- What was read from a file is clean once it has been stripped. -/
theorem Files.isClean_of_text {f : Files} {p : Path} {t : Text} (h : f.text p = .ok t)
    (n : BufferSize) : IsClean (Stripped.ofText n t).text := by
  rcases Files.text_eq_ok_iff.mp h with ⟨bs, _, rfl⟩
  exact Stripped.isClean_text n bs

/-- The C text of a unit is clean, and it is on disk. -/
structure Files.HasCode (f : Files) (u : TranslationUnit) : Prop where
  /-- The text is clean. -/
  clean : IsClean u.text
  /-- It is on disk. -/
  read : f.read (Artifacts.beside u.source).code = .ok (Encoding.encode u.text)

/-- A change at places of one unit leaves the C text of another one as it is. -/
theorem Files.HasCode.of_owns {f g : Files} {sources : List Path} {s : Path}
    {v : TranslationUnit} (h : f.HasCode v) (hl : f.IsLinkless) (hapart : f.Apart sources)
    (hchanges : ChangesOnly (f.Owns s) f g) (hs : s ∈ sources) (hv : v.source ∈ sources)
    (hne : v.source ≠ s) : g.HasCode v :=
  ⟨h.clean, hapart.read_of_owns hl hchanges hs hv hne (by decide) h.read⟩

namespace Workspace

/-- What the passes over the units rely on. -/
structure IsOrderly (tools : Toolchain) (sources : List Path) (w : Workspace) : Prop where
  /-- There are no links. -/
  linkless : w.files.IsLinkless
  /-- The tree is one that a file system has. -/
  sound : w.files.tree.IsSound
  /-- The sources lead to different places. -/
  apart : w.files.Apart sources
  /-- Their places have names that a directory can hold. -/
  named : ∀ s ∈ sources, ∀ x ∈ w.files.placeOf s, IsName x
  /-- The names of headers can stand on a line. -/
  headers : w.files.HeadersFit
  /-- The transpiler writes nothing but the C text. -/
  transpiler : ∀ s ∈ sources, ∀ call ∈ transpileCalls tools s,
    w.tools.WritesOnly call (Artifacts.beside s).code

section Steps

variable {root : Path} {tools : Toolchain} {sources : List Path} {w w' : Workspace} {s : Path}

/-- What a unit owns is named like its source, so the names of headers still fit. -/
theorem IsOrderly.step (h : IsOrderly tools sources w) (hname : s.name.FitsLine)
    (hstep : StepsWithin s w w') (hsound : w'.files.tree.IsSound) :
    IsOrderly tools sources w' where
  linkless := hstep.files.isLinkless h.linkless
  sound := hsound
  apart := h.apart.of_changesOnly hstep.files
  named := by
    intro s' hs'
    rw [hstep.files.placeOf_eq]
    exact h.named s' hs'
  headers := by
    intro place x b hfind hends
    -- At a place of the unit, the name is that of the source with an ending.
    by_cases howns : w.files.Owns s (place ++ [x])
    · rcases howns with ⟨ending, hending, heq⟩
      rw [List.singleton_inj.mp (List.append_inj' heq rfl).2]
      exact hname.append (fitsLine_of_mem_writtenEndings ending hending)
    · rw [hstep.files.outside _ howns] at hfind
      exact h.headers place x b hfind hends
  transpiler := by
    rw [hstep.tools]
    exact h.transpiler

/-- Making C text keeps the tree sound and touches its place only, and what was made was read
    from a file. -/
theorem IsOrderly.transpiles (h : IsOrderly tools sources w) (hmem : s ∈ sources) {raw out : Text}
    {f : Files} {runs : List ToolRun} (hraw : w.files.text s = .ok raw)
    (hout : Desk.Transpiles tools w s (Artifacts.beside s) raw out f runs) :
    Files.ChangesOnly (w.files.Owns s) w.files f ∧ f.tree.IsSound ∧ w.runs <+: runs ∧
      ∀ n, IsClean (Stripped.ofText n out).text := by
  cases hout with
  | plain _ =>
      exact ⟨.refl _ _, h.sound, List.prefix_rfl, Files.isClean_of_text hraw⟩
  | @external command _ e hsome hread =>
      have hcall : Desk.transpileCall command s (Artifacts.beside s) ∈ transpileCalls tools s := by
        rw [transpileCalls, hsome]
        exact List.mem_singleton_self _
      rcases h.transpiler s hmem _ hcall w.files h.linkless h.sound with ⟨hchanges, hsound⟩
      refine ⟨hchanges.mono fun q hq => ⟨".c", by decide, ?_⟩, hsound, List.prefix_append _ _,
        Files.isClean_of_text hread⟩
      rw [hq, Files.slotOf, Artifacts.beside, Path.parent_child, Path.name_child]

/-- The first stage: the text of the unit is clean. -/
theorem IsOrderly.prepareShown (h : IsOrderly tools sources w) {u u' : TranslationUnit} {x : Unit}
    (hprepare : Project.prepareShown root tools ⟨w, u⟩ = .ok x ⟨w', u'⟩)
    (hmem : u.source ∈ sources) :
    StepsWithin u.source w w' ∧ w'.files.tree.IsSound ∧ u'.source = u.source ∧
      u'.importsResolved = u.importsResolved ∧ u'.siblingsInjected = u.siblingsInjected ∧
      IsClean u'.text := by
  rcases Project.prepareShown_eq_ok hprepare with ⟨c, d₁, hd₁, heq⟩
  rcases Desk.prepare_eq_ok hd₁ with
    ⟨a, raw, out, f₁, f₂, f₃, runs, ns, staged, ha, hraw, hout, rfl, hcode, hheader, rfl⟩
  cases heq
  rcases Artifacts.ofSource_eq_ok_iff.mp ha with ⟨_, rfl⟩
  rcases h.transpiles hmem hraw hout with ⟨hmade, hsound₁, hruns, hclean⟩
  have hsource := h.apart.isSource _ hmem
  -- The files after each write, all of them at places of the unit.
  have hl₁ := hmade.isLinkless h.linkless
  have hnamed₁ : ∀ x ∈ f₁.placeOf u.source, IsName x := by
    rw [hmade.placeOf_eq]
    exact h.named _ hmem
  have hsecond := Files.changesOnly_owns hl₁ (by decide) (by decide) hcode
  have hsound₂ := Files.isSound_writeAtomic hl₁ hsound₁ hsource hnamed₁ (by decide) (by decide)
    hcode
  have hl₂ := hsecond.isLinkless hl₁
  have hnamed₂ : ∀ x ∈ f₂.placeOf u.source, IsName x := by
    rw [hsecond.placeOf_eq]
    exact hnamed₁
  have hthird := Files.changesOnly_owns hl₂ (by decide) (by decide) hheader
  have hsound₃ := Files.isSound_writeAtomic hl₂ hsound₂ hsource hnamed₂ (by decide) (by decide)
    hheader
  rw [hsecond.owns_eq] at hthird
  have hlast := hsecond.trans hthird
  rw [hmade.owns_eq] at hlast
  exact ⟨⟨hmade.trans hlast, rfl, hruns⟩, hsound₃, rfl, rfl, rfl, hclean _⟩

/-- The second stage: the text of the unit is still clean, and it is on disk. -/
theorem IsOrderly.finishShown (h : IsOrderly tools sources w) {u u' : TranslationUnit} {x : Unit}
    (hfinish : Project.finishShown root sources ⟨w, u⟩ = .ok x ⟨w', u'⟩)
    (hmem : u.source ∈ sources) (hnames : ∀ s ∈ sources, s.name.FitsLine)
    (himports : u.importsResolved = false) (hsiblings : u.siblingsInjected = false)
    (hclean : IsClean u.text) :
    StepsWithin u.source w w' ∧ w'.files.tree.IsSound ∧ u'.source = u.source ∧
      w'.files.HasCode u' := by
  rcases Project.finishShown_eq_ok hfinish with ⟨c, d₁, hd₁, heq⟩
  rcases Desk.finish_eq_ok himports hsiblings hd₁ with
    ⟨x, siblings, a, i, f, ns, rfl, hok, ha, hbeside, hi, hcode, rfl⟩
  cases heq
  rcases Artifacts.ofSource_eq_ok_iff.mp ha with ⟨_, rfl⟩
  -- Includes are added for the headers of units only, and these are named like their sources.
  have hheader : ∀ s ∈ sources, FitsLine (s.name ++ ".h") :=
    fun s hs => (hnames s hs).append (fitsLine_of_mem_writtenEndings _ (by decide))
  have hheaders : ∀ p ∈ u.source.parent.child (u.source.name ++ ".h") :: siblings,
      p.name.FitsLine := by
    rw [List.forall_mem_cons, Path.name_child]
    refine ⟨hheader _ hmem, fun p hp => ?_⟩
    rcases (mem_headersBeside_iff hbeside).mp hp with ⟨s, hs, _, _, _, rfl⟩
    rw [Path.name_child]
    exact hheader s hs
  refine ⟨⟨Files.changesOnly_owns h.linkless (by decide) (by decide) hcode, rfl,
      List.prefix_rfl⟩, ?_, rfl, ?_, ?_⟩
  · exact Files.isSound_writeAtomic h.linkless h.sound (h.apart.isSource _ hmem) (h.named _ hmem)
      (by decide) (by decide) hcode
  · exact Injection.isClean_text h.headers h.linkless h.sound hclean hok hheaders hi
  · exact (Files.changesOnly_writeAtomic h.linkless (by decide) (by decide) hcode).2

end Steps

end Workspace

namespace Project

open Workspace

section Passing

variable {root : Path} {tools : Toolchain} {sources : List Path} {w w' : Workspace}
  {us us' : List TranslationUnit}

/-- The first pass makes the text of every unit clean. -/
theorem isClean_of_passes (hnames : ∀ s ∈ sources, s.name.FitsLine)
    (h : Passes (fun w u w' u' => ∃ x, prepareShown root tools ⟨w, u⟩ = .ok x ⟨w', u'⟩) w us w' us')
    (horderly : IsOrderly tools sources w) (hnodup : (us.map TranslationUnit.source).Nodup)
    (hfresh : ∀ u ∈ us, IsFresh sources u) :
    IsOrderly tools sources w' ∧ (∀ u ∈ us', IsFresh sources u ∧ IsClean u.text) ∧
      us'.map TranslationUnit.source = us.map TranslationUnit.source := by
  -- A unit that is done stays done: what was said of it is not about the files.
  refine h.forall_of_done (IsOrderly tools sources) (fun _ u => IsFresh sources u)
    (fun _ u => IsFresh sources u ∧ IsClean u.text) ?_ ?_ ?_ [] horderly hnodup
    (fun u hu => absurd hu List.not_mem_nil) hfresh
  · rintro w u w' u' ⟨x, hx⟩ horderly ⟨hmem, himports, hsiblings⟩
    rcases horderly.prepareShown hx hmem with
      ⟨hstep, hsound, hsource, himports', hsiblings', hclean⟩
    refine ⟨horderly.step (hnames _ hmem) hstep hsound, ⟨⟨?_, ?_, ?_⟩, hclean⟩, hsource⟩
    · exact hsource ▸ hmem
    · exact himports'.trans himports
    · exact hsiblings'.trans hsiblings
  · exact fun _ _ _ v _ hv => hv
  · exact fun _ _ _ v _ hv => hv

/-- The second pass writes the C text of every unit. -/
theorem hasCode_of_passes (hnames : ∀ s ∈ sources, s.name.FitsLine)
    (h : Passes (fun w u w' u' => ∃ x, finishShown root sources ⟨w, u⟩ = .ok x ⟨w', u'⟩)
      w us w' us')
    (horderly : IsOrderly tools sources w) (hnodup : (us.map TranslationUnit.source).Nodup)
    (hclean : ∀ u ∈ us, IsFresh sources u ∧ IsClean u.text) :
    IsOrderly tools sources w' ∧ (∀ u ∈ us', u.source ∈ sources ∧ w'.files.HasCode u) ∧
      us'.map TranslationUnit.source = us.map TranslationUnit.source := by
  refine h.forall_of_done (IsOrderly tools sources)
    (fun _ u => IsFresh sources u ∧ IsClean u.text)
    (fun w u => u.source ∈ sources ∧ w.files.HasCode u) ?_ ?_ ?_ [] horderly hnodup
    (fun u hu => absurd hu List.not_mem_nil) hclean
  · rintro w u w' u' ⟨x, hx⟩ horderly ⟨⟨hmem, himports, hsiblings⟩, hclean⟩
    rcases horderly.finishShown hx hmem hnames himports hsiblings hclean with
      ⟨hstep, hsound, hsource, hcode⟩
    exact ⟨horderly.step (hnames _ hmem) hstep hsound, ⟨hsource ▸ hmem, hcode⟩, hsource⟩
  · exact fun _ _ _ v _ hv => hv
  · -- The C text of units that are done is not touched again.
    rintro w u w' u' ⟨x, hx⟩ horderly ⟨⟨hmem, himports, hsiblings⟩, hclean⟩ v hne ⟨hv, hcode⟩
    have hstep := (horderly.finishShown hx hmem hnames himports hsiblings hclean).1
    exact ⟨hv, hcode.of_owns horderly.linkless horderly.apart hstep.files hmem hv hne⟩

end Passing

/-- The first two phases leave clean C text on disk for every unit. -/
theorem hasCode_of_writeSources {root : Path} {tools : Toolchain} {sources : List Path}
    {start p : Project} {x : Unit} (hnames : ∀ s ∈ sources, s.name.FitsLine)
    (horderly : start.workspace.IsOrderly tools sources)
    (hunits : start.units = sources.map TranslationUnit.ofSource)
    (h : writeSources root tools start = .ok x p) :
    p.workspace.IsOrderly tools sources ∧ p.units.map TranslationUnit.source = sources ∧
      ∀ u ∈ p.units, p.workspace.files.HasCode u := by
  have hsources : start.units.map TranslationUnit.source = sources := by
    rw [hunits, List.map_map]
    exact List.map_id sources
  have hnodup := horderly.apart.nodup
  rcases writeSources_eq_ok h with ⟨c, c₁, c₂, xs, ys, q, r, hfirst, hsecond, rfl⟩
  rw [hsources] at hsecond
  have hfresh : ∀ u ∈ start.units, IsFresh sources u := by
    rw [hunits]
    exact List.forall_mem_map.mpr fun s hs => ⟨hs, rfl, rfl⟩
  -- Nothing depends on the console.
  have hshown : ∀ {w : Workspace} (c : Console), w.IsOrderly tools sources →
      Workspace.IsOrderly tools sources { w with console := c } :=
    fun _ h => ⟨h.linkless, h.sound, h.apart, h.named, h.headers, h.transpiler⟩
  rcases isClean_of_passes hnames (passes_of_runUnits (fun h => ⟨_, h⟩) hfirst) (hshown c horderly)
    (hsources.symm ▸ hnodup) hfresh with ⟨horderly₁, hclean, hsources₁⟩
  rcases hasCode_of_passes hnames (passes_of_runUnits (fun h => ⟨_, h⟩) hsecond)
    (hshown c₁ horderly₁) (hsources₁.trans hsources ▸ hnodup) hclean with
    ⟨horderly₂, hcode, hsources₂⟩
  exact ⟨hshown c₂ horderly₂, hsources₂.trans (hsources₁.trans hsources),
    fun u hu => (hcode u hu).2⟩

end Project

/-- If it is one of the compiler, the run is for the C text of one of the sources, and there was no
    directive in what was there. -/
def ToolRun.FindsClean (tools : Toolchain) (sources : List Path) (run : ToolRun) : Prop :=
  run.call.role = .compile → ∃ s ∈ sources, ∃ settings content,
    run.call = Desk.compileCall tools settings (Artifacts.beside s) ∧
    run.found.read (Artifacts.beside s).code = .ok content ∧
    ∀ line ∈ Bytes.lines content, ¬ Bytes.IsDirective line

namespace Workspace

variable {r : BuildRequest} {sources : List Path} {us : List TranslationUnit} {runs : List ToolRun}
  {w : Workspace}

/-- Since there were only `runs`, every run of the compiler has found no directive. -/
def HasFoundClean (tools : Toolchain) (sources : List Path) (runs : List ToolRun)
    (w : Workspace) : Prop :=
  ∃ new, w.runs = runs ++ new ∧ ∀ run ∈ new, run.FindsClean tools sources

theorem HasFoundClean.append {tools : Toolchain} {w' : Workspace} {more : List ToolRun}
    (h : HasFoundClean tools sources runs w) (hruns : w'.runs = w.runs ++ more)
    (hmore : ∀ run ∈ more, run.FindsClean tools sources) : HasFoundClean tools sources runs w' := by
  rcases h with ⟨new, hnew, hclean⟩
  refine ⟨new ++ more, ?_, List.forall_mem_append.mpr ⟨hclean, hmore⟩⟩
  rw [hruns, hnew, List.append_assoc]

/-- Runs of another tool do not matter. -/
theorem HasFoundClean.of_role {tools : Toolchain} {w' : Workspace}
    (h : HasFoundClean tools sources runs w) (role : ToolRole) (hrole : role ≠ .compile)
    (hruns : ∃ more, w'.runs = w.runs ++ more ∧ ∀ run ∈ more, run.call.role = role) :
    HasFoundClean tools sources runs w' := by
  rcases hruns with ⟨more, hmore, hroles⟩
  refine h.append hmore fun run hrun hcompile => ?_
  rw [hroles run hrun] at hcompile
  exact absurd hcompile hrole

theorem hasFoundClean_refl (tools : Toolchain) (sources : List Path) (w : Workspace) :
    HasFoundClean tools sources w.runs w :=
  ⟨[], (List.append_nil _).symm, fun _ hrun => absurd hrun List.not_mem_nil⟩

/-- A workspace while units are compiled. -/
structure IsCompiling (r : BuildRequest) (sources : List Path) (us : List TranslationUnit)
    (runs : List ToolRun) (w : Workspace) : Prop where
  /-- There are no links. -/
  linkless : w.files.IsLinkless
  /-- The tree is one that a file system has. -/
  sound : w.files.tree.IsSound
  /-- The tools write what they should. -/
  modest : w.tools.IsModest r sources
  /-- The C text of every unit is on disk. -/
  code : ∀ u ∈ us, w.files.HasCode u
  /-- No directive has been found. -/
  found : w.HasFoundClean r.toolchain sources runs

/-- A compiler that is called finds clean C text, and leaves that of all units. -/
theorem IsCompiling.afterCall (h : IsCompiling r sources us runs w) {u : TranslationUnit}
    (hu : u ∈ us) (hmem : u.source ∈ sources) (ns : List Notice) :
    IsCompiling r sources us runs (w.afterCall
      (Desk.compileCall r.toolchain u.settings (Artifacts.beside u.source)) ns) := by
  rcases h.modest.compile _ hmem u.settings w.files h.linkless h.sound with ⟨hchanges, hsound⟩
  have hcode := h.code u hu
  refine ⟨hchanges.isLinkless h.linkless, hsound, h.modest, fun v hv => ?_, ?_⟩
  · -- An object is never at the place of C text.
    refine ⟨(h.code v hv).clean, hchanges.read h.linkless (h.code v hv).read ?_⟩
    exact fun heq => slotOf_object_ne (by decide) heq.symm
  · -- What the call finds are the files before it.
    refine h.found.append rfl (List.forall_mem_singleton.mpr fun _ => ?_)
    exact ⟨u.source, hmem, u.settings, _, rfl, hcode.read,
      hcode.clean.free.not_isDirective hcode.clean.legible⟩

end Workspace

namespace Project

open Workspace

variable {r : BuildRequest} {sources : List Path}

/-- All phases, however they end: no run of the compiler has found a directive. -/
theorem ensures_phasesOf_clean (start : Project) (hnames : ∀ s ∈ sources, s.name.FitsLine)
    (hclear : ∀ s ∈ sources, s.IsClear ∧ s.parts ≠ [])
    (horderly : start.workspace.IsOrderly r.toolchain sources)
    (hmodest : start.workspace.tools.IsModest r sources)
    (hunits : start.units = sources.map TranslationUnit.ofSource) :
    Action.Ensures (· = start) (phasesOf r)
      (fun _ p => p.workspace.HasFoundClean r.toolchain sources start.workspace.runs)
      fun _ p => p.workspace.HasFoundClean r.toolchain sources start.workspace.runs := by
  have hkeeps : Action.Keeps (Tries sources start.workspace.tools start.workspace.runs)
      (Allows r.output sources) (writeSources r.root r.toolchain) := keeps_writeSources hclear
  have htries : ∀ {p : Project}, Tries sources start.workspace.tools start.workspace.runs p →
      p.workspace.HasFoundClean r.toolchain sources start.workspace.runs := fun hp =>
    (hasFoundClean_refl r.toolchain sources start.workspace).of_role .transpile (by decide)
      hp.workspace.runs_eq
  refine .bind (q := fun _ p => Tries sources start.workspace.tools start.workspace.runs p ∧
    p.workspace.IsOrderly r.toolchain sources ∧ ∀ u ∈ p.units, p.workspace.files.HasCode u)
    (.intro ?_ ?_) fun _ => .of_each ?_
  · rintro _ x p rfl hwrite
    rcases hasCode_of_writeSources hnames horderly hunits hwrite with ⟨horderly', _, hcode⟩
    exact ⟨Action.Ensures.ok hkeeps (tries_start hunits) hwrite, horderly', hcode⟩
  · -- Where the first two phases fail, no compiler has been called.
    rintro _ e p rfl hwrite
    exact htries (Action.Ensures.error hkeeps (tries_start hunits) hwrite).1
  -- From here on, only the compiler is called, and then the linker.
  rintro p ⟨hp, horderly', hcode⟩
  have hmem : ∀ u ∈ p.units, u.source ∈ sources :=
    fun u hu => hp.sources ▸ List.mem_map_of_mem hu
  have hparts : ∀ u ∈ p.units, u.source.parts ≠ [] := fun u hu => (hclear _ (hmem u hu)).2
  have hcompiling : p.workspace.IsCompiling r sources p.units start.workspace.runs :=
    ⟨horderly'.linkless, horderly'.sound, hp.workspace.tools ▸ hmodest, hcode, htries hp⟩
  refine .bind ((ensures_makeObjects_called r.output
    (Workspace.IsCompiling r sources p.units start.workspace.runs) hparts ?_ ?_).mono ?_
    (fun _ _ => id) fun _ p' hp' => hp'.1.2.found) fun _ => .of_each ?_
  · intro w ns c hw
    exact ⟨hw.linkless, hw.sound, hw.modest, hw.code, hw.found⟩
  · exact fun u hu w ns hw => hw.afterCall hu (hmem u hu) ns
  · rintro _ rfl
    exact ⟨rfl, hcompiling⟩
  · rintro p₂ ⟨hunits₂, hp₂⟩
    have hlinked : ∀ {p₃ : Project}, p₃.workspace.HasLinked p₂.workspace.tools p₂.workspace.runs →
        p₃.workspace.HasFoundClean r.toolchain sources start.workspace.runs :=
      fun hp₃ => hp₂.found.of_role .link (by decide) hp₃.2
    refine .bind ((ensures_makeProgram_called sources p₂ (hunits₂ ▸ hparts)).mono (fun _ => id)
      (fun _ _ hp₃ => hlinked hp₃) fun _ _ hp₃ => hlinked hp₃.1) fun _ => .of_pure fun _ hp₃ => hp₃

end Project

/-- A build of discovered units, however it ends: no run of the compiler has found a directive. -/
theorem Workspace.ensures_buildUnits_clean {r : BuildRequest} {w : Workspace}
    {sources : List Path} (hl : w.files.IsLinkless) (hsound : w.files.tree.IsSound)
    (hsources : w.files.sources r.root = .ok sources) (htools : w.tools.IsObedient r sources)
    (hnames : ∀ s ∈ sources, s.name.FitsLine) (hheaders : w.files.HeadersFit) (start : Rat)
    (c : Console) (ns : List Notice) :
    Action.Ensures (· = { w with console := c, notices := ns })
      (buildUnits start r (sources.map TranslationUnit.ofSource))
      (fun _ w' => w'.HasFoundClean r.toolchain sources w.runs)
      fun _ w' => w'.HasFoundClean r.toolchain sources w.runs := by
  have horderly : Workspace.IsOrderly r.toolchain sources { w with console := c, notices := ns } :=
    ⟨hl, hsound, Files.apart_of_sources hsound hsources,
      Files.named_of_sources hl hsound hsources, hheaders, htools.transpile⟩
  have hphases := Project.ensures_phasesOf_clean ⟨{ w with console := c, notices := ns },
    sources.map TranslationUnit.ofSource⟩ hnames (Files.isClear_of_sources hsources) horderly
    htools.toIsModest rfl
  rintro _ rfl
  unfold buildUnits
  rcases hends : Project.phasesOf r ⟨{ w with console := c, notices := ns },
    sources.map TranslationUnit.ofSource⟩ with ⟨warnings, p⟩ | ⟨e, p⟩
  · exact hphases.ok rfl hends
  · -- A failure is reported or not, and either way no tool is called any more.
    have hfound := hphases.error rfl hends
    cases e with
    | build b => exact hfound
    | _ => exact hfound

/-- A build has the compiler read no directive: whenever it is called, it is for the C text of one
    of the sources, and no line of what is on disk then is a directive. -/
theorem compiled_without_directives {r : BuildRequest} {verbose : Bool} {w : Workspace}
    {sources : List Path} (hl : w.files.IsLinkless) (hsound : w.files.tree.IsSound)
    (hsources : w.files.sources r.root = .ok sources) (htools : w.tools.IsObedient r sources)
    (hunits : ∀ s ∈ sources, s.name.IsOneLine)
    (hheaders : ∀ place x b, w.files.tree.find? (place ++ [x]) = some (.file b) →
      x.endsWith headerEnding = true → x.IsOneLine) :
    ∃ runs, (workspaceAfter (build r verbose w)).runs = w.runs ++ runs ∧
      ∀ run ∈ runs, run.call.role = .compile → ∃ s ∈ sources, ∃ settings content,
        run.call = Desk.compileCall r.toolchain settings (Artifacts.beside s) ∧
        run.found.read (Artifacts.beside s).code = .ok content ∧
        ∀ line ∈ Bytes.lines content, ¬ Bytes.IsDirective line := by
  have hnames : ∀ s ∈ sources, s.name.FitsLine := fun s hs => (hunits s hs).fitsLine
  have hfit : w.files.HeadersFit := fun place x b hfind hends =>
    (hheaders place x b hfind hends).fitsLine
  have hfound : Action.Ensures (· = w) (build r verbose)
      (fun _ w' => w'.HasFoundClean r.toolchain sources w.runs)
      fun _ w' => w'.HasFoundClean r.toolchain sources w.runs := by
    refine ensures_build r verbose ?_ ?_ ?_
    · intro sources' start c ns hsources'
      rw [hsources, Except.ok.injEq] at hsources'
      subst hsources'
      exact Workspace.ensures_buildUnits_clean hl hsound hsources htools hnames hfit start c ns
    · intro b start c ns _
      rintro _ rfl
      exact Workspace.hasFoundClean_refl r.toolchain sources w
    · intro e c _ _
      exact Workspace.hasFoundClean_refl r.toolchain sources w
  rcases hbuild : build r verbose w with ⟨report, w'⟩ | ⟨e, w'⟩
  · exact hfound.ok rfl hbuild
  · exact hfound.error rfl hbuild

/-- Two units, one of which is nothing but two directives. -/
def directedWorkspace : Workspace :=
  { importingWorkspace with
    files := ⟨{ entries := [(["b.cz"], .file []),
      (["a.cz"], .file (Encoding.encode "#pragma czar\r#pragma czar"))] }, []⟩ }

theorem isOneLine_importing : ∀ s ∈ importingSources, s.name.IsOneLine := by
  have hreads : ∀ s ∈ importingSources,
      Encoding.decode (Encoding.encode s.name) = s.name ∧
        ∀ b ∈ Encoding.encode s.name, b ≠ 0x0D ∧ b ≠ 0x0A := by
    decide +kernel
  exact fun s hs => ⟨_, hreads s hs⟩

theorem compiled_directed :
    (workspaceAfter (build importingRequest false directedWorkspace)).runs.any
      (fun run => decide (run.call.role = .compile)) = true := by
  set_option maxRecDepth 20000 in cbv

theorem compiled_without_directives_directed :
    ∃ run ∈ (workspaceAfter (build importingRequest false directedWorkspace)).runs,
      run.call.role = .compile ∧ ∃ s ∈ importingSources, ∃ content,
        run.found.read (Artifacts.beside s).code = .ok content ∧
        ∀ line ∈ Bytes.lines content, ¬ Bytes.IsDirective line := by
  have hsources : directedWorkspace.files.sources importingRequest.root = .ok importingSources := by
    cbv
  -- There are no headers before the build.
  have hheaders : ∀ place x b,
      directedWorkspace.files.tree.find? (place ++ [x]) = some (.file b) →
        x.endsWith headerEnding = true → x.IsOneLine := by
    intro place x b hfind hends
    have hnone : ∀ q ∈ directedWorkspace.files.tree.entries.map (·.1), ∀ x ∈ q.getLast?,
        x.endsWith headerEnding = false := by
      decide +kernel
    have hmem := (Tree.mem_entries_iff (List.append_ne_nil_of_right_ne_nil place
      (List.cons_ne_nil x []))).mpr ⟨_, hfind⟩
    rw [hnone _ hmem x List.getLast?_concat] at hends
    cases hends
  rcases @compiled_without_directives importingRequest false directedWorkspace importingSources
    (Files.isLinkless_of_linkCount (by decide +kernel)) ⟨by decide +kernel, by decide +kernel⟩
    hsources isObedient_importing isOneLine_importing hheaders with ⟨runs, hruns, hclean⟩
  rcases List.any_eq_true.mp compiled_directed with ⟨run, hrun, hrole⟩
  have hcompile : run.call.role = .compile := of_decide_eq_true hrole
  have hnew : run ∈ runs := by
    rw [hruns] at hrun
    exact hrun
  rcases hclean run hnew hcompile with ⟨s, hs, _, content, _, hread, hlines⟩
  exact ⟨run, hrun, hcompile, s, hs, content, hread, hlines⟩

end DialectBuild
