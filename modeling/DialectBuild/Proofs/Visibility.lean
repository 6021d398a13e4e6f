import DialectBuild.Proofs.AlikeFiles
import DialectBuild.Proofs.UnitRuns

/-!
# What Units of a Directory See of Each Other

After the first two phases of a build, every unit's C text includes its own header and the
headers of all units beside it, and the files on disk are what the units hold.

The argument follows the two passes over the units. A step of one unit touches only places
that belong to this unit, so whatever is known of another unit stays true. In particular a
header that was written in the first pass is still there after the second one, in which only
C texts are written. Include lines keep their meaning through all of this, because without
links a path always leads to the place it spells.

## Main definitions

* `Workspace.StepsWithin`: A step that touches only what belongs to one unit.
* `Workspace.IsTidy`: What the passes rely on.
* `Workspace.Staged`: The text of a unit before its imports are expanded.
* `Workspace.Exported`: The header of a unit is on disk.
* `Workspace.Visible`: What holds of a unit in the end.

## Theorems

* `Workspace.stepsWithin_prepare`, `Workspace.stepsWithin_finish`: Steps stay within their unit.
* `Project.writeSources_visible`: What the first two phases leave behind.
-/

namespace DialectBuild

namespace Workspace

/-- A step of the unit with the given source: it touches only places of its own, and tool runs
    are added to those before. -/
structure StepsWithin (source : Path) (w w' : Workspace) : Prop where
  /-- Only places of the unit are touched. -/
  files : Files.ChangesOnly (w.files.Owns source) w.files w'.files
  /-- The tools are the same. -/
  tools : w'.tools = w.tools
  /-- Runs are only added. -/
  runs : w.runs <+: w'.runs

/-- A transpiler that writes nothing but the C text it is asked for. -/
def WritesOnlyCode (w : Workspace) (tools : Toolchain) (sources : List Path) : Prop :=
  ∀ command ∈ tools.transpiler, ∀ s ∈ sources, ∀ a, Artifacts.ofSource s = .ok a →
    ∀ f : Files, f.IsLinkless → Files.ChangesOnly (· = f.placeOf a.code) f
      (w.tools.run (Desk.transpileCall command s a) f).2

/-- What the passes over the units rely on. The build started after `n` tool runs. -/
structure IsTidy (tools : Toolchain) (n : Nat) (sources : List Path) (w : Workspace) : Prop where
  /-- There are no links. -/
  linkless : w.files.IsLinkless
  /-- The sources lead to different places. -/
  apart : w.files.Apart sources
  /-- The transpiler writes what it should. -/
  transpiler : w.WritesOnlyCode tools sources
  /-- The build has started. -/
  started : n ≤ w.runs.length

/-- The C text of a unit before its imports are expanded: the source itself or what the
    transpiler made of it in this build, without directives. -/
def Staged (tools : Toolchain) (n : Nat) (w : Workspace) (u : TranslationUnit) (staged : Text) :
    Prop :=
  w.files.text u.source = .ok u.rawText ∧
    ∃ out, staged = (Stripped.ofText BufferSize.default out).text ∧
      ((tools.transpiler = none ∧ out = u.rawText) ∨
        ∃ command a r, tools.transpiler = some command ∧ Artifacts.ofSource u.source = .ok a ∧
          r ∈ w.runs.drop n ∧ r.call = Desk.transpileCall command u.source a ∧
          (w.tools.run r.call r.found).2.text a.code = .ok out)

/-- The header for the functions that a text exports is on disk. -/
def Exported (root : Path) (w : Workspace) (source : Path) (staged : Text) : Prop :=
  ∃ a, Artifacts.ofSource source = .ok a ∧
    w.files.read a.header = .ok (Encoding.encode
      (Header.text (exported staged) a.header.name (Path.display root a.header)))

/-- What holds of a unit when the C text that is compiled has been written. -/
structure Visible (root : Path) (tools : Toolchain) (n : Nat) (sources : List Path)
    (w : Workspace) (u : TranslationUnit) : Prop where
  /-- Its header on disk is the one for its staged text. -/
  header : ∃ staged, Staged tools n w u staged ∧ Exported root w u.source staged
  /-- Its C text on disk is its text. -/
  code : ∃ a, Artifacts.ofSource u.source = .ok a ∧
    w.files.read a.code = .ok (Encoding.encode u.text)
  /-- It includes the header of every unit in its directory, its own among them. -/
  sees : ∀ s ∈ sources, s.parent = u.source.parent → ∃ b, Artifacts.ofSource s = .ok b ∧
    Include.Reaches w.files u.directory u.text.codeLines b.header
  /-- Its own header is not among those beside it. -/
  own : ∀ a, Artifacts.ofSource u.source = .ok a → a.header ∉ u.siblings

section Frame

variable {root source : Path} {tools : Toolchain} {n : Nat} {sources : List Path}
  {w w' : Workspace} {v : TranslationUnit} {staged : Text}

theorem IsTidy.step (h : IsTidy tools n sources w) (hs : StepsWithin source w w') :
    IsTidy tools n sources w' where
  linkless := hs.files.isLinkless h.linkless
  apart := h.apart.of_changesOnly hs.files
  transpiler := by
    rw [WritesOnlyCode, hs.tools]
    exact h.transpiler
  started := Nat.le_trans h.started hs.runs.length_le

/-- A source is read as before after any step. -/
theorem text_of_stepsWithin (h : IsTidy tools n sources w) (hs : StepsWithin source w w')
    {s : Path} (hmem : s ∈ sources) {t : Text} (ht : w.files.text s = .ok t) :
    w'.files.text s = .ok t := by
  rcases Files.text_eq_ok_iff.mp ht with ⟨b, hb, hdecode⟩
  refine Files.text_eq_ok_iff.mpr ⟨b, hs.files.read h.linkless hb ?_, hdecode⟩
  exact Files.not_owns_source (h.apart.isSource s hmem)

theorem staged_of_stepsWithin (h : IsTidy tools n sources w) (hs : StepsWithin source w w')
    (hv : v.source ∈ sources) (hstaged : Staged tools n w v staged) :
    Staged tools n w' v staged := by
  rcases hstaged with ⟨hraw, out, hout, hcase⟩
  -- Runs are only added, so the run that made the text is still among them.
  refine ⟨text_of_stepsWithin h hs hv hraw, out, hout, hcase.imp id ?_⟩
  rintro ⟨command, a, r, hcommand, ha, hr, hcall, hread⟩
  refine ⟨command, a, r, hcommand, ha, ?_, hcall, hs.tools ▸ hread⟩
  rcases hs.runs with ⟨more, hmore⟩
  rw [← hmore, List.drop_append_of_le_length h.started]
  exact List.mem_append_left more hr

theorem exported_of_stepsWithin (h : IsTidy tools n sources w) (hs : StepsWithin source w w')
    (hsource : source ∈ sources) {s : Path} (hmem : s ∈ sources) (hne : s ≠ source)
    (hexported : Exported root w s staged) : Exported root w' s staged := by
  rcases hexported with ⟨a, ha, hread⟩
  refine ⟨a, ha, ?_⟩
  rcases Artifacts.ofSource_eq_ok_iff.mp ha with ⟨_, rfl⟩
  exact h.apart.read_of_owns h.linkless hs.files hsource hmem hne (by decide) hread

/-- An include line leads where it led before. -/
theorem reaches_of_changesOnly {touched : Place → Prop} {f g : Files}
    (h : Files.ChangesOnly touched f g) (hl : f.IsLinkless) {base header : Path}
    {lines : List Text} (hreach : Include.Reaches f base lines header) :
    Include.Reaches g base lines header := by
  rcases hreach with ⟨place, hplace, l, hl', htarget⟩
  refine ⟨place, ((h.alike hl).resolve_eq header).trans hplace, l, hl', ?_⟩
  rw [(h.alike hl).target_eq]
  exact htarget

/-- A step of one unit keeps what holds of another one. -/
theorem visible_of_stepsWithin (h : IsTidy tools n sources w) (hs : StepsWithin source w w')
    (hsource : source ∈ sources) (hv : v.source ∈ sources) (hne : v.source ≠ source)
    (hvisible : Visible root tools n sources w v) : Visible root tools n sources w' v := by
  rcases hvisible with ⟨⟨staged, hstaged, hexported⟩, ⟨a, ha, hread⟩, hsees, hown⟩
  refine ⟨⟨staged, staged_of_stepsWithin h hs hv hstaged,
    exported_of_stepsWithin h hs hsource hv hne hexported⟩, ⟨a, ha, ?_⟩, ?_, hown⟩
  · rcases Artifacts.ofSource_eq_ok_iff.mp ha with ⟨_, rfl⟩
    exact h.apart.read_of_owns h.linkless hs.files hsource hv hne (by decide) hread
  · intro s hmem hparent
    rcases hsees s hmem hparent with ⟨b, hb, hreach⟩
    exact ⟨b, hb, reaches_of_changesOnly hs.files h.linkless hreach⟩

end Frame

section Steps

variable {root : Path} {tools : Toolchain} {n : Nat} {sources : List Path} {d d' : Desk} {u : Unit}

/-- Making C text touches its place only, and what was made is known from the runs. -/
theorem changesOnly_transpiles {w : Workspace} {source : Path} {a : Artifacts} {raw out : Text}
    {f : Files} {runs : List ToolRun} (h : IsTidy tools n sources w) (hmem : source ∈ sources)
    (ha : Artifacts.ofSource source = .ok a)
    (hout : Desk.Transpiles tools w source a raw out f runs) :
    Files.ChangesOnly (· = w.files.placeOf a.code) w.files f ∧ w.runs <+: runs ∧
      ((tools.transpiler = none ∧ out = raw) ∨
        ∃ command r, tools.transpiler = some command ∧ r ∈ runs.drop n ∧
          r.call = Desk.transpileCall command source a ∧
          (w.tools.run r.call r.found).2.text a.code = .ok out) := by
  cases hout with
  | plain hnone => exact ⟨Files.ChangesOnly.refl _ _, List.prefix_rfl, Or.inl ⟨hnone, rfl⟩⟩
  | @external command _ e hsome hread =>
      refine ⟨h.transpiler command hsome source hmem a ha w.files h.linkless,
        List.prefix_append _ _,
        Or.inr ⟨command, ⟨Desk.transpileCall command source a, w.files, .ok e⟩, hsome, ?_, rfl,
          hread⟩⟩
      -- The run is the last one, and so past the first `n`.
      rw [List.drop_append_of_le_length h.started]
      exact List.mem_append_right _ List.mem_cons_self

/-- The first stage touches only what belongs to the unit, and leaves its header on disk. -/
theorem stepsWithin_prepare (h : Project.prepareShown root tools d = .ok u d')
    (htidy : IsTidy tools n sources d.workspace) (hmem : d.unit.source ∈ sources) :
    StepsWithin d.unit.source d.workspace d'.workspace ∧ d'.unit.source = d.unit.source ∧
      d'.unit.importsResolved = d.unit.importsResolved ∧
      d'.unit.siblingsInjected = d.unit.siblingsInjected ∧
      Staged tools n d'.workspace d'.unit d'.unit.text ∧
      Exported root d'.workspace d'.unit.source d'.unit.text := by
  rcases Project.prepareShown_eq_ok h with ⟨c, d₁, hprepare, rfl⟩
  rcases Desk.prepare_eq_ok hprepare with
    ⟨a, raw, out, f₁, f₂, f₃, runs, ns, staged, ha, hraw, hout, hstaged, hcode, hheader, rfl⟩
  rcases changesOnly_transpiles htidy hmem ha hout with ⟨hmade, hruns, hcase⟩
  rcases Artifacts.ofSource_eq_ok_iff.mp ha with ⟨_, rfl⟩
  -- The three changes one after the other, all at places of the unit.
  have hl₁ := hmade.isLinkless htidy.linkless
  have hfirst : Files.ChangesOnly (d.workspace.files.Owns d.unit.source) d.workspace.files f₁ :=
    hmade.mono (fun place hplace => ⟨".c", by decide, by
      rw [hplace, Files.placeOf_written (by decide)]⟩)
  have hsecond := Files.changesOnly_owns hl₁ (by decide) (by decide) hcode
  have hl₂ := hsecond.isLinkless hl₁
  have hthird := Files.changesOnly_owns hl₂ (by decide) (by decide) hheader
  rw [hsecond.owns_eq] at hthird
  have hlast := hsecond.trans hthird
  rw [hfirst.owns_eq] at hlast
  have hstep : StepsWithin d.unit.source d.workspace
      { d.workspace with files := f₃, notices := ns, runs := runs, console := c } :=
    ⟨hfirst.trans hlast, rfl, hruns⟩
  refine ⟨hstep, rfl, rfl, rfl, ⟨text_of_stepsWithin htidy hstep hmem hraw, out, hstaged, ?_⟩, ?_⟩
  · exact hcase.imp id (fun ⟨command, r, hcommand, hr⟩ => ⟨command, _, r, hcommand, ha, hr⟩)
  · exact ⟨_, ha, (Files.changesOnly_writeAtomic hl₂ (by decide) (by decide) hheader).2⟩

/-- A unit's own header is not among those beside it. -/
theorem own_not_mem_headersBeside {source : Path} {siblings : List Path} {a : Artifacts}
    (hs : headersBeside source sources = .ok siblings) (ha : Artifacts.ofSource source = .ok a) :
    a.header ∉ siblings := by
  intro hmem
  rcases Artifacts.ofSource_eq_ok_iff.mp ha with ⟨hparts, rfl⟩
  rcases (mem_headersBeside_iff hs).mp hmem with ⟨s, _, hparent, hne, hparts', heq⟩
  have hname := List.append_cancel_right (Path.child_injective heq)
  exact hne (by rw [← Path.child_parent hparts', hparent, ← hname, Path.child_parent hparts])

/-- Among the headers of a directory that injection looks for are those of all units there. -/
theorem mem_of_parent_eq {source s : Path} {siblings : List Path} {a b : Artifacts}
    (hs : headersBeside source sources = .ok siblings) (ha : Artifacts.ofSource source = .ok a)
    (hmem : s ∈ sources) (hparent : s.parent = source.parent)
    (hb : Artifacts.ofSource s = .ok b) : b.header ∈ a.header :: siblings := by
  by_cases hne : s = source
  · rw [hne, ha] at hb
    rw [Except.ok.inj hb]
    exact List.mem_cons_self
  · rcases Artifacts.ofSource_eq_ok_iff.mp hb with ⟨hparts, rfl⟩
    exact List.mem_cons_of_mem _ ((mem_headersBeside_iff hs).mpr
      ⟨s, hmem, hparent, hne, hparts, by rw [hparent]⟩)

/-- The second stage touches only what belongs to the unit. It writes the C text, and what the
    unit exports is known as before. -/
theorem stepsWithin_finish {staged : Text} (h : Project.finishShown root sources d = .ok u d')
    (htidy : IsTidy tools n sources d.workspace) (hmem : d.unit.source ∈ sources)
    (hquotable : ∀ s ∈ sources, s.IsQuotable) (himports : d.unit.importsResolved = false)
    (hsiblings : d.unit.siblingsInjected = false)
    (hstaged : Staged tools n d.workspace d.unit staged)
    (hexported : Exported root d.workspace d.unit.source staged) :
    StepsWithin d.unit.source d.workspace d'.workspace ∧ d'.unit.source = d.unit.source ∧
      Visible root tools n sources d'.workspace d'.unit := by
  rcases Project.finishShown_eq_ok h with ⟨c, d₁, hfinish, rfl⟩
  rcases Desk.finish_eq_ok himports hsiblings hfinish with
    ⟨x, siblings, a, i, f, ns, _, _, ha, hbeside, hi, hcode, rfl⟩
  rcases hexported with ⟨a', ha', hheader⟩
  rw [ha] at ha'
  rw [← Except.ok.inj ha'] at hheader
  rcases Artifacts.ofSource_eq_ok_iff.mp ha with ⟨_, hplaces⟩
  have hcodePath : a.code = d.unit.source.parent.child (d.unit.source.name ++ ".c") := by
    rw [hplaces]
  rw [hcodePath] at hcode
  have hstep : StepsWithin d.unit.source d.workspace
      { d.workspace with files := f, notices := ns, console := c } :=
    ⟨Files.changesOnly_owns htidy.linkless (by decide) (by decide) hcode, rfl, List.prefix_rfl⟩
  rcases Files.changesOnly_writeAtomic htidy.linkless (by decide) (by decide) hcode with
    ⟨hchanges, hread⟩
  -- Only the C text is written, and the header stays as the first stage has left it.
  refine ⟨hstep, rfl, ?_, ?_, ?_, ?_⟩
  · refine ⟨staged, staged_of_stepsWithin htidy hstep hmem hstaged, a, ha, ?_⟩
    have hheaderPath : a.header = d.unit.source.parent.child (d.unit.source.name ++ ".h") := by
      rw [hplaces]
    rw [hheaderPath] at hheader ⊢
    exact Files.read_of_writeAtomic htidy.linkless (by decide) (by decide) (by decide)
      (by decide) hcode hheader
  · exact ⟨a, ha, hcodePath ▸ hread⟩
  · intro s hs hparent
    have hparts := (htidy.apart.isSource s hs).parts
    have hb : Artifacts.ofSource s = .ok _ := Artifacts.ofSource_eq_ok_iff.mpr ⟨hparts, rfl⟩
    refine ⟨_, hb, reaches_of_changesOnly hchanges htidy.linkless ?_⟩
    refine Injection.reaches_text hi (Include.isListed_of_headersBeside hbeside ha ?_ ?_) _
      (mem_of_parent_eq hbeside ha hs hparent hb)
    · exact List.forall_mem_cons.mpr ⟨(htidy.apart.isSource _ hmem).noSlash,
        fun s hs => (htidy.apart.isSource s hs).noSlash⟩
    · exact List.forall_mem_cons.mpr ⟨hquotable _ hmem, hquotable⟩
  · intro a' ha'
    have heq : a' = a := Except.ok.inj (ha'.symm.trans ha)
    rw [heq]
    exact own_not_mem_headersBeside hbeside ha

end Steps

end Workspace

namespace Project

open Workspace

section Passing

variable {root : Path} {tools : Toolchain} {n : Nat} {sources : List Path} {w w' : Workspace}
  {us us' : List TranslationUnit}

/-- A unit of the build that has not been amended yet. -/
def IsFresh (sources : List Path) (u : TranslationUnit) : Prop :=
  u.source ∈ sources ∧ u.importsResolved = false ∧ u.siblingsInjected = false

/-- A unit that has passed the first stage. -/
def IsPrepared (root : Path) (tools : Toolchain) (n : Nat) (sources : List Path) (w : Workspace)
    (u : TranslationUnit) : Prop :=
  IsFresh sources u ∧ Staged tools n w u u.text ∧ Exported root w u.source u.text

/-- The first pass prepares every unit. -/
theorem isPrepared_of_passes
    (h : Passes (fun w u w' u' => ∃ x, prepareShown root tools ⟨w, u⟩ = .ok x ⟨w', u'⟩) w us w' us')
    (htidy : IsTidy tools n sources w) (hnodup : (us.map TranslationUnit.source).Nodup)
    (hfresh : ∀ u ∈ us, IsFresh sources u) :
    IsTidy tools n sources w' ∧ (∀ u ∈ us', IsPrepared root tools n sources w' u) ∧
      us'.map TranslationUnit.source = us.map TranslationUnit.source := by
  refine h.forall_of_done (IsTidy tools n sources) (fun _ u => IsFresh sources u)
    (IsPrepared root tools n sources) ?_ ?_ ?_ [] htidy hnodup
    (fun u hu => absurd hu List.not_mem_nil) hfresh
  -- The unit on the desk is prepared, and prepared units stay so.
  · rintro w u w' u' ⟨x, hx⟩ htidy ⟨hmem, himports, hsiblings⟩
    rcases stepsWithin_prepare hx htidy hmem with ⟨hstep, hsource, himports', hsiblings', hrest⟩
    refine ⟨htidy.step hstep, ⟨⟨?_, ?_, ?_⟩, hrest⟩, hsource⟩
    · exact hsource ▸ hmem
    · exact himports'.trans himports
    · exact hsiblings'.trans hsiblings
  · exact fun _ _ _ v _ hv => hv
  · rintro w u w' u' ⟨x, hx⟩ htidy ⟨hmem, _⟩ v hne ⟨hv, hstaged, hexported⟩
    have hstep := (stepsWithin_prepare hx htidy hmem).1
    exact ⟨hv, staged_of_stepsWithin htidy hstep hv.1 hstaged,
      exported_of_stepsWithin htidy hstep hmem hv.1 hne hexported⟩

/-- The second pass makes every unit see the others. -/
theorem visible_of_passes (hquotable : ∀ s ∈ sources, s.IsQuotable)
    (h : Passes (fun w u w' u' => ∃ x, finishShown root sources ⟨w, u⟩ = .ok x ⟨w', u'⟩)
      w us w' us')
    (htidy : IsTidy tools n sources w) (hnodup : (us.map TranslationUnit.source).Nodup)
    (hprepared : ∀ u ∈ us, IsPrepared root tools n sources w u) :
    (∀ u ∈ us', Visible root tools n sources w' u) ∧
      us'.map TranslationUnit.source = us.map TranslationUnit.source := by
  have hall := h.forall_of_done (IsTidy tools n sources) (IsPrepared root tools n sources)
    (fun w u => u.source ∈ sources ∧ Visible root tools n sources w u) ?_ ?_ ?_ [] htidy
    hnodup (fun u hu => absurd hu List.not_mem_nil) hprepared
  · exact ⟨fun u hu => (hall.2.1 u hu).2, hall.2.2⟩
  -- The unit on the desk sees the others, and neither waiting nor done units are disturbed.
  · rintro w u w' u' ⟨x, hx⟩ htidy ⟨⟨hmem, himports, hsiblings⟩, hstaged, hexported⟩
    rcases stepsWithin_finish hx htidy hmem hquotable himports hsiblings hstaged hexported with
      ⟨hstep, hsource, hvisible⟩
    exact ⟨htidy.step hstep, ⟨hsource ▸ hmem, hvisible⟩, hsource⟩
  · rintro w u w' u' ⟨x, hx⟩ htidy ⟨⟨hmem, himports, hsiblings⟩, hstaged, hexported⟩ v hne
      ⟨hv, hstaged', hexported'⟩
    have hstep := (stepsWithin_finish hx htidy hmem hquotable himports hsiblings hstaged
      hexported).1
    exact ⟨hv, staged_of_stepsWithin htidy hstep hv.1 hstaged',
      exported_of_stepsWithin htidy hstep hmem hv.1 hne hexported'⟩
  · rintro w u w' u' ⟨x, hx⟩ htidy ⟨⟨hmem, himports, hsiblings⟩, hstaged, hexported⟩ v hne
      ⟨hv, hvisible⟩
    have hstep := (stepsWithin_finish hx htidy hmem hquotable himports hsiblings hstaged
      hexported).1
    exact ⟨hv, visible_of_stepsWithin htidy hstep hmem hv hne hvisible⟩

end Passing

/-- What the first two phases leave behind: every unit that was discovered has its header and
    its C text on disk, and includes the headers of all units in its directory. -/
theorem writeSources_visible {root : Path} {tools : Toolchain} {w w' : Workspace}
    {units : List TranslationUnit} {p : Project} (hdiscover : discover root w = .ok units w')
    (hsound : w.files.tree.IsSound) (hlinkless : w.files.IsLinkless)
    (hquotable : ∀ u ∈ units, u.source.IsQuotable)
    (htranspiler : w.WritesOnlyCode tools (units.map TranslationUnit.source))
    (hwrite : writeSources root tools ⟨w', units⟩ = .ok () p) :
    p.units.map TranslationUnit.source = units.map TranslationUnit.source ∧
      ∀ u ∈ p.units, Visible root tools w.runs.length (units.map TranslationUnit.source)
        p.workspace u := by
  rcases discover_eq_ok hdiscover with ⟨sources, ns, hsources, rfl, rfl⟩
  have hmap : (sources.map TranslationUnit.ofSource).map TranslationUnit.source = sources := by
    rw [List.map_map]
    exact List.map_id sources
  rw [hmap] at htranspiler ⊢
  have hapart := Files.apart_of_sources hsound hsources
  have hnodup : ((sources.map TranslationUnit.ofSource).map TranslationUnit.source).Nodup :=
    hmap.symm ▸ hapart.nodup
  rcases writeSources_eq_ok hwrite with ⟨c, c₁, c₂, xs, ys, q, r, hfirst, hsecond, rfl⟩
  rw [hmap] at hsecond
  -- First pass.
  have htidy : IsTidy tools w.runs.length sources { w with notices := ns, console := c } :=
    ⟨hlinkless, hapart, htranspiler, Nat.le_refl _⟩
  have hfresh : ∀ u ∈ sources.map TranslationUnit.ofSource, IsFresh sources u :=
    List.forall_mem_map.mpr (fun s hs => ⟨hs, rfl, rfl⟩)
  rcases isPrepared_of_passes (passes_of_runUnits (fun h => ⟨_, h⟩) hfirst) htidy hnodup hfresh
    with ⟨htidy₁, hprepared, hsources₁⟩
  -- Second pass, with another console.
  have htidy₂ : IsTidy tools w.runs.length sources { q.workspace with console := c₁ } :=
    ⟨htidy₁.linkless, htidy₁.apart, htidy₁.transpiler, htidy₁.started⟩
  have hquotable' : ∀ s ∈ sources, s.IsQuotable :=
    fun s hs => hquotable _ (List.mem_map_of_mem hs)
  rcases visible_of_passes hquotable' (passes_of_runUnits (fun h => ⟨_, h⟩) hsecond) htidy₂
    (hsources₁.symm ▸ hnodup) hprepared with ⟨hvisible, hsources₂⟩
  refine ⟨hsources₂.trans (hsources₁.trans hmap), fun u hu => ?_⟩
  -- Nothing of this depends on the console.
  rcases hvisible u hu with ⟨hheader, hcode, hsees, hown⟩
  exact ⟨hheader, hcode, hsees, hown⟩

/-- A transpiler that writes the same C text for every source. -/
def pairTools : Tools where
  run call f :=
    match f.write (Path.ofText (call.command.getLast?.getD [])) (Encoding.encode "v f(){}") with
    | .ok g => (.ok ⟨0, [], []⟩, g)
    | .error e => (.error e, f)

/-- A directory with two sources. -/
def pairWorkspace : Workspace where
  files := ⟨{ entries :=
    [(["p"], .dir), (["p", "b.cz"], .file []), (["p", "a.cz"], .file [])] }, []⟩
  tools := pairTools
  console := { verbose := false }

/-- The transpiler of the pair is external. -/
def pairToolchain : Toolchain :=
  { (default : Toolchain) with transpiler := some ["t"] }

/-- The two sources. -/
def pairSources : List Path :=
  ["p/a.cz", "p/b.cz"]

theorem writesOnlyCode_pair : pairWorkspace.WritesOnlyCode pairToolchain pairSources := by
  have hreads : ∀ s ∈ pairSources, Path.ofText (s.parent.child (s.name ++ ".c")).text =
      s.parent.child (s.name ++ ".c") := by
    decide +kernel
  intro command _ s hs a ha f hl
  rcases Artifacts.ofSource_eq_ok_iff.mp ha with ⟨_, rfl⟩
  dsimp only
  -- The last word of the call is the path of the C text, and it is read as that path again.
  generalize hcode : s.parent.child (s.name ++ ".c") = code
  have hread : Path.ofText code.text = code := hcode ▸ hreads s hs
  have hlast : ∀ a : Artifacts, (Desk.transpileCall command s a).command.getLast? =
      some a.code.text := by
    intro a
    rw [Desk.transpileCall, List.getLast?_append]
    rfl
  rw [pairWorkspace, pairTools]
  dsimp only
  rw [hlast, Option.getD_some, hread]
  rcases hwrite : f.write code (Encoding.encode "v f(){}") with e | g
  · exact Files.ChangesOnly.refl _ f
  · exact (Files.write_eq_ok hl hwrite).1

/-- Whether the phases succeeded. -/
def hasSucceeded : EStateM.Result Failure Project Unit → Bool
  | .ok _ _ => true
  | .error _ _ => false

theorem writeSources_visible_pair : ∃ w' p,
    discover "p" pairWorkspace = .ok (pairSources.map TranslationUnit.ofSource) w' ∧
    writeSources "p" pairToolchain ⟨w', pairSources.map TranslationUnit.ofSource⟩ = .ok () p ∧
    p.units.map TranslationUnit.source = pairSources ∧
    ∀ u ∈ p.units, Visible "p" pairToolchain 0 pairSources p.workspace u := by
  have hdiscover : discover "p" pairWorkspace = .ok (pairSources.map TranslationUnit.ofSource)
      { pairWorkspace with
        notices := [.debug .discovery "Discovered 2 unit(s) under p"] } := by
    cbv
  have hsucceeds : hasSucceeded (writeSources "p" pairToolchain ⟨{ pairWorkspace with
      notices := [.debug .discovery "Discovered 2 unit(s) under p"] },
      pairSources.map TranslationUnit.ofSource⟩) = true := by
    cbv
  rcases hwrite : writeSources "p" pairToolchain ⟨{ pairWorkspace with
      notices := [.debug .discovery "Discovered 2 unit(s) under p"] },
      pairSources.map TranslationUnit.ofSource⟩ with ⟨_, p⟩ | ⟨e, p⟩
  · have hvisible := writeSources_visible hdiscover
      ⟨by decide +kernel, by decide +kernel⟩ (Files.isLinkless_of_linkCount (by decide +kernel))
      (by decide +kernel) writesOnlyCode_pair hwrite
    exact ⟨_, p, hdiscover, hwrite, hvisible⟩
  · rw [hwrite] at hsucceeds
    cases hsucceeds

end Project

end DialectBuild
