import DialectBuild.Proofs.EveryBuild

/-!
# The Files of a Build, However It Ends

A build stores artifacts and borrows the places of temporary files, and it does so unit by unit.
This goes through all phases, whether they succeed or fail: at any time, the files are those at
the start but for what is stored, and nothing new is left where a place was only borrowed.

Whose files they are can be told from their names. All files of a unit are in the directory of
its source, with names that are made of the stem of the source and an ending, and none of the
endings ends with another one. So no place is that of two files, be they of one unit or of two.

## Main definitions

* `Tools.IsObedient`: Tools that write nothing but the file they are asked for.
* `Files.Grants`: Files among which units can be worked on, and the places that these may use.
* `Workspace.Amended`, `Project.Amended`: What a build has made of files so far.

## Theorems

* `Files.Holds.not_endsWith`: No unit holds the place of a source.
* `Files.Apart.not_holds_of_ne`: Different units hold different places.
* `Files.grants_of_sources`: Discovered units can be worked on.
* `Project.amended_pass`: A pass over the units, however it ends.
* `Project.amended_phasesOf`: All phases, however they end.
-/

namespace DialectBuild

/-- How the names of the artifacts of a unit go on after the stem of the source. -/
def artifactEndings : List Text :=
  [".cz.c", ".cz.h", ".o"]

/-- How the names of the temporary files of a unit go on after the stem of the source. -/
def temporaryEndings : List Text :=
  [".cz.c.tmp", ".cz.h.tmp"]

/-- How the names of the files of a unit go on after the stem of the source. -/
def unitEndings : List Text :=
  artifactEndings ++ temporaryEndings

theorem unitEndings_eq_of_suffix :
    ∀ e ∈ unitEndings, ∀ e' ∈ unitEndings, e <:+ e' → e = e' := by
  decide

/-- The name of a source is its stem with the ending of sources. -/
theorem stem_append_sourceEnding {s : Path} (h : sourceEnding <:+ s.name) :
    stem s ++ sourceEnding = s.name := by
  rcases h with ⟨n, hn⟩
  rw [stem, ← hn, List.length_append, Nat.add_sub_cancel, List.take_left]

theorem Artifacts.object_mem_toList (a : Artifacts) : a.object ∈ a.toList :=
  List.mem_cons_of_mem _ (List.mem_cons_of_mem _ List.mem_cons_self)

namespace Files

variable {f g : Files} {s s' : Path}

/-- The places that the unit of a source stores files at or borrows. -/
def Holds (f : Files) (s : Path) (q : Place) : Prop :=
  f.Stores s q ∨ f.Borrows s q

/-- A file of a unit is in the directory of its source. -/
theorem placeOf_unitFile {e : Text} (he : e ∈ unitEndings) (f : Files) (s : Path) :
    f.placeOf (s.parent.child (stem s ++ e)) = f.placeOf s.parent ++ [stem s ++ e] := by
  have hdark : ∀ e ∈ unitEndings, ∃ x ∈ e, x ≠ '.' := by decide
  exact placeOf_child (plain_of_suffix (hdark e he) (List.suffix_append _ e)) f _

/-- The artifacts of a source, by their names. -/
theorem toList_beside (h : s.IsSource) : (Artifacts.beside s).toList =
    artifactEndings.map fun e => s.parent.child (stem s ++ e) := by
  have hname : ∀ e : Text, s.name ++ e = stem s ++ (sourceEnding ++ e) := fun e => by
    rw [← List.append_assoc, stem_append_sourceEnding h.ending]
  simp only [Artifacts.toList, Artifacts.beside, hname]
  rfl

/-- An artifact is in the directory of its source, under its own name. -/
theorem slotOf_artifact (h : s.IsSource) {p : Path} (hp : p ∈ (Artifacts.beside s).toList) :
    f.slotOf p = f.placeOf p := by
  rw [toList_beside h] at hp
  rcases List.mem_map.mp hp with ⟨e, he, rfl⟩
  rw [placeOf_unitFile (List.mem_append_left _ he), slotOf, Path.parent_child, Path.name_child]

/-- What a unit holds is made of its stem and one of the endings. -/
theorem Holds.exists_ending (hs : s.IsSource) {q : Place} (h : f.Holds s q) :
    ∃ e ∈ unitEndings, q = f.placeOf s.parent ++ [stem s ++ e] := by
  have hartifacts := toList_beside hs
  rcases h with ⟨p, hp, rfl⟩ | ⟨p, hp, rfl⟩
  · rw [hartifacts] at hp
    rcases List.mem_map.mp hp with ⟨e, he, rfl⟩
    have hmem : e ∈ unitEndings := List.mem_append_left _ he
    exact ⟨e, hmem, placeOf_unitFile hmem f s⟩
  · simp only [Artifacts.toList, artifactEndings, List.map_cons, List.cons.injEq] at hartifacts
    rw [hartifacts.1, hartifacts.2.1] at hp
    -- A temporary file adds its own ending to the ending of the file it becomes.
    have htemporary : ∀ e : Text, e ++ ".tmp" ∈ unitEndings →
        p = s.parent.child (stem s ++ e) → ∃ e ∈ unitEndings,
          f.placeOf p.temporary = f.placeOf s.parent ++ [stem s ++ e] := by
      rintro e he rfl
      refine ⟨_, he, ?_⟩
      rw [Path.temporary, Path.parent_child, Path.name_child, List.append_assoc,
        placeOf_unitFile he]
    rcases List.mem_cons.mp hp with hcode | hp
    · exact htemporary ".cz.c" (by decide) hcode
    · exact htemporary ".cz.h" (by decide) (List.mem_singleton.mp hp)

/-- No unit holds a place where a source could be. -/
theorem Holds.not_endsWith (hs : s.IsSource) {place : Place} {x : Text}
    (h : f.Holds s (place ++ [x])) : x.endsWith sourceEnding = false := by
  have hends : ∀ e ∈ unitEndings, ¬ e <:+ sourceEnding ∧ ¬ sourceEnding <:+ e := by decide
  rcases h.exists_ending hs with ⟨e, he, heq⟩
  rw [List.singleton_inj.mp (List.append_inj' heq rfl).2]
  exact not_endsWith_append (hends e he).1 (hends e he).2

/-- Units of different sources hold different places. -/
theorem Apart.not_holds_of_ne {sources : List Path} (h : f.Apart sources) (hs : s ∈ sources)
    (hs' : s' ∈ sources) (hne : s ≠ s') {q : Place} (hq : f.Holds s q) : ¬ f.Holds s' q := by
  intro hq'
  rcases hq.exists_ending (h.isSource s hs) with ⟨e, he, rfl⟩
  rcases hq'.exists_ending (h.isSource s' hs') with ⟨e', he', heq⟩
  rcases List.append_inj' heq rfl with ⟨hdir, hname⟩
  rcases eq_of_append_endings unitEndings_eq_of_suffix he he' (List.singleton_inj.mp hname) with
    ⟨hstem, _⟩
  refine h.distinct s hs s' hs' hne ?_
  rw [placeOf_source (h.isSource s hs), placeOf_source (h.isSource s' hs'), hdir,
    ← stem_append_sourceEnding (h.isSource s hs).ending,
    ← stem_append_sourceEnding (h.isSource s' hs').ending, hstem]

/-- The places of the artifacts of some sources. -/
def StoresAny (f : Files) (sources : List Path) (q : Place) : Prop :=
  ∃ s ∈ sources, f.Stores s q

/-- The places of the temporary files for artifacts of some sources. -/
def BorrowsAny (f : Files) (sources : List Path) (q : Place) : Prop :=
  ∃ s ∈ sources, f.Borrows s q

/-- Files among which the units of some sources can be worked on, and the places that these
    units may store files at or borrow. -/
structure Grants (f : Files) (sources : List Path) (stored borrowed : Place → Prop) : Prop where
  /-- The units can be worked on. -/
  hosts : ∀ s ∈ sources, f.Hosts s
  /-- They store files where they may. -/
  stores : ∀ s ∈ sources, ∀ q, f.Stores s q → stored q
  /-- They borrow places that they may. -/
  borrows : ∀ s ∈ sources, ∀ q, f.Borrows s q → stored q ∨ borrowed q

/-- Discovered units may use their own places, and more may be stored. -/
theorem grants_of_sources {root : Path} {sources : List Path} (hl : f.IsLinkless)
    (hsound : f.tree.IsSound) (h : f.sources root = .ok sources) (more : Place → Prop) :
    f.Grants sources (fun q => f.StoresAny sources q ∨ more q) (f.BorrowsAny sources) where
  hosts := hosts_of_sources hl hsound h
  stores := fun s hs _ hq => Or.inl ⟨s, hs, hq⟩
  borrows := fun s hs _ hq => Or.inr ⟨s, hs, hq⟩

end Files

/-- Tools that write nothing but the file they are asked for. -/
structure Tools.IsObedient (tools : Tools) (r : BuildRequest) (sources : List Path) : Prop
    extends tools.IsModest r sources where
  /-- The transpiler writes the C text of the unit. -/
  transpile : ∀ s ∈ sources, ∀ call ∈ transpileCalls r.toolchain s,
    tools.WritesOnly call (Artifacts.beside s).code

theorem isObedient_importing : targetTools.IsObedient importingRequest importingSources where
  toIsModest := isModest_importing
  transpile := fun _ _ _ hcall => absurd hcall List.not_mem_nil

/-- What a build with the tools `ts` has made of the files `f` so far. -/
structure Workspace.Amended (ts : Tools) (stored borrowed : Place → Prop) (f : Files)
    (w : Workspace) : Prop where
  /-- The tools are these. -/
  tools : w.tools = ts
  /-- Files have been stored, and places borrowed. -/
  files : Files.Amends stored borrowed f w.files

/-- A project with which a build is at work among the files `f`. -/
def Project.Amended (ts : Tools) (sources : List Path) (stored borrowed : Place → Prop) (f : Files)
    (p : Project) : Prop :=
  (∀ u ∈ p.units, u.source ∈ sources) ∧ Workspace.Amended ts stored borrowed f p.workspace

section Amending

variable {r : BuildRequest} {sources : List Path} {ts : Tools} {stored borrowed : Place → Prop}
  {f : Files}

namespace Workspace.Amended

variable {w w' : Workspace}

theorem shown (h : Amended ts stored borrowed f w) (htools : w'.tools = w.tools)
    (hfiles : w'.files = w.files) : Amended ts stored borrowed f w' :=
  ⟨htools.trans h.tools, hfiles ▸ h.files⟩

/-- Work on a unit. -/
theorem works (h : Amended ts stored borrowed f w) (hgrants : f.Grants sources stored borrowed)
    {s : Path} (hs : s ∈ sources) {runs : List ToolRun}
    (hobey : ∀ run ∈ runs, ts.WritesOnly run.call (Artifacts.beside s).code)
    (hworks : Works s w runs w') : Amended ts stored borrowed f w' where
  tools := hworks.tools.trans h.tools
  files := by
    have hamends := hworks.files ((hgrants.hosts s hs).amended h.files) (h.tools.symm ▸ hobey)
    rw [h.files.changes.stores_eq, h.files.changes.borrows_eq] at hamends
    exact h.files.trans (hamends.mono (hgrants.stores s hs) (hgrants.borrows s hs))

/-- A tool that is run for a file that may be stored. -/
theorem attempted (h : Amended ts stored borrowed f w) (hl : f.IsLinkless) (hsound : f.tree.IsSound)
    {call : ToolCall} {target : Path} (htarget : stored (f.slotOf target))
    (hobey : ts.WritesOnly call target) {ok : Bool} (hran : Attempted call w ok w') :
    Amended ts stored borrowed f w' := by
  rcases hran with ⟨run, hran, _⟩
  refine ⟨hran.tools.trans h.tools, ?_⟩
  have hchanges := h.files.changes
  rcases hobey w.files (hchanges.isLinkless hl) (h.files.sound hsound) with ⟨hwrites, hsound'⟩
  rw [hchanges.slotOf_eq] at hwrites
  rw [hran.files, h.tools]
  refine h.files.trans ⟨hwrites.mono fun q hq => Or.inl (hq ▸ htarget), fun q hq => Or.inl ?_,
    fun _ => hsound'⟩
  exact hwrites.outside q fun heq => hq (heq ▸ htarget)

end Workspace.Amended

namespace Project

open Workspace

/-- A pass over the units, however it ends, if each step works on its own unit. -/
theorem amended_pass {α : Type} {act : Action Desk α}
    (hstep : ∀ u w, u.source ∈ sources → Workspace.Amended ts stored borrowed f w →
      Action.Ensures (· = ⟨w, u⟩) act
        (fun _ d => d.unit.source = u.source ∧ Workspace.Amended ts stored borrowed f d.workspace)
        fun _ d => d.unit.source = u.source ∧
          Workspace.Amended ts stored borrowed f d.workspace) :
    Action.Ensures (Amended ts sources stored borrowed f) (eachUnit act)
      (fun _ => Amended ts sources stored borrowed f)
      fun _ => Amended ts sources stored borrowed f := by
  -- Done or not, the units are those of the sources, as a step keeps the source of its unit.
  refine (ensures_eachUnit (fun done rest w => (∀ u ∈ done ++ rest, u.source ∈ sources) ∧
    Workspace.Amended ts stored borrowed f w) (fun _ => Amended ts sources stored borrowed f)
    fun done u rest => ?_).mono (fun p hp => hp) (fun _ p hp => ?_) fun _ _ => id
  · refine .of_each ?_
    rintro ⟨w, v⟩ ⟨hv, hunits, hamended⟩
    cases hv
    rw [List.forall_mem_append, List.forall_mem_cons] at hunits
    rcases hunits with ⟨hdone, hu, hrest⟩
    refine (hstep v w hu hamended).mono (fun _ => id) ?_ ?_
    · rintro _ d ⟨hsource, hd⟩
      refine ⟨?_, hd⟩
      rw [List.append_assoc, List.forall_mem_append, List.singleton_append, List.forall_mem_cons,
        hsource]
      exact ⟨hdone, hu, hrest⟩
    · rintro _ d ⟨hsource, hd⟩
      refine ⟨?_, hd⟩
      rw [List.forall_mem_append, List.forall_mem_cons, hsource]
      exact ⟨hdone, hu, hrest⟩
  · rw [List.append_nil] at hp
    exact hp

theorem Amended.shown {p : Project} (c : Console) (h : Amended ts sources stored borrowed f p) :
    Amended ts sources stored borrowed f ⟨{ p.workspace with console := c }, p.units⟩ :=
  ⟨h.1, h.2.shown rfl rfl⟩

/-- A build starts with the files as they are. -/
theorem amended_start (stored borrowed : Place → Prop) (w : Workspace) (c : Console)
    (ns : List Notice) (sources : List Path) :
    Amended w.tools sources stored borrowed w.files
      ⟨{ w with console := c, notices := ns }, sources.map TranslationUnit.ofSource⟩ :=
  ⟨List.forall_mem_map.mpr fun _ hs => hs, rfl, Files.Amends.refl _ _ _⟩

/-- The first pass, however it ends. -/
theorem amended_firstPass {root : Path} {tools : Toolchain} (hplain : ts.FailPlainly)
    (hobey : ∀ s ∈ sources, ∀ call ∈ transpileCalls tools s,
      ts.WritesOnly call (Artifacts.beside s).code)
    (hgrants : f.Grants sources stored borrowed) :
    Action.Ensures (Amended ts sources stored borrowed f) (eachUnit (prepareShown root tools))
      (fun _ => Amended ts sources stored borrowed f)
      fun _ => Amended ts sources stored borrowed f := by
  refine amended_pass fun u w hu hamended => ?_
  -- The calls that have been made are those of the unit.
  have hcalls : ∀ {runs : List ToolRun},
      runs.map ToolRun.call <+: transpileCalls tools u.source →
      ∀ run ∈ runs, ts.WritesOnly run.call (Artifacts.beside u.source).code :=
    fun hle run hrun => hobey _ hu _ (hle.subset (List.mem_map_of_mem hrun))
  have hplain' : w.tools.FailPlainly := hamended.tools ▸ hplain
  refine (ensures_prepareShown ⟨w, u⟩ hplain').mono (fun _ => id) ?_ ?_
  · rintro _ d ⟨runs, hcompletes, hworks⟩
    have hle : runs.map ToolRun.call <+: transpileCalls tools u.source := by
      rw [hcompletes.calls_eq]
    exact ⟨hworks.source, hamended.works hgrants hu (hcalls hle) hworks.workspace⟩
  · rintro e d ⟨runs, hfailed⟩
    exact ⟨hfailed.works.source,
      hamended.works hgrants hu (hcalls hfailed.follows.calls_le) hfailed.works.workspace⟩

/-- The second pass, however it ends. -/
theorem amended_secondPass {root : Path} {others : List Path}
    (hgrants : f.Grants sources stored borrowed) :
    Action.Ensures (Amended ts sources stored borrowed f) (eachUnit (finishShown root others))
      (fun _ => Amended ts sources stored borrowed f)
      fun _ => Amended ts sources stored borrowed f := by
  refine amended_pass fun u w hu hamended => ?_
  have hcalls : ∀ run ∈ ([] : List ToolRun),
      ts.WritesOnly run.call (Artifacts.beside u.source).code :=
    fun run hrun => absurd hrun List.not_mem_nil
  refine (ensures_finishShown ⟨w, u⟩).mono (fun _ => id) ?_ ?_
  · intro _ d hworks
    exact ⟨hworks.source, hamended.works hgrants hu hcalls hworks.workspace⟩
  · intro e d hfailed
    exact ⟨hfailed.works.source, hamended.works hgrants hu hcalls hfailed.works.workspace⟩

/-- The first two phases, however they end. -/
theorem amended_writeSources {root : Path} {tools : Toolchain} (hplain : ts.FailPlainly)
    (hobey : ∀ s ∈ sources, ∀ call ∈ transpileCalls tools s,
      ts.WritesOnly call (Artifacts.beside s).code)
    (hgrants : f.Grants sources stored borrowed) :
    Action.Ensures (Amended ts sources stored borrowed f) (writeSources root tools)
      (fun _ => Amended ts sources stored borrowed f)
      fun _ => Amended ts sources stored borrowed f := by
  refine .followed (.of_get fun p hp => hp) fun p₀ => ?_
  refine .bind (ensures_phase (fun p c hp => hp.shown c) (fun _ p c hp => hp.shown c)
    (amended_firstPass hplain hobey hgrants)) fun _ => ?_
  exact .bind (ensures_phase (fun p c hp => hp.shown c) (fun _ p c hp => hp.shown c)
    (amended_secondPass hgrants)) fun _ => .of_pure fun p hp => hp

/-- The third phase, however it ends. -/
theorem amended_makeObjects (hplain : ts.FailPlainly) (hmodest : ts.IsModest r sources)
    (hl : f.IsLinkless) (hsound : f.tree.IsSound) (hgrants : f.Grants sources stored borrowed) :
    Action.Ensures (Amended ts sources stored borrowed f) (makeObjects r.root r.toolchain)
      (fun _ => Amended ts sources stored borrowed f)
      fun _ => Amended ts sources stored borrowed f := by
  have hpass : Action.Ensures (Amended ts sources stored borrowed f)
      (eachUnit (compileShown r.root r.toolchain)) (fun _ => Amended ts sources stored borrowed f)
      fun _ => Amended ts sources stored borrowed f := by
    refine amended_pass fun u w hu hamended => ?_
    have hplain' : w.tools.FailPlainly := hamended.tools ▸ hplain
    -- What the compiler writes is the object of the unit.
    have hobject : ∀ {w' : Workspace} {ok : Bool}, Attempted (Desk.compileCall r.toolchain
        u.settings (Artifacts.beside u.source)) w ok w' →
        Workspace.Amended ts stored borrowed f w' := by
      refine fun hran => hamended.attempted hl hsound ?_ (hmodest.compile _ hu _) hran
      exact hgrants.stores _ hu _ ⟨_, Artifacts.object_mem_toList _,
        Files.slotOf_artifact (hgrants.hosts _ hu).isSource (Artifacts.object_mem_toList _)⟩
    refine (ensures_compileShown (u := u) w hplain').mono ?_ ?_ ?_
    · rintro _ rfl
      exact ⟨rfl, rfl⟩
    · rintro _ d ⟨rfl, hran⟩
      exact ⟨rfl, hobject hran⟩
    · rintro e d ⟨_, rfl, hsame | hran⟩
      · exact ⟨rfl, hsame ▸ hamended⟩
      · exact ⟨rfl, hobject hran⟩
  refine .followed (.of_get fun p hp => hp) fun p₀ => ?_
  exact .bind (ensures_phase (fun p c hp => hp.shown c) (fun _ p c hp => hp.shown c) hpass)
    fun _ => .of_pure fun p hp => hp

/-- The fourth phase, however it ends, if the directory of the program is there. -/
theorem amended_makeProgram (hplain : ts.FailPlainly) (hmodest : ts.IsModest r sources)
    (hl : f.IsLinkless) (hsound : f.tree.IsSound) (hparent : f.isDir r.output.parent = .ok true)
    (houtput : stored (f.slotOf r.output)) :
    Action.Ensures (Amended ts sources stored borrowed f) (makeProgram r.toolchain r.output)
      (fun _ => Amended ts sources stored borrowed f)
      fun _ => Amended ts sources stored borrowed f := by
  refine .of_each fun p hp => ?_
  have hplain' : p.workspace.tools.FailPlainly := hp.2.tools ▸ hplain
  -- There is no directory to be made.
  have halike := hp.2.files.changes.alike hl
  have hdirs := Files.mkdirs_of_isDir halike.right (halike.isDir_of_isDir hparent)
  have hprogram : ∀ {g : Files} {objects : List Path} {w : Workspace} {ok : Bool},
      p.workspace.files.mkdirs r.output.parent = .ok g →
      Attempted (linkCall r.toolchain objects r.output) { p.workspace with files := g } ok w →
        Workspace.Amended ts stored borrowed f w := by
    intro g objects w ok hg hran
    rw [hdirs, Except.ok.injEq] at hg
    subst hg
    exact hp.2.attempted hl hsound houtput (hmodest.link _) hran
  refine (ensures_makeProgram p.units p.workspace hplain').mono ?_ ?_ ?_
  · rintro _ rfl
    exact ⟨rfl, rfl, rfl, rfl⟩
  · rintro _ p' ⟨hunits, g, hg, hran⟩
    exact ⟨hunits ▸ hp.1, hprogram hg hran⟩
  · rintro e p' ⟨_, hunits, ⟨g, hshort, hagrees⟩ | ⟨g, hg, hran⟩⟩
    · rcases hshort with rfl | ⟨e', hmkdirs⟩
      · exact ⟨hunits ▸ hp.1, hp.2.shown hagrees.tools hagrees.files⟩
      · rw [Files.mkdirs_eq_ok_iff.mp hdirs] at hmkdirs
        cases hmkdirs
    · exact ⟨hunits ▸ hp.1, hprogram hg hran⟩

/-- All phases, however they end. -/
theorem amended_phasesOf (hplain : ts.FailPlainly) (hobedient : ts.IsObedient r sources)
    (hl : f.IsLinkless) (hsound : f.tree.IsSound) (hgrants : f.Grants sources stored borrowed)
    (hparent : f.isDir r.output.parent = .ok true) (houtput : stored (f.slotOf r.output)) :
    Action.Ensures (Amended ts sources stored borrowed f) (phasesOf r)
      (fun _ => Amended ts sources stored borrowed f)
      fun _ => Amended ts sources stored borrowed f := by
  refine .bind (amended_writeSources hplain hobedient.transpile hgrants) fun _ => ?_
  refine .bind (amended_makeObjects hplain hobedient.toIsModest hl hsound hgrants) fun _ => ?_
  refine .bind (amended_makeProgram hplain hobedient.toIsModest hl hsound hparent houtput) ?_
  exact fun _ => .of_pure fun p hp => hp

end Project

end Amending

end DialectBuild
