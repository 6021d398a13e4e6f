import DialectBuild.Proofs.AtomicWrites
import DialectBuild.Proofs.Rebuild
import DialectBuild.Proofs.SameOutline

/-!
# The Order of Units

The units of a build may be taken in any order. Whether the two phases succeed that write C texts
and headers, and what they leave on disk and of each unit, can be said without mentioning an order.

In the first phase a unit reads its source, which no unit writes to, and writes two files, for
which it only needs that there is no directory in their places. So whether it can be prepared is
known from the files at the start, and what becomes of it as well. In the second phase every unit
has its files, and each step replaces one of them. The outline of the files is then the same at any
time, in any order, and an import finds the same headers. So whether a unit can be finished is
known from the outline, and again what becomes of it.

## Main definitions

* `Files.HasSources`: Files with sources that can be worked on.
* `Worked`, `Settled`: What the units have made of the files so far, and when all have theirs.
* `Preparable`, `Finishable`: A source for which the first or the second phase succeeds.
* `Filed`: A unit that some phase has made, with its files on disk.
* `Project.Left`: What the two phases leave behind.

## Theorems

* `Settled.sameOutline`: In the second phase the outline of the files is always the same.
* `Worked.exists_prepareShown`, `Settled.exists_finishShown`: When a unit can be prepared and
  finished.
* `Project.ensures_anyOrder`: A pass over units that are taken in any order.
* `Project.ensures_writeSources_left`: The two phases succeed if each unit can be prepared and
  finished, and only then.
* `Project.Left.units_perm`, `Project.Left.find?_eq`: What is left does not depend on the order.
* `Project.writeSources_perm`: Neither does success.
-/

namespace DialectBuild

open Files

/-- Files with sources that can be worked on: there are no links, and no two of the sources are at
    one place. -/
structure Files.HasSources (f : Files) (sources : List Path) : Prop where
  /-- There are no links. -/
  linkless : f.IsLinkless
  /-- The tree is one that a file system has. -/
  sound : f.tree.IsSound
  /-- The sources are at different places. -/
  apart : f.Apart sources
  /-- Their places have names that a directory can hold. -/
  named : ∀ s ∈ sources, ∀ x ∈ f.placeOf s, IsName x

/-- Some of the sources that are discovered can be worked on. -/
theorem Files.hasSources_of_discovered {f : Files} {root : Path} {sources found : List Path}
    (hl : f.IsLinkless) (hsound : f.tree.IsSound) (hfound : f.sources root = .ok found)
    (hnodup : sources.Nodup) (hsub : sources ⊆ found) : f.HasSources sources where
  linkless := hl
  sound := hsound
  apart := by
    have hapart := apart_of_sources hsound hfound
    exact ⟨fun s hs => hapart.isSource s (hsub hs),
      fun s hs s' hs' => hapart.distinct s (hsub hs) s' (hsub hs'), hnodup⟩
  named := fun s hs => named_of_sources hl hsound hfound s (hsub hs)

/-- What units have made of the files `f` so far. -/
structure Worked (f : Files) (sources : List Path) (g : Files) : Prop where
  /-- Only places of units have been touched. -/
  changes : ChangesOnly (fun q => ∃ s ∈ sources, f.Owns s q) f g
  /-- The tree is still one that a file system has. -/
  sound : g.tree.IsSound

/-- What units have made of the files `f` when all of them have C text and header. -/
structure Settled (f : Files) (sources : List Path) (g : Files) : Prop extends
    Worked f sources g where
  /-- Every unit has its files. -/
  carries : ∀ s ∈ sources, ∃ code header, g.Carries s code header

section Files

variable {f g k : Files} {sources : List Path} {s : Path}

namespace Worked

theorem refl (h : f.HasSources sources) : Worked f sources f :=
  ⟨ChangesOnly.refl _ f, h.sound⟩

theorem isLinkless (hg : Worked f sources g) (h : f.HasSources sources) : g.IsLinkless :=
  hg.changes.isLinkless h.linkless

theorem alike (hg : Worked f sources g) (h : f.HasSources sources) : Alike f g :=
  hg.changes.alike h.linkless

theorem apart (hg : Worked f sources g) (h : f.HasSources sources) : g.Apart sources :=
  h.apart.of_changesOnly hg.changes

/-- A unit writes one of its files. -/
theorem write (hg : Worked f sources g) (h : f.HasSources sources) (hs : s ∈ sources)
    {e t : Text} {u : Unit} (he : e ∈ writtenEndings) (he' : e ++ ".tmp" ∈ writtenEndings)
    (hwrite : writeAtomic (s.parent.child (s.name ++ e)) t g = .ok u k) :
    Worked f sources k := by
  have hl := hg.isLinkless h
  have howns := changesOnly_owns hl he he' hwrite
  rw [hg.changes.owns_eq] at howns
  refine ⟨hg.changes.trans (howns.mono fun q hq => ⟨s, hs, hq⟩), ?_⟩
  refine isSound_writeAtomic hl hg.sound (h.apart.isSource s hs) ?_ he he' hwrite
  rw [hg.changes.placeOf_eq]
  exact h.named s hs

/-- Sources are read as at the start. -/
theorem text_iff (hg : Worked f sources g) (h : f.HasSources sources) (hs : s ∈ sources)
    {raw : Text} : g.text s = .ok raw ↔ f.text s = .ok raw := by
  have hsame : g.tree.find? (f.placeOf s) = f.tree.find? (f.placeOf s) := by
    refine hg.changes.outside _ ?_
    rintro ⟨s', _, howns⟩
    exact not_owns_source (h.apart.isSource s hs) howns
  have hsame' := hsame.symm
  rw [← hg.changes.placeOf_eq] at hsame'
  rw [text_eq_ok_iff, text_eq_ok_iff]
  exact ⟨fun ⟨b, hread, hraw⟩ => ⟨b, (hg.alike h).symm.read hread hsame', hraw⟩,
    fun ⟨b, hread, hraw⟩ => ⟨b, (hg.alike h).read hread hsame, hraw⟩⟩

end Worked

/-- What a unit has at its places shows in the outline, whatever is written there. -/
theorem Files.outline_leftAt (code header code' header' : Bytes) (e : Text) :
    (leftAt code header e).map Entry.outline = (leftAt code' header' e).map Entry.outline := by
  rw [leftAt, leftAt]
  split_ifs with hcode hheader
  · rfl
  · rfl
  · rfl

/-- When all units have their files, the outline is always the same. -/
theorem Settled.sameOutline (h : f.HasSources sources) (hg : Settled f sources g)
    (hk : Settled f sources k) : SameOutline g k where
  home := hk.changes.home.trans hg.changes.home.symm
  rights := hk.changes.rights.trans hg.changes.rights.symm
  left := hg.isLinkless h
  right := hk.isLinkless h
  soundLeft := hg.sound
  soundRight := hk.sound
  outline := by
    intro q
    -- A place of some unit holds what the unit carries; all other places are as in `f`.
    by_cases howned : ∃ s ∈ sources, f.Owns s q
    · rcases howned with ⟨s, hs, e, he, rfl⟩
      rcases hg.carries s hs with ⟨code, header, hcarries⟩
      rcases hk.carries s hs with ⟨code', header', hcarries'⟩
      have hfind := hcarries e he
      have hfind' := hcarries' e he
      rw [hg.changes.placeOf_eq] at hfind
      rw [hk.changes.placeOf_eq] at hfind'
      rw [hfind, hfind']
      exact outline_leftAt _ _ _ _ e
    · rw [hg.changes.outside q howned, hk.changes.outside q howned]

end Files

/-- The header of a unit as it is on disk. -/
def headerBytes (root : Path) (u : TranslationUnit) : Bytes :=
  Encoding.encode (Header.text u.declarations (Artifacts.beside u.source).header.name
    (Path.display root (Artifacts.beside u.source).header))

/-- The C text and the header of a unit are on disk, and no temporary file for them is. -/
def Files.CarriesUnit (root : Path) (g : Files) (u : TranslationUnit) : Prop :=
  g.Carries u.source (Encoding.encode u.text) (headerBytes root u)

/-- A source that can be read, with places that can be written to. -/
structure Preparable (f : Files) (s : Path) : Prop where
  /-- The source can be read. -/
  text : ∃ raw, f.text s = .ok raw
  /-- Its C text can be written. -/
  code : f.Accepts (Artifacts.beside s).code
  /-- Its header can be written. -/
  header : f.Accepts (Artifacts.beside s).header

/-- What the second phase makes of a unit of the files `f` when all units have their files. -/
def FinishedFrom (f : Files) (sources : List Path) (v : TranslationUnit) : Prop :=
  ∃ u g, PreparedFrom f u ∧ Settled f sources g ∧ Finishes sources g u v

/-- A unit that some phase has made, with its files among `g`. -/
structure Filed (root : Path) (f : Files) (made : TranslationUnit → Prop) (g : Files)
    (u : TranslationUnit) : Prop where
  /-- Its files can be written. -/
  preparable : Preparable f u.source
  /-- It is what the phase makes of it. -/
  made : made u
  /-- Its files are on disk. -/
  carries : CarriesUnit root g u

/-- A source of which the second phase makes something. -/
def Finishable (f : Files) (sources : List Path) (s : Path) : Prop :=
  ∃ v, FinishedFrom f sources v ∧ v.source = s

section Units

variable {f g k : Files} {sources order : List Path} {s root : Path} {u v v' : TranslationUnit}

theorem endsPlain_code (s : Path) : (Artifacts.beside s).code.EndsPlain :=
  Path.endsPlain_child (e := ".c") (by decide) (List.suffix_append _ _)

theorem endsPlain_header (s : Path) : (Artifacts.beside s).header.EndsPlain :=
  Path.endsPlain_child (e := ".h") (by decide) (List.suffix_append _ _)

/-- The second phase makes the same of a unit among all files with the same outline. -/
theorem Finishes.of_sameOutline (h : Finishes sources g u v) (hsame : SameOutline g k) :
    Finishes sources k u v := by
  rcases h with ⟨siblings, i, hfailure, hbeside, hi, rfl⟩
  refine ⟨siblings, i, ?_, hbeside, ?_, ?_⟩
  · rw [hsame.expansion_eq]
    exact hfailure
  · rw [hsame.expansion_eq, hsame.alike.injection_eq]
    exact hi
  · rw [hsame.expansion_eq]

/-- It does so in any order of the sources. -/
theorem Finishes.of_perm (h : Finishes order g u v) (hperm : sources.Perm order) :
    Finishes sources g u v := by
  rcases h with ⟨siblings, i, hfailure, hbeside, hi, hv⟩
  exact ⟨siblings, i, hfailure, headersBeside_perm hperm hbeside, hi, hv⟩

/-- A finished unit is known from its source. -/
theorem FinishedFrom.unique (h : f.HasSources sources) (hv : FinishedFrom f sources v)
    (hv' : FinishedFrom f sources v') (hs : v.source = v'.source) : v = v' := by
  rcases hv with ⟨u, g, hu, hg, hfinishes⟩
  rcases hv' with ⟨u', k, hu', hk, hfinishes'⟩
  have heq : u = u' := hu.unique hu' (by rw [← hfinishes.source_eq, ← hfinishes'.source_eq, hs])
  subst heq
  have hagain := hfinishes.of_sameOutline (hg.sameOutline h hk)
  rcases hagain with ⟨siblings, i, _, hbeside, hi, rfl⟩
  rcases hfinishes' with ⟨siblings', i', _, hbeside', hi', rfl⟩
  rw [hbeside, Except.ok.injEq] at hbeside'
  subst hbeside'
  rw [hi, Except.ok.injEq] at hi'
  rw [hi']

/-- Units of other sources leave a unit and its files alone. -/
theorem Filed.of_changesOnly {made : TranslationUnit → Prop} (hu : Filed root f made g u)
    (hapart : g.Apart sources) (hchanges : ChangesOnly (g.Owns s) g k) (hs : s ∈ sources)
    (hu' : u.source ∈ sources) (hne : u.source ≠ s) : Filed root f made k u :=
  ⟨hu.preparable, hu.made, hu.carries.of_changesOnly hapart hchanges hs hu' hne⟩

theorem ofSource_eq_beside (h : f.HasSources sources) (hs : s ∈ sources) :
    Artifacts.ofSource s = .ok (Artifacts.beside s) :=
  Artifacts.ofSource_eq_ok_iff.mpr ⟨(h.apart.isSource s hs).parts, rfl⟩

section Preparing

variable {tools : Toolchain} {d d' : Desk}

/-- A unit that was prepared could be prepared at the start, and becomes what it would have become
    there. -/
theorem Worked.prepared_of_ok (h : f.HasSources sources) (hplain : tools.transpiler = none)
    (hg : Worked f sources d.workspace.files) (hs : d.unit.source ∈ sources)
    (hfresh : d.unit = TranslationUnit.ofSource d.unit.source) {x : Unit}
    (hok : Project.prepareShown root tools d = .ok x d') :
    Worked f sources d'.workspace.files ∧
      ChangesOnly (d.workspace.files.Owns d.unit.source) d.workspace.files d'.workspace.files ∧
      d'.unit.source = d.unit.source ∧
      Filed root f (PreparedFrom f) d'.workspace.files d'.unit := by
  rcases Project.prepareShown_of_plain hplain hfresh hok with
    ⟨raw, g, hraw, hunit, hcode, hheader, _⟩
  have hl := hg.isLinkless h
  have hworked := hg.write h hs (by decide) (by decide) hcode
  -- Both files that are written are the unit's own.
  have hfirst := changesOnly_owns hl (by decide) (by decide) hcode
  have hsecond := changesOnly_owns (hworked.isLinkless h) (by decide) (by decide) hheader
  rw [hfirst.owns_eq] at hsecond
  have hsource : d'.unit.source = d.unit.source := by
    rw [hunit]
    rfl
  refine ⟨hworked.write h hs (by decide) (by decide) hheader, hfirst.trans hsecond, hsource, ?_⟩
  have hraw' := (hg.text_iff h hs).mp hraw
  have hcode' : d.workspace.files.Accepts (Artifacts.beside d.unit.source).code := ⟨_, _, hcode⟩
  have hheader' : g.Accepts (Artifacts.beside d.unit.source).header := ⟨_, _, hheader⟩
  refine ⟨?_, ⟨raw, hsource ▸ hraw', hsource ▸ hunit⟩, ?_⟩
  · rw [hsource]
    exact ⟨⟨raw, hraw'⟩, hcode'.of_alike (hg.alike h).symm (endsPlain_code _),
      hheader'.of_alike (hworked.alike h).symm (endsPlain_header _)⟩
  · rw [CarriesUnit, headerBytes, hsource]
    exact carries_of_writes hl hcode hheader

/-- A unit that could be prepared at the start can be prepared now. -/
theorem Worked.exists_prepareShown (h : f.HasSources sources) (hplain : tools.transpiler = none)
    (hg : Worked f sources d.workspace.files) (hs : d.unit.source ∈ sources)
    (hcan : Preparable f d.unit.source) : ∃ d', Project.prepareShown root tools d = .ok () d' := by
  rcases hcan with ⟨⟨raw, hraw⟩, ⟨_, _, hcode⟩, ⟨_, _, hheader⟩⟩
  rcases (hg.alike h).exists_writeAtomic (endsPlain_code _) hcode
    (Stripped.ofText BufferSize.default raw).text with ⟨f₁, hcode'⟩
  -- The header is written when the C text is there, which does not stand in its way.
  have hworked := hg.write h hs (by decide) (by decide) hcode'
  rcases (hworked.alike h).exists_writeAtomic (endsPlain_header _) hheader (Header.text
    (exported (Stripped.ofText BufferSize.default raw).text)
    (Artifacts.beside d.unit.source).header.name
    (Path.display root (Artifacts.beside d.unit.source).header)) with ⟨f₂, hheader'⟩
  rcases Desk.exists_prepare hplain (ofSource_eq_beside h hs) ((hg.text_iff h hs).mpr hraw) hcode'
    hheader' with ⟨d₁, hprepare⟩
  exact Project.exists_prepareShown hprepare

end Preparing

section Finishing

variable {d d' : Desk}

/-- A unit that was finished becomes what it becomes in any order, and all units have their files
    afterwards. -/
theorem Settled.finished_of_ok (h : f.HasSources sources) (hperm : order.Perm sources)
    (hg : Settled f sources d.workspace.files) (hs : d.unit.source ∈ sources)
    (hprepared : Filed root f (PreparedFrom f) d.workspace.files d.unit) {x : Unit}
    (hok : Project.finishShown root order d = .ok x d') :
    Settled f sources d'.workspace.files ∧
      ChangesOnly (d.workspace.files.Owns d.unit.source) d.workspace.files d'.workspace.files ∧
      d'.unit.source = d.unit.source ∧
      Filed root f (FinishedFrom f sources) d'.workspace.files d'.unit := by
  rcases Project.finishes_of_finishShown hprepared.made.isFresh hok with
    ⟨hfinishes, hcode, hdeclarations, _⟩
  have hl := hg.isLinkless h
  have howns := changesOnly_owns hl (by decide) (by decide) hcode
  have hsource := hfinishes.source_eq
  have hcarries := hprepared.carries.writeCode hl hcode
  refine ⟨⟨hg.write h hs (by decide) (by decide) hcode, fun s hs' => ?_⟩, howns, hsource,
    hsource ▸ hprepared.preparable,
    ⟨d.unit, d.workspace.files, hprepared.made, hg, hfinishes.of_perm hperm.symm⟩, ?_⟩
  · -- What the other units' files carry is out of reach of this one.
    by_cases heq : s = d.unit.source
    · rw [heq]
      exact ⟨_, _, hcarries⟩
    · rcases hg.carries s hs' with ⟨code, header, hcarried⟩
      exact ⟨code, header, hcarried.of_changesOnly (hg.apart h) howns hs hs' heq⟩
  · rw [CarriesUnit, headerBytes, hsource, hdeclarations]
    exact hcarries

/-- A unit that can be finished at some time can be finished now. -/
theorem Settled.exists_finishShown (h : f.HasSources sources) (hperm : order.Perm sources)
    (hg : Settled f sources d.workspace.files) (hs : d.unit.source ∈ sources)
    (hprepared : Filed root f (PreparedFrom f) d.workspace.files d.unit)
    (hcan : Finishable f sources d.unit.source) :
    ∃ d', Project.finishShown root order d = .ok () d' := by
  rcases hcan with ⟨v, ⟨u, k, hu, hk, hfinishes⟩, hv⟩
  -- The unit was the same then, and so was the outline of the files.
  have heq : u = d.unit := hu.unique hprepared.made (by rw [← hfinishes.source_eq, hv])
  subst heq
  rcases (hfinishes.of_sameOutline (hk.sameOutline h hg)).of_perm hperm with
    ⟨siblings, i, hfailure, hbeside, hi, _⟩
  rcases hprepared.preparable.code with ⟨_, _, hcode⟩
  rcases (hg.alike h).exists_writeAtomic (endsPlain_code _) hcode i.text with ⟨f₁, hcode'⟩
  rcases Desk.exists_finish hprepared.made.isFresh.1 hprepared.made.isFresh.2 rfl hfailure
    (ofSource_eq_beside h hs) hbeside hi hcode' with ⟨d₁, hfinish⟩
  exact Project.exists_finishShown hfinish

end Finishing

end Units

namespace Project

variable {f : Files} {sources order order' : List Path} {root : Path} {p p' : Project}

theorem exists_unit (hperm : order.Perm sources)
    (horder : p.units.map TranslationUnit.source = order) {s : Path} (hs : s ∈ sources) :
    ∃ u ∈ p.units, u.source = s := by
  rw [← hperm.mem_iff, ← horder] at hs
  exact List.mem_map.mp hs

/-- A pass over units that are taken in some order. If a step touches no place but those of its
    unit and fails only for a source that is not possible, the pass does to every unit what a step
    does, and it fails only if some source is not possible. -/
theorem ensures_anyOrder {α : Type} {act : Action Desk α} (inv : Files → Prop)
    (before after : Files → TranslationUnit → Prop) (possible : Path → Prop)
    (hperm : order.Perm sources) (hnodup : sources.Nodup)
    (hstep : ∀ d : Desk, inv d.workspace.files → d.unit.source ∈ sources →
      before d.workspace.files d.unit → Action.Ensures (· = d) act
        (fun _ d' => inv d'.workspace.files ∧
          ChangesOnly (d.workspace.files.Owns d.unit.source) d.workspace.files d'.workspace.files ∧
          d'.unit.source = d.unit.source ∧ after d'.workspace.files d'.unit)
        fun _ _ => ¬ possible d.unit.source)
    (hkept : ∀ {g k : Files} {s : Path} {u : TranslationUnit}, inv g →
      ChangesOnly (g.Owns s) g k → s ∈ sources → u.source ∈ sources → u.source ≠ s →
      (before g u → before k u) ∧ (after g u → after k u)) :
    Action.Ensures
      (fun p => inv p.workspace.files ∧ p.units.map TranslationUnit.source = order ∧
        ∀ u ∈ p.units, before p.workspace.files u)
      (eachUnit act)
      (fun _ p => inv p.workspace.files ∧ p.units.map TranslationUnit.source = order ∧
        ∀ u ∈ p.units, after p.workspace.files u)
      fun _ _ => ∃ s ∈ sources, ¬ possible s := by
  refine (ensures_eachUnit (fun done rest w => inv w.files ∧
    (done ++ rest).map TranslationUnit.source = order ∧ (∀ u ∈ done, after w.files u) ∧
    ∀ u ∈ rest, before w.files u) (fun _ _ => ∃ s ∈ sources, ¬ possible s) ?_).mono
    (fun p hp => ⟨hp.1, hp.2.1, fun _ hu => absurd hu List.not_mem_nil, hp.2.2⟩)
    (fun _ p hp => ⟨hp.1, ?_, hp.2.2.1⟩) fun _ _ => id
  · intro done u rest
    refine .of_each fun d hd => ?_
    rcases hd with ⟨rfl, hinv, horder, hdone, hrest⟩
    have hmember : ∀ v ∈ done ++ d.unit :: rest, v.source ∈ sources :=
      fun v hv => hperm.mem_iff.mp (horder ▸ List.mem_map_of_mem hv)
    have hs := hmember d.unit (List.mem_append_right done List.mem_cons_self)
    rcases List.forall_mem_cons.mp hrest with ⟨hbefore, hrest⟩
    refine (hstep d hinv hs hbefore).mono (fun _ => id) ?_ fun _ _ hnot => ⟨_, hs, hnot⟩
    rintro _ d' ⟨hinv', hchanges, hsource, hafter⟩
    -- No other unit has the source of the one on the desk.
    have hapart : ∀ v, v ∈ done ∨ v ∈ rest → v.source ∈ sources ∧ v.source ≠ d.unit.source := by
      intro v hv
      have hnodup' := hperm.nodup_iff.mpr hnodup
      rw [← horder, List.map_append, List.map_cons, List.nodup_append] at hnodup'
      rcases hnodup' with ⟨_, hnodup', hdisjoint⟩
      rcases hv with hv | hv
      · exact ⟨hmember v (List.mem_append_left _ hv),
          hdisjoint _ (List.mem_map_of_mem hv) _ List.mem_cons_self⟩
      · refine ⟨hmember v (List.mem_append_right done (List.mem_cons_of_mem _ hv)), fun heq => ?_⟩
        exact (List.nodup_cons.mp hnodup').1 (heq ▸ List.mem_map_of_mem hv)
    refine ⟨hinv', ?_, ?_, fun v hv => ?_⟩
    · rw [List.append_assoc, List.singleton_append, List.map_append, List.map_cons, hsource,
        ← List.map_cons, ← List.map_append]
      exact horder
    · rw [List.forall_mem_append, List.forall_mem_singleton]
      refine ⟨fun v hv => ?_, hafter⟩
      rcases hapart v (Or.inl hv) with ⟨hv', hne⟩
      exact (hkept hinv hchanges hs hv' hne).2 (hdone v hv)
    · rcases hapart v (Or.inr hv) with ⟨hv', hne⟩
      exact (hkept hinv hchanges hs hv' hne).1 (hrest v hv)
  · rw [← hp.2.1, List.append_nil]

/-- The first phase prepares all units, or one of them cannot be prepared. -/
theorem ensures_prepareAll (h : f.HasSources sources) (hperm : order.Perm sources)
    {tools : Toolchain} (hplain : tools.transpiler = none) :
    Action.Ensures
      (fun p => p.workspace.files = f ∧ p.units = order.map TranslationUnit.ofSource)
      (eachUnit (prepareShown root tools))
      (fun _ p => Settled f sources p.workspace.files ∧
        p.units.map TranslationUnit.source = order ∧
        ∀ u ∈ p.units, Filed root f (PreparedFrom f) p.workspace.files u)
      fun _ _ => ∃ s ∈ sources, ¬ Preparable f s := by
  refine (ensures_anyOrder (Worked f sources) (fun _ u => u = TranslationUnit.ofSource u.source)
    (Filed root f (PreparedFrom f)) (Preparable f) hperm h.apart.nodup
    (fun _ hg hs hfresh => .of_possible (fun _ _ => hg.prepared_of_ok h hplain hs hfresh)
      fun hcan => ⟨(), hg.exists_prepareShown h hplain hs hcan⟩)
    fun hg hchanges hs hu hne => ⟨id, fun hafter => hafter.of_changesOnly (hg.apart h) hchanges hs
      hu hne⟩).mono ?_ ?_ fun _ _ => id
  · rintro p ⟨hfiles, hunits⟩
    rw [hfiles, hunits, List.map_map]
    exact ⟨.refl h, List.map_id order, List.forall_mem_map.mpr fun s _ => rfl⟩
  · rintro _ p ⟨hworked, horder, hprepared⟩
    refine ⟨⟨hworked, fun s hs => ?_⟩, horder, hprepared⟩
    -- Every source has a unit in the order, and that unit has been prepared.
    rcases exists_unit hperm horder hs with ⟨u, hu, rfl⟩
    exact ⟨_, _, (hprepared u hu).carries⟩

/-- The second phase finishes all units, or one of them cannot be finished. -/
theorem ensures_finishAll (h : f.HasSources sources) (hperm : order.Perm sources) :
    Action.Ensures
      (fun p => Settled f sources p.workspace.files ∧
        p.units.map TranslationUnit.source = order ∧
        ∀ u ∈ p.units, Filed root f (PreparedFrom f) p.workspace.files u)
      (eachUnit (finishShown root order))
      (fun _ p => Settled f sources p.workspace.files ∧
        p.units.map TranslationUnit.source = order ∧
        ∀ u ∈ p.units, Filed root f (FinishedFrom f sources) p.workspace.files u)
      fun _ _ => ∃ s ∈ sources, ¬ Finishable f sources s :=
  ensures_anyOrder (Settled f sources) (Filed root f (PreparedFrom f))
    (Filed root f (FinishedFrom f sources)) (Finishable f sources) hperm h.apart.nodup
    (fun _ hg hs hprepared => .of_possible (fun _ _ => hg.finished_of_ok h hperm hs hprepared)
      fun hcan => ⟨(), hg.exists_finishShown h hperm hs hprepared hcan⟩)
    fun hg hchanges hs hu hne =>
      ⟨fun hbefore => hbefore.of_changesOnly (hg.apart h) hchanges hs hu hne,
        fun hafter => hafter.of_changesOnly (hg.apart h) hchanges hs hu hne⟩

/-- What the two phases leave behind that write C texts and headers. -/
structure Left (root : Path) (f : Files) (sources order : List Path) (p : Project) : Prop where
  /-- Every unit has its files, and nothing else has been touched. -/
  settled : Settled f sources p.workspace.files
  /-- The units are in the order in which they were taken. -/
  order : p.units.map TranslationUnit.source = order
  /-- They are finished. -/
  finished : ∀ u ∈ p.units, Filed root f (FinishedFrom f sources) p.workspace.files u

/-- The two phases succeed if every unit can be prepared and finished, and only then. -/
theorem ensures_writeSources_left (h : f.HasSources sources) (hperm : order.Perm sources)
    {tools : Toolchain} (hplain : tools.transpiler = none) :
    Action.Ensures
      (fun p => p.workspace.files = f ∧ p.units = order.map TranslationUnit.ofSource)
      (writeSources root tools)
      (fun _ p => (∀ s ∈ sources, Preparable f s ∧ Finishable f sources s) ∧
        Left root f sources order p)
      fun _ _ => ¬ ∀ s ∈ sources, Preparable f s ∧ Finishable f sources s := by
  have hsources : (order.map TranslationUnit.ofSource).map TranslationUnit.source = order := by
    rw [List.map_map]
    exact List.map_id order
  unfold writeSources
  refine .bind (q := fun p₀ p => (p.workspace.files = f ∧
    p.units = order.map TranslationUnit.ofSource) ∧ p₀.units = order.map TranslationUnit.ofSource)
    (.of_get fun p hp => ⟨hp, hp.2⟩) fun p₀ => .given fun hp₀ => ?_
  rw [hp₀]
  dsimp only
  rw [hsources]
  -- Showing a phase on the console does not touch what is said of files and units.
  refine .bind ((ensures_phase (fun _ _ => id) (fun _ _ _ => id)
    (ensures_prepareAll h hperm hplain)).mono (fun _ => id) (fun _ _ => id) ?_) fun _ =>
    .bind ((ensures_phase (fun _ _ => id) (fun _ _ _ => id)
      (ensures_finishAll h hperm)).mono (fun _ => id) (fun _ _ => id) ?_) fun _ => .of_pure ?_
  · rintro _ _ ⟨s, hs, hnot⟩ hall
    exact hnot (hall s hs).1
  · rintro _ _ ⟨s, hs, hnot⟩ hall
    exact hnot (hall s hs).2
  · rintro p ⟨hsettled, horder, hfinished⟩
    refine ⟨fun s hs => ?_, hsettled, horder, hfinished⟩
    rcases exists_unit hperm horder hs with ⟨u, hu, rfl⟩
    exact ⟨(hfinished u hu).preparable, u, (hfinished u hu).made, rfl⟩

namespace Left

/-- The units are the same in any order. -/
theorem units_perm (hp : Left root f sources order p) (hp' : Left root f sources order' p')
    (h : f.HasSources sources) (hperm : order.Perm sources) (hperm' : order'.Perm sources) :
    p'.units.Perm p.units := by
  have hnodup : ∀ {order : List Path} {p : Project}, Left root f sources order p →
      order.Perm sources → p.units.Nodup := by
    intro order p hp hperm
    refine List.Nodup.of_map TranslationUnit.source ?_
    rw [hp.order]
    exact hperm.nodup_iff.mpr h.apart.nodup
  -- A unit that is left by the one is left by the other, for it is known from its source.
  have hmem : ∀ {order order' : List Path} {p p' : Project}, Left root f sources order p →
      Left root f sources order' p' → order.Perm sources → order'.Perm sources →
      ∀ u ∈ p.units, u ∈ p'.units := by
    intro order order' p p' hp hp' hperm hperm' u hu
    have hs : u.source ∈ sources := hperm.mem_iff.mp (hp.order ▸ List.mem_map_of_mem hu)
    rcases exists_unit hperm' hp'.order hs with ⟨u', hu', hsource⟩
    rw [← (hp'.finished u' hu').made.unique h (hp.finished u hu).made hsource]
    exact hu'
  refine (List.perm_ext_iff_of_nodup (hnodup hp' hperm') (hnodup hp hperm)).mpr fun u => ?_
  exact ⟨hmem hp' hp hperm' hperm u, hmem hp hp' hperm hperm' u⟩

/-- So is what is at every place. -/
theorem find?_eq (hp : Left root f sources order p) (hp' : Left root f sources order' p')
    (hperm : order.Perm sources) (hunits : p'.units.Perm p.units) (q : Place) :
    p'.workspace.files.tree.find? q = p.workspace.files.tree.find? q := by
  by_cases howned : ∃ s ∈ sources, f.Owns s q
  · rcases howned with ⟨s, hs, e, he, rfl⟩
    rcases exists_unit hperm hp.order hs with ⟨u, hu, rfl⟩
    have hfind := (hp.finished u hu).carries e he
    have hfind' := (hp'.finished u (hunits.mem_iff.mpr hu)).carries e he
    rw [hp.settled.changes.placeOf_eq] at hfind
    rw [hp'.settled.changes.placeOf_eq] at hfind'
    rw [hfind, hfind']
  · rw [hp.settled.changes.outside q howned, hp'.settled.changes.outside q howned]

end Left

/-- The order of units does not matter. If the two phases that write C texts and headers succeed
    for fresh units of discovered sources in one order, they succeed in every other one from the
    same files, and they leave the same at every place and of each unit. -/
theorem writeSources_perm {root root' : Path} {tools : Toolchain} {w w' : Workspace}
    {found sources sources' : List Path} {p : Project} (hl : w.files.IsLinkless)
    (hsound : w.files.tree.IsSound) (hfound : w.files.sources root' = .ok found)
    (hsub : sources ⊆ found) (hnodup : sources.Nodup) (hperm : sources'.Perm sources)
    (hplain : tools.transpiler = none) (hfiles : w'.files = w.files)
    (h : writeSources root tools ⟨w, sources.map TranslationUnit.ofSource⟩ = .ok () p) :
    ∃ p', writeSources root tools ⟨w', sources'.map TranslationUnit.ofSource⟩ = .ok () p' ∧
      p'.workspace.files.home = p.workspace.files.home ∧
      (∀ q, p'.workspace.files.tree.find? q = p.workspace.files.tree.find? q) ∧
      p'.units.map TranslationUnit.source = sources' ∧ p'.units.Perm p.units := by
  have hsources := hasSources_of_discovered hl hsound hfound hnodup hsub
  rcases (ensures_writeSources_left hsources (List.Perm.refl sources) hplain).ok ⟨rfl, rfl⟩ h with
    ⟨hall, hp⟩
  -- In the other order nothing can fail either, for the same units can be prepared and finished.
  rcases ((ensures_writeSources_left hsources hperm hplain).mono (fun _ => id) (fun _ _ => id)
    fun _ _ hnot => hnot hall).exists_ok (s := ⟨w', sources'.map TranslationUnit.ofSource⟩)
    ⟨hfiles, rfl⟩ with ⟨_, p', h', _, hp'⟩
  have hunits := hp.units_perm hp' hsources (List.Perm.refl sources) hperm
  refine ⟨p', h', ?_, hp.find?_eq hp' (List.Perm.refl sources) hunits, hp'.order, hunits⟩
  rw [hp'.settled.changes.home, hp.settled.changes.home]

theorem writeSources_perm_importing : ∃ w p p', w.files = importingWorkspace.files ∧
    writeSources importingRequest.root importingRequest.toolchain
      ⟨w, importingSources.map TranslationUnit.ofSource⟩ = .ok () p ∧
    writeSources importingRequest.root importingRequest.toolchain
      ⟨importingWorkspace, importingSources.reverse.map TranslationUnit.ofSource⟩ = .ok () p' ∧
    (∀ q, p'.workspace.files.tree.find? q = p.workspace.files.tree.find? q) ∧
    p'.units.map TranslationUnit.source = importingSources.reverse ∧ p'.units.Perm p.units := by
  rcases exists_of_hasBuilt (Bool.and_eq_true_iff.mp hasBuilt_importing).1 with
    ⟨report, hbuild, hsuccess⟩
  rcases build_eq_ok hbuild hsuccess with ⟨sources, c, ns, _, _, hfound, hphases, _⟩
  rw [isProject_importing.discovers, Except.ok.injEq] at hfound
  subst hfound
  -- The first two phases of that build are a run in the order of discovery.
  rcases phasesOf_eq_ok hphases with ⟨_, p, _, h, _⟩
  generalize hw : ({ importingWorkspace with console := c, notices := ns } : Workspace) = w at h
  have hfiles : w.files = importingWorkspace.files := by
    rw [← hw]
  have hplain : importingRequest.toolchain.transpiler = none := rfl
  have hnodup : importingSources.Nodup := by
    decide +kernel
  rcases writeSources_perm (hfiles ▸ isProject_importing.linkless)
    (hfiles ▸ isProject_importing.sound) (hfiles ▸ isProject_importing.discovers)
    (List.Subset.refl _) hnodup (List.reverse_perm importingSources) hplain hfiles.symm h with
    ⟨p', h', _, hfind, hsources, hunits⟩
  exact ⟨w, p, p', hfiles, h, h', hfind, hsources, hunits⟩

end Project

end DialectBuild
