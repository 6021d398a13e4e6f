import DialectBuild.Proofs.Leftovers

/-!
# What a Unit Writes and Whether It Can

Writing a file by way of a temporary one has an exact effect: the file is at its place, nothing is
left at the place of the temporary one, and all else is as it was. Whether it succeeds depends on
the directories and their rights only, since a file may be written over another one but not over a
directory. So it does not matter to a unit which other units have written their files before.

What a unit leaves at the places it owns is then known from two texts, that of its code and that
of its header.

## Main definitions

* `Files.Accepts`: A file can be written at a path.
* `Files.Carries`: The C text and the header of a unit are on disk, and no temporary file is.

## Theorems

* `Files.find?_of_writeAtomic`: What is where after a file was written.
* `Files.Alike.exists_writeAtomic`: A file that could be written in the one can be written in the
  other.
* `Files.Carries.of_changesOnly`: Units of other sources leave what a unit has written.
* `Files.carries_of_writes`, `Files.Carries.writeCode`: What the two stages of a unit leave.
-/

namespace DialectBuild

namespace Files

variable {f g : Files} {p source source' : Path}

/-- What is where after a file was written by way of a temporary one. -/
theorem find?_of_writeAtomic (hl : f.IsLinkless) {t : Text} {u : Unit}
    (h : writeAtomic p t f = .ok u g) : ∃ temporary, temporaryFor p = .ok temporary ∧
      ∀ q, g.tree.find? q = if q = f.placeOf p then some (.file (Encoding.encode t))
        else if q = f.placeOf temporary then none else f.tree.find? q := by
  rcases writeAtomic_eq_ok_iff.mp h with ⟨temporary, f₁, htemporary, hwrite, hrename⟩
  rcases write_eq_ok hl hwrite with ⟨hput, hwritten⟩
  have hfile := hwritten
  rw [← hput.placeOf_eq] at hfile
  rcases rename_eq_ok (hput.isLinkless hl) hfile hrename with ⟨_, hdir, _, _, rfl⟩
  rw [hput.placeOf_eq] at hdir
  rw [hput.placeOf_eq, hput.placeOf_eq]
  refine ⟨temporary, htemporary, fun q => ?_⟩
  rw [find?_withEntry (ne_nil_of_not_dir hdir), find?_erase f₁.tree (ne_nil_of_file hwritten)]
  by_cases hq' : q = f.placeOf temporary
  · rw [if_pos hq', if_pos hq']
  · rw [if_neg hq', if_neg hq', hput.outside q hq']

/-- A file can be written where the path leads to something else than a directory and names can be
    added. -/
theorem exists_write {b : Bytes} (hl : f.IsLinkless) {place : Place}
    (hspot : f.spot true p = .ok (f.tree.spotAt place)) (hdir : f.tree.find? place ≠ some .dir)
    (hfree : f.tree.isLocked place = false) : ∃ g, f.write p b = .ok g := by
  unfold write
  rw [hspot]
  rcases hfind : f.tree.find? place with _ | e
  · rw [Tree.spotAt_of_none hfind]
    exact ⟨_, create_eq_ok_iff.mpr ⟨hfree, rfl⟩⟩
  · rw [Tree.spotAt_of_some hfind]
    cases e with
    | dir => exact absurd hfind hdir
    | link target => exact absurd hfind (hl _ target)
    | file c => exact ⟨_, rfl⟩

theorem endsInName_of_endsPlain (hp : p.EndsPlain) : endsInName p = true := by
  rcases hp with ⟨q, x, rfl, hx, _⟩
  rw [endsInName, Path.child, List.getLast?_concat]
  exact bne_iff_ne.mpr hx

/-- A file can be moved where the path leads to something else than a directory, if names can be
    removed and added. -/
theorem exists_rename {q : Path} (hp : p.EndsPlain) (hq : q.EndsPlain) {place place' : Place}
    {b : Bytes} (hsource : f.spot false p = .ok (.present place (.file b)))
    (htarget : f.spot false q = .ok (f.tree.spotAt place'))
    (hdir : f.tree.find? place' ≠ some .dir) (hfree : f.tree.isLocked place = false)
    (hfree' : f.tree.isLocked place' = false) : ∃ g, f.rename p q = .ok g := by
  have hmove : moveError? f.tree place (.file b) (f.tree.spotAt place') = none := by
    rw [moveError?_eq_none_iff (by simp only [ne_eq, reduceCtorEq, not_false_eq_true]),
      Tree.place_spotAt]
    refine ⟨hfree, hfree', fun c hc => hdir ?_⟩
    exact (Tree.spotAt_eq_present_iff.mp hc).2
  refine ⟨withEntry { f with tree := f.tree.erase place } (f.tree.spotAt place').place (.file b),
    Outcome.bind_eq_ok_iff.mpr ⟨_, Outcome.mapError_eq_ok_iff.mpr hsource,
      Outcome.bind_eq_ok_iff.mpr ⟨_, Outcome.mapError_eq_ok_iff.mpr htarget, ?_⟩⟩⟩
  rw [endsInName_of_endsPlain hp, endsInName_of_endsPlain hq]
  simp only [Bool.not_true, Bool.or_self, Bool.false_eq_true, if_false, hmove]
  rfl

theorem endsPlain_temporary {temporary : Path} (h : temporaryFor p = .ok temporary) :
    temporary.EndsPlain := by
  rw [(temporaryFor_eq_ok_iff.mp h).2]
  exact Path.endsPlain_child (e := ".tmp") (by decide) (List.suffix_append _ _)

/-- A file that could be written in the one can be written in the other. -/
theorem Alike.exists_writeAtomic (h : Alike f g) (hp : p.EndsPlain) {t : Text} {u : Unit}
    {f' : Files} (hf : writeAtomic p t f = .ok u f') (t' : Text) :
    ∃ g', writeAtomic p t' g = .ok () g' := by
  rcases writeAtomic_eq_ok_iff.mp hf with ⟨temporary, f₁, htemporary, hwrite, hrename⟩
  have hplain := endsPlain_temporary htemporary
  -- The temporary file can be written, for there is no directory in its place.
  have hspot : ∃ s, f.spot true temporary = .ok s := by
    rw [write, Outcome.bind_eq_ok_iff] at hwrite
    exact hwrite.imp fun _ => And.left
  rcases hspot with ⟨_, hspot⟩
  have hspot' : g.spot true temporary = .ok (g.tree.spotAt (f.placeOf temporary)) :=
    h.spot_of_ok hplain hspot
  have hnot := fun hdir => (write_eq_withEntry h.left hwrite).1 ((h.dirs _).mpr hdir)
  rcases write_eq_ok h.left hwrite with ⟨hput, hfile⟩
  rw [← hput.placeOf_eq] at hfile
  rcases rename_eq_ok (hput.isLinkless h.left) hfile hrename with
    ⟨⟨_, htarget⟩, hdir, hfree, hfree', _⟩
  have hback := (hput.alike h.left).symm.trans h
  have hopen : g.tree.isLocked (f.placeOf temporary) = false := by
    rw [hback.isLocked_eq, ← hput.placeOf_eq]
    exact hfree
  rcases exists_write (b := Encoding.encode t') h.right hspot' hnot hopen with ⟨g₁, hwrite'⟩
  -- It can be moved, for there is none in the place of the file either.
  rcases write_eq_ok h.right hwrite' with ⟨hput', hfile'⟩
  have halike := hback.trans (hput'.alike h.right)
  have hsource : g₁.spot false temporary = .ok (g₁.tree.spotAt (g.placeOf temporary)) :=
    (hput'.alike h.right).spot_of_ok hplain hspot'
  rw [Tree.spotAt_of_some hfile'] at hsource
  rw [← halike.isLocked_eq] at hfree hfree'
  rw [hput.placeOf_eq, ← h.placeOf_eq] at hfree
  rcases exists_rename hplain hp hsource (halike.spot_of_ok hp htarget)
    (fun h => hdir ((halike.dirs _).mpr h)) hfree hfree' with ⟨g', hrename'⟩
  exact ⟨g', writeAtomic_eq_ok_iff.mpr ⟨temporary, g₁, htemporary, hwrite', hrename'⟩⟩

/-- A file can be written at the path. -/
def Accepts (f : Files) (p : Path) : Prop :=
  ∃ t g, writeAtomic p t f = .ok () g

theorem Accepts.of_alike (h : f.Accepts p) (halike : Alike f g) (hp : p.EndsPlain) :
    g.Accepts p := by
  rcases h with ⟨t, _, hwrite⟩
  exact ⟨t, halike.exists_writeAtomic hp hwrite t⟩

theorem forall_mem_writtenEndings {P : Text → Prop} :
    (∀ e ∈ writtenEndings, P e) ↔ P ".c" ∧ P ".h" ∧ P ".c.tmp" ∧ P ".h.tmp" := by
  simp only [writtenEndings, List.forall_mem_cons, List.not_mem_nil, false_implies, implies_true,
    and_true]

/-- What two texts leave at the place of a unit with the given ending. -/
def leftAt (code header : Bytes) (e : Text) : Option Entry :=
  if e = ".c" then some (.file code) else if e = ".h" then some (.file header) else none

/-- The C text and the header of a unit are on disk, and no temporary file for them is. -/
def Carries (f : Files) (source : Path) (code header : Bytes) : Prop :=
  ∀ e ∈ writtenEndings,
    f.tree.find? (f.placeOf source.parent ++ [source.name ++ e]) = leftAt code header e

/-- What is at the places of a unit after one of its files was written. -/
theorem find?_of_write {d e t : Text} {u : Unit} (hl : f.IsLinkless) (he : e ∈ writtenEndings)
    (he' : e ++ ".tmp" ∈ writtenEndings)
    (h : writeAtomic (source.parent.child (source.name ++ e)) t f = .ok u g) :
    g.tree.find? (f.placeOf source.parent ++ [source.name ++ d]) =
      if d = e then some (.file (Encoding.encode t)) else if d = e ++ ".tmp" then none
        else f.tree.find? (f.placeOf source.parent ++ [source.name ++ d]) := by
  have hsame : ∀ {c : Text}, c ∈ writtenEndings →
      (f.placeOf source.parent ++ [source.name ++ d] =
        f.placeOf (source.parent.child (source.name ++ c)) ↔ d = c) := by
    intro c hc
    rw [placeOf_written hc]
    refine ⟨fun heq => ?_, fun heq => by rw [heq]⟩
    exact List.append_cancel_left (List.singleton_inj.mp (List.append_cancel_left heq))
  rcases find?_of_writeAtomic hl h with ⟨temporary, htemporary, hfind⟩
  rw [hfind, temporaryFor_written htemporary]
  simp only [hsame he, hsame he']

/-- Units of other sources leave what a unit has written. -/
theorem Carries.of_changesOnly {sources : List Path} {code header : Bytes}
    (h : f.Carries source' code header) (hapart : f.Apart sources)
    (hchanges : ChangesOnly (f.Owns source) f g) (hs : source ∈ sources) (hs' : source' ∈ sources)
    (hne : source' ≠ source) : g.Carries source' code header := by
  intro e he
  rw [hchanges.placeOf_eq, hchanges.outside, h e he]
  exact not_owns_of_ne (hapart.isSource source' hs') (hapart.isSource source hs)
    (hapart.distinct source' hs' source hs hne) ⟨e, he, rfl⟩

/-- What the first stage of a unit leaves. -/
theorem carries_of_writes (hl : f.IsLinkless) {code header : Text} {u u' : Unit} {f₁ : Files}
    (hcode : writeAtomic (Artifacts.beside source).code code f = .ok u f₁)
    (hheader : writeAtomic (Artifacts.beside source).header header f₁ = .ok u' g) :
    g.Carries source (Encoding.encode code) (Encoding.encode header) := by
  have hfirst := changesOnly_owns hl (by decide) (by decide) hcode
  have hl₁ := hfirst.isLinkless hl
  have hplace := (hfirst.trans (hfirst.owns_eq ▸ changesOnly_owns hl₁ (by decide) (by decide)
    hheader)).placeOf_eq
  -- What the second write leaves, with what the first one left under it.
  have hends : ∀ e, g.tree.find? (g.placeOf source.parent ++ [source.name ++ e]) =
      if e = ".h" then some (.file (Encoding.encode header)) else if e = ".h.tmp" then none
      else if e = ".c" then some (.file (Encoding.encode code)) else if e = ".c.tmp" then none
      else f.tree.find? (f.placeOf source.parent ++ [source.name ++ e]) := by
    intro e
    rw [hplace, ← hfirst.placeOf_eq, find?_of_write hl₁ (by decide) (by decide) hheader,
      hfirst.placeOf_eq, find?_of_write hl (by decide) (by decide) hcode]
    rfl
  unfold Carries
  simp only [hends]
  exact forall_mem_writtenEndings.mpr ⟨rfl, rfl, rfl, rfl⟩

/-- What the second stage of a unit leaves. -/
theorem Carries.writeCode (hl : f.IsLinkless) {b header : Bytes} {code : Text} {u : Unit}
    (h : f.Carries source b header)
    (hcode : writeAtomic (Artifacts.beside source).code code f = .ok u g) :
    g.Carries source (Encoding.encode code) header := by
  have hfirst := changesOnly_owns hl (by decide) (by decide) hcode
  have hends : ∀ e ∈ writtenEndings, g.tree.find? (g.placeOf source.parent ++ [source.name ++ e]) =
      if e = ".c" then some (.file (Encoding.encode code)) else if e = ".c.tmp" then none
      else leftAt b header e := by
    intro e he
    rw [hfirst.placeOf_eq, find?_of_write hl (by decide) (by decide) hcode, h e he]
    rfl
  intro e he
  rw [hends e he]
  revert e he
  exact forall_mem_writtenEndings.mpr ⟨rfl, rfl, rfl, rfl⟩

end Files

end DialectBuild
