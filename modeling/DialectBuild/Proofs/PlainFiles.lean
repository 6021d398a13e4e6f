import DialectBuild.Proofs.Naming
import DialectBuild.Proofs.WalkSteps

/-!
# Files Without Links

Where paths lead in a tree without symbolic links. There a path spells its place: the names
are followed one after the other, and a parent part takes the last one back. What the tree
holds only decides whether the walk succeeds, never where it ends, so a path keeps its place
while files come and go.

A change is described by the places it may touch. Files may be written and removed there, but
directories stay and links do not appear, so a walk that succeeded once succeeds again as long
as there is something at its end.

## Main definitions

* `Files.IsLinkless`: Files among which there is no link.
* `Files.placeOf`: The place that a path spells.
* `Files.Alike`: Files with the same directories and no links.
* `Files.ChangesOnly`: A change that touches some places only.

## Theorems

* `Files.Walks.place_eq`: A walk ends at the place that the names spell.
* `Files.Walks.of_sameDirs`: A walk among the same directories.
* `Files.spot_of_isLinkless`: A path leads to the place it spells.
* `Files.resolve_of_isLinkless`: The canonical place of a path is the one it spells.
* `Files.Alike.spot`: What a path leads to in files that are alike.
* `Files.ChangesOnly.read`: A file outside the places of a change is read as before.
* `Files.write_eq_ok`, `Files.rename_eq_ok`, `writeAtomic_eq_ok`: What writing does.
-/

namespace DialectBuild

namespace Files

theorem extendPlace_append (here : Place) (names more : List Text) :
    extendPlace here (names ++ more) = extendPlace (extendPlace here names) more :=
  List.foldl_append

theorem extendPlace_up (here : Place) (rest : List Text) :
    extendPlace here (Path.up :: rest) = extendPlace here.dropLast rest :=
  rfl

theorem extendPlace_dot (here : Place) (rest : List Text) :
    extendPlace here (Path.here :: rest) = extendPlace here rest :=
  rfl

theorem extendPlace_name {x : Text} (hup : x ≠ Path.up) (hdot : x ≠ Path.here) (here : Place)
    (rest : List Text) : extendPlace here (x :: rest) = extendPlace (here ++ [x]) rest := by
  rw [extendPlace, List.foldl_cons, if_neg hup, if_neg hdot, ← extendPlace]

/-- Names that are no parent part and no dot are added as they are. -/
theorem extendPlace_of_plain (here : Place) {names : List Text}
    (h : ∀ x ∈ names, x ≠ Path.up ∧ x ≠ Path.here) : extendPlace here names = here ++ names := by
  induction names generalizing here with
  | nil => exact (List.append_nil here).symm
  | cons x names ih =>
      rcases List.forall_mem_cons.mp h with ⟨⟨hup, hdot⟩, h⟩
      rw [extendPlace_name hup hdot, ih (here ++ [x]) h, List.append_assoc, List.singleton_append]

/-- There is no link among the files. -/
def IsLinkless (f : Files) : Prop :=
  ∀ place target, f.tree.find? place ≠ some (.link target)

/-- Files are without links if none is counted. -/
theorem isLinkless_of_linkCount {f : Files} (h : f.tree.linkCount = 0) : f.IsLinkless := by
  intro place target hfind
  rw [Tree.find?] at hfind
  by_cases hroot : place = []
  · rw [if_pos hroot] at hfind
    cases hfind
  · rw [if_neg hroot] at hfind
    rcases List.lookup_eq_some_iff.mp hfind with ⟨before, after, hentries, _⟩
    refine List.countP_eq_zero.mp h (place, .link target) ?_ rfl
    rw [hentries]
    exact List.mem_append_right before List.mem_cons_self

/-- The place that a path spells. -/
def placeOf (f : Files) (p : Path) : Place :=
  extendPlace (f.start p) p.parts

section Walking

variable {t t' : Tree} {follow follow' : Bool} {links links' : Nat} {here place : Place}
  {names rest : List Text} {x : Text}

/-- One step of a walk that meets no link. -/
theorem walk_cons (hlink : ∀ place target, t.find? place ≠ some (.link target)) :
    walk t follow links here (x :: rest) =
      if t.find? here ≠ some .dir then .error .notDirectory
      else if x = Path.up then walk t follow links here.dropLast rest
      else if x = Path.here then walk t follow links here rest
      else if maxName < x.byteLength then .error .nameTooLong
      else if t.find? (here ++ [x]) = none ∧ rest ≠ [] then .error .noEntry
      else if t.find? (here ++ [x]) = none then .ok (.absent (here ++ [x]))
      else walk t follow links (here ++ [x]) rest := by
  rw [walk]
  rcases hnext : t.find? (here ++ [x]) with _ | e
  · by_cases hrest : rest = []
    · simp only [hrest, ne_eq, not_true_eq_false, and_false, if_true, if_false]
    · simp only [hrest, ne_eq, not_false_eq_true, and_true, if_true, if_false]
  · cases e with
    | link target => exact absurd hnext (hlink _ target)
    | file content => simp only [reduceCtorEq, false_and, if_false]
    | dir => simp only [reduceCtorEq, false_and, if_false]

/-- A walk that meets no link ends at the place that the names spell. -/
theorem Walks.place_eq (hlink : ∀ place target, t.find? place ≠ some (.link target))
    (h : Walks t follow links here names place) : place = extendPlace here names := by
  induction h with
  | stay _ => rfl
  | up _ _ ih => rw [ih, extendPlace_up]
  | dot _ _ ih => rw [ih, extendPlace_dot]
  | free _ hx _ =>
      rw [extendPlace_name hx.1 hx.2.1]
      rfl
  | stop _ _ h _ => exact absurd h (hlink _ _)
  | along _ _ h _ _ _ => exact absurd h (hlink _ _)
  | into _ hx _ _ _ ih => rw [ih, extendPlace_name hx.1 hx.2.1]

/-- It never fails for having met too many. -/
theorem walk_ne_loop (hlink : ∀ place target, t.find? place ≠ some (.link target)) :
    walk t follow links here names ≠ .error .loop := by
  fun_induction walk t follow links here names with
  | case4 links here rest hdir ih => exact ih
  | case5 links here rest hdir hup ih => exact ih
  | case10 here x rest hdir hup hdot hlong target htarget hend =>
      exact absurd htarget (hlink _ target)
  | case11 here x rest hdir hup hdot hlong target htarget hend links ih => exact ih
  | case12 links here x rest hdir hup hdot hlong e hnot he ih => exact ih
  | _ => simp only [ne_eq, reduceCtorEq, not_false_eq_true, Except.error.injEq]

/-- A walk that succeeded in one tree succeeds in another one that has the same directories and
    something at its end. -/
theorem Walks.of_sameDirs (hlink : ∀ place target, t.find? place ≠ some (.link target))
    (hlink' : ∀ place target, t'.find? place ≠ some (.link target))
    (hdirs : ∀ place, t.find? place = some .dir → t'.find? place = some .dir)
    (h : Walks t follow links here names place) {e : Entry} (hend : t'.find? place = some e) :
    Walks t' follow' links' here names place := by
  have hnot : ∀ {q : Place} {e : Entry}, t'.find? q = some e → ∀ target, e ≠ .link target :=
    fun hq target he => hlink' _ target (he ▸ hq)
  induction h with
  | stay _ => exact .stay hend
  | up hdir _ ih => exact .up (hdirs _ hdir) (ih hend)
  | dot hdir _ ih => exact .dot (hdirs _ hdir) (ih hend)
  | free hdir hx _ => exact .into (hdirs _ hdir) hx hend (hnot hend) (.stay hend)
  | stop _ _ h _ => exact absurd h (hlink _ _)
  | along _ _ h _ _ _ => exact absurd h (hlink _ _)
  | @into links here x e' rest place hdir hx he _ h ih =>
      by_cases hnext : t.find? (here ++ [x]) = some .dir
      · have hnext' := hdirs _ hnext
        exact .into (hdirs _ hdir) hx hnext' (hnot hnext') (ih hend)
      · -- The walk ends at this name, where the other tree has its entry.
        rcases h.eq_nil_of_not_dir hnext with ⟨rfl, rfl⟩
        exact .into (hdirs _ hdir) hx hend (hnot hend) (.stay hend)

end Walking

section Asking

variable {f : Files} {follow : Bool} {p : Path} {s : Spot}

/-- A path leads to the place it spells. -/
theorem spot_of_isLinkless (hl : f.IsLinkless) (h : f.spot follow p = .ok s) :
    s = f.tree.spotAt (f.placeOf p) := by
  rcases walk_eq_ok_iff.mp (spot_eq_ok_iff.mp h).2.2 with ⟨place, hwalks, rfl⟩
  rw [hwalks.place_eq hl, placeOf]

theorem ask_iff (hl : f.IsLinkless) {question : Entry → Bool} :
    f.ask p question = .ok true ↔
      ∃ e, f.spot true p = .ok (.present (f.placeOf p) e) ∧ question e = true := by
  rw [ask]
  rcases hspot : f.spot true p with e | ⟨place, e⟩ | place
  · refine ⟨fun h => ?_, fun ⟨_, h, _⟩ => (by cases h)⟩
    dsimp only at h
    split at h
    · cases h
    · cases h
  · have hplace := (Tree.spotAt_eq_present_iff.mp (spot_of_isLinkless hl hspot).symm).1
    rw [hplace]
    exact ⟨fun h => ⟨e, rfl, Except.ok.inj h⟩, fun ⟨e', h, hq⟩ => by cases h; exact congrArg _ hq⟩
  · exact ⟨fun h => (by cases h), fun ⟨_, h, _⟩ => (by cases h)⟩

theorem isDir_iff (hl : f.IsLinkless) :
    f.isDir p = .ok true ↔ f.spot true p = .ok (.present (f.placeOf p) .dir) := by
  rw [isDir, ask_iff hl]
  constructor
  · rintro ⟨e, hspot, he⟩
    rw [beq_iff_eq.mp he] at hspot
    exact hspot
  · exact fun hspot => ⟨.dir, hspot, rfl⟩

theorem isFile_iff (hl : f.IsLinkless) :
    f.isFile p = .ok true ↔ ∃ b, f.spot true p = .ok (.present (f.placeOf p) (.file b)) := by
  rw [isFile, ask_iff hl]
  constructor
  · rintro ⟨e, hspot, he⟩
    cases e with
    | file b => exact ⟨b, hspot⟩
    | dir => cases he
    | link target => cases he
  · exact fun ⟨b, hspot⟩ => ⟨.file b, hspot, rfl⟩

/-- What a path leads to is at its place. -/
theorem find?_of_spot (hl : f.IsLinkless) {place : Place} {e : Entry}
    (h : f.spot follow p = .ok (.present place e)) : f.tree.find? (f.placeOf p) = some e :=
  (Tree.spotAt_eq_present_iff.mp (spot_of_isLinkless hl h).symm).2

theorem resolveNames_of_noLink {t : Tree}
    (hlink : ∀ place target, t.find? place ≠ some (.link target)) (active : List Place)
    (links : Nat) (here : Place) (names : List Text) :
    resolveNames t active links here names = .complete (extendPlace here names) := by
  induction names generalizing here with
  | nil => exact resolveNames_nil t active links here
  | cons x rest ih =>
      rw [resolveNames]
      by_cases hup : x = Path.up
      · rw [if_pos hup, hup, extendPlace_up]
        exact ih here.dropLast
      by_cases hdot : x = Path.here
      · rw [if_neg hup, if_pos hdot, hdot, extendPlace_dot]
        exact ih here
      rw [if_neg hup, if_neg hdot, extendPlace_name hup hdot]
      dsimp only
      split
      next target htarget => exact absurd htarget (hlink _ target)
      next => exact ih (here ++ [x])

/-- The canonical place of a path is the one it spells, whatever there is. -/
theorem resolve_of_isLinkless (hl : f.IsLinkless) (p : Path) :
    f.resolve p = if p.text.contains (.char '\x00') then .error .embeddedNull
      else .ok (f.placeOf p) := by
  rw [resolve, resolveNames_of_noLink hl]
  cases p.text.contains (.char '\x00') with
  | true => rfl
  | false =>
      dsimp only
      rw [← placeOf]
      rcases hwalk : walk f.tree true maxLinks [] (f.placeOf p) with e | s
      · cases e with
        | loop => exact absurd hwalk (walk_ne_loop hl)
        | _ => rfl
      · rfl

end Asking

/-- Files without links that have the same directories, with the same rights in them, and are seen
    from the same one. -/
structure Alike (f g : Files) : Prop where
  /-- The working directory is the same. -/
  home : g.home = f.home
  /-- The same may not be done. -/
  rights : g.tree.rights = f.tree.rights
  /-- There are no links in the first. -/
  left : f.IsLinkless
  /-- There are no links in the second. -/
  right : g.IsLinkless
  /-- The directories are the same. -/
  dirs : ∀ q, f.tree.find? q = some .dir ↔ g.tree.find? q = some .dir

namespace Alike

variable {f g k : Files}

theorem refl (hl : f.IsLinkless) : Alike f f :=
  ⟨rfl, rfl, hl, hl, fun _ => Iff.rfl⟩

theorem symm (h : Alike f g) : Alike g f :=
  ⟨h.home.symm, h.rights.symm, h.right, h.left, fun q => (h.dirs q).symm⟩

theorem trans (h : Alike f g) (h' : Alike g k) : Alike f k where
  home := h'.home.trans h.home
  rights := h'.rights.trans h.rights
  left := h.left
  right := h'.right
  dirs := fun q => (h.dirs q).trans (h'.dirs q)

theorem isLocked_eq (h : Alike f g) (place : Place) :
    g.tree.isLocked place = f.tree.isLocked place :=
  Tree.isLocked_congr h.rights place

theorem placeOf_eq (h : Alike f g) (p : Path) : g.placeOf p = f.placeOf p := by
  rw [placeOf, placeOf, start, start, h.home]

/-- Paths stand for the same places. -/
theorem resolve_eq (h : Alike f g) (p : Path) : g.resolve p = f.resolve p := by
  rw [resolve_of_isLinkless h.left, resolve_of_isLinkless h.right, h.placeOf_eq]

/-- A path that leads somewhere in the one leads there in the other if something is there. -/
theorem spot (h : Alike f g) {p : Path} {follow follow' : Bool} {s : Spot}
    (hspot : f.spot follow p = .ok s) {e : Entry} (hend : g.tree.find? (f.placeOf p) = some e) :
    g.spot follow' p = .ok (.present (f.placeOf p) e) := by
  rcases spot_eq_ok_iff.mp hspot with ⟨hnull, hlong, hwalk⟩
  rcases walk_eq_ok_iff.mp hwalk with ⟨place, hwalks, _⟩
  have hplace : place = f.placeOf p := hwalks.place_eq h.left
  rw [hplace] at hwalks
  -- The walk starts at the same place, as the working directory is the same.
  have hstart : g.start p = f.start p := by
    rw [start, start, h.home]
  refine spot_eq_ok_iff.mpr ⟨hnull, hlong, ?_⟩
  rw [hstart, (hwalks.of_sameDirs h.left h.right (fun q => (h.dirs q).mp) hend).walk_eq,
    Tree.spotAt_of_some hend]

end Alike

/-- A change of files that touches no place but some: files may be written and removed there,
    but directories stay and links do not appear. -/
structure ChangesOnly (touched : Place → Prop) (f g : Files) : Prop where
  /-- The working directory is the same. -/
  home : g.home = f.home
  /-- The same may not be done. -/
  rights : g.tree.rights = f.tree.rights
  /-- Nothing else changes. -/
  outside : ∀ q, ¬ touched q → g.tree.find? q = f.tree.find? q
  /-- The directories are the same. -/
  dirs : ∀ q, f.tree.find? q = some .dir ↔ g.tree.find? q = some .dir
  /-- There are no new links. -/
  links : ∀ q target, g.tree.find? q = some (.link target) → f.tree.find? q = some (.link target)

namespace ChangesOnly

variable {touched touched' : Place → Prop} {f g k : Files} {p : Path}

theorem refl (touched : Place → Prop) (f : Files) : ChangesOnly touched f f :=
  ⟨rfl, rfl, fun _ _ => rfl, fun _ => Iff.rfl, fun _ _ => id⟩

theorem trans (h : ChangesOnly touched f g) (h' : ChangesOnly touched g k) :
    ChangesOnly touched f k where
  home := h'.home.trans h.home
  rights := h'.rights.trans h.rights
  outside := fun q hq => (h'.outside q hq).trans (h.outside q hq)
  dirs := fun q => (h.dirs q).trans (h'.dirs q)
  links := fun q target hq => h.links q target (h'.links q target hq)

theorem mono (h : ChangesOnly touched f g) (hsub : ∀ q, touched q → touched' q) :
    ChangesOnly touched' f g :=
  ⟨h.home, h.rights, fun q hq => h.outside q (fun ht => hq (hsub q ht)), h.dirs, h.links⟩

theorem isLinkless (h : ChangesOnly touched f g) (hl : f.IsLinkless) : g.IsLinkless :=
  fun q target hq => hl q target (h.links q target hq)

theorem alike (h : ChangesOnly touched f g) (hl : f.IsLinkless) : Alike f g :=
  ⟨h.home, h.rights, hl, h.isLinkless hl, h.dirs⟩

theorem placeOf_eq (h : ChangesOnly touched f g) (p : Path) : g.placeOf p = f.placeOf p := by
  rw [placeOf, placeOf, start, start, h.home]

end ChangesOnly

section Operations

variable {f g : Files} {p q : Path}

theorem openRead_eq_ok_iff {place : Place} :
    f.openRead p = .ok place ↔ ∃ b, f.spot true p = .ok (.present place (.file b)) := by
  rw [openRead, Outcome.bind_eq_ok_iff]
  constructor
  · rintro ⟨s, hs, h⟩
    split at h
    next place' b =>
      rw [Except.ok.injEq] at h
      exact ⟨b, h ▸ hs⟩
    next => cases h
    next => cases h
  · rintro ⟨b, hb⟩
    exact ⟨_, hb, rfl⟩

/-- A file is read exactly if there is one where the path leads. -/
theorem read_eq_ok_iff (hl : f.IsLinkless) {b : Bytes} :
    f.read p = .ok b ↔ f.spot true p = .ok (.present (f.placeOf p) (.file b)) := by
  -- What is opened is the place of the path, so its content is what stands there.
  have hcontent : ∀ place c, f.spot true p = .ok (.present place (.file c)) →
      place = f.placeOf p ∧ f.contentAt place = c := by
    intro place c hspot
    rcases Tree.spotAt_eq_present_iff.mp (spot_of_isLinkless hl hspot).symm with ⟨hplace, hfind⟩
    rw [← hplace]
    refine ⟨rfl, ?_⟩
    unfold contentAt
    rw [hfind]
  rw [read, Outcome.bind_eq_ok_iff]
  simp only [openRead_eq_ok_iff, Outcome.pure_eq_ok_iff]
  constructor
  · rintro ⟨place, ⟨c, hspot⟩, hb⟩
    rcases hcontent place c hspot with ⟨hplace, hc⟩
    rw [← hb, hc, ← hplace]
    exact hspot
  · intro hspot
    exact ⟨_, ⟨b, hspot⟩, (hcontent _ b hspot).2⟩

theorem text_eq_ok_iff {t : Text} :
    f.text p = .ok t ↔ ∃ b, f.read p = .ok b ∧ Encoding.decode b = t := by
  rw [text, Outcome.bind_eq_ok_iff]
  simp only [Outcome.pure_eq_ok_iff]

/-- A file that is in both is read in both. -/
theorem Alike.read (h : Alike f g) {b : Bytes} (hread : f.read p = .ok b)
    (hsame : g.tree.find? (f.placeOf p) = f.tree.find? (f.placeOf p)) : g.read p = .ok b := by
  have hspot := (read_eq_ok_iff h.left).mp hread
  have hfind := (Tree.spotAt_eq_present_iff.mp (spot_of_isLinkless h.left hspot).symm).2
  rw [read_eq_ok_iff h.right, h.placeOf_eq]
  exact h.spot hspot (hsame.trans hfind)

/-- A file outside the places of a change is read as before. -/
theorem ChangesOnly.read {touched : Place → Prop} (h : ChangesOnly touched f g)
    (hl : f.IsLinkless) {b : Bytes} (hread : f.read p = .ok b) (hp : ¬ touched (f.placeOf p)) :
    g.read p = .ok b :=
  (h.alike hl).read hread (h.outside _ hp)

theorem ne_nil_of_not_dir {place : Place} (h : f.tree.find? place ≠ some .dir) : place ≠ [] := by
  intro hempty
  rw [hempty] at h
  exact h rfl

theorem ne_nil_of_file {place : Place} {b : Bytes} (h : f.tree.find? place = some (.file b)) :
    place ≠ [] := by
  refine ne_nil_of_not_dir (f := f) ?_
  rw [h]
  simp only [ne_eq, Option.some.injEq, reduceCtorEq, not_false_eq_true]

theorem find?_withEntry {place : Place} (hne : place ≠ []) (e : Entry) (r : Place) :
    (f.withEntry place e).tree.find? r = if r = place then some e else f.tree.find? r := by
  by_cases hr : r = place
  · rw [if_pos hr, hr]
    exact Tree.find?_insert_self f.tree e hne
  · rw [if_neg hr]
    exact Tree.find?_insert_of_ne f.tree e hr

theorem find?_erase (t : Tree) {place : Place} (hne : place ≠ []) (r : Place) :
    (t.erase place).find? r = if r = place then none else t.find? r := by
  by_cases hr : r = place
  · rw [if_pos hr, hr]
    exact Tree.find?_erase_self t hne
  · rw [if_neg hr]
    exact Tree.find?_erase_of_ne t hr

/-- Writing a file where there is no directory touches its place only. -/
theorem changesOnly_withEntry {place : Place} (hdir : f.tree.find? place ≠ some .dir)
    (b : Bytes) : ChangesOnly (· = place) f (f.withEntry place (.file b)) := by
  have hne := ne_nil_of_not_dir hdir
  refine ⟨rfl, rfl, fun r hr => ?_, fun r => ?_, fun r target hr => ?_⟩
  · rw [find?_withEntry hne, if_neg hr]
  · rw [find?_withEntry hne]
    by_cases hr : r = place
    · rw [if_pos hr, hr]
      exact ⟨fun h => absurd h hdir, fun h => (by cases h)⟩
    · rw [if_neg hr]
  · rw [find?_withEntry hne] at hr
    by_cases hplace : r = place
    · rw [if_pos hplace] at hr
      cases hr
    · rw [if_neg hplace] at hr
      exact hr

theorem create_eq_ok_iff {place : Place} {e : Entry} :
    f.create p place e = .ok g ↔ f.tree.isLocked place = false ∧ g = f.withEntry place e := by
  rw [create]
  by_cases hlocked : f.tree.isLocked place = true
  · rw [if_pos hlocked, hlocked]
    exact ⟨fun h => (by cases h), fun h => (by cases h.1)⟩
  · rw [if_neg hlocked, Bool.eq_false_iff.mpr hlocked, Except.ok.injEq, eq_comm]
    exact (and_iff_right rfl).symm

/-- Writing puts a file at the place that the path spells, where there is no directory. It does not
    add one to a locked directory. -/
theorem write_eq_withEntry (hl : f.IsLinkless) {b : Bytes} (h : f.write p b = .ok g) :
    f.tree.find? (f.placeOf p) ≠ some .dir ∧
      (f.tree.find? (f.placeOf p) = none → f.tree.isLocked (f.placeOf p) = false) ∧
      g = f.withEntry (f.placeOf p) (.file b) := by
  rw [write, Outcome.bind_eq_ok_iff] at h
  rcases h with ⟨s, hspot, h⟩
  rw [spot_of_isLinkless hl hspot] at h
  -- A new file and an old one are written alike, and a directory is refused.
  rcases hfind : f.tree.find? (f.placeOf p) with _ | e
  · rw [Tree.spotAt_of_none hfind] at h
    rcases create_eq_ok_iff.mp h with ⟨hlocked, rfl⟩
    exact ⟨by simp only [ne_eq, reduceCtorEq, not_false_eq_true], fun _ => hlocked, rfl⟩
  · rw [Tree.spotAt_of_some hfind] at h
    cases e with
    | dir => cases h
    | link target => exact absurd hfind (hl _ target)
    | file content =>
        refine ⟨?_, fun hnone => ?_, (Except.ok.inj h).symm⟩
        · simp only [ne_eq, Option.some.injEq, reduceCtorEq, not_false_eq_true]
        · cases hnone

/-- Writing touches the place that the path spells, and puts a file there. -/
theorem write_eq_ok (hl : f.IsLinkless) {b : Bytes} (h : f.write p b = .ok g) :
    ChangesOnly (· = f.placeOf p) f g ∧ g.tree.find? (f.placeOf p) = some (.file b) := by
  rcases write_eq_withEntry hl h with ⟨hdir, _, rfl⟩
  exact ⟨changesOnly_withEntry hdir b,
    by rw [find?_withEntry (ne_nil_of_not_dir hdir), if_pos rfl]⟩

/-- Removing a file touches its place only. -/
theorem changesOnly_erase {place : Place} {b : Bytes}
    (hfile : f.tree.find? place = some (.file b)) :
    ChangesOnly (· = place) f { f with tree := f.tree.erase place } := by
  have hne : place ≠ [] := by
    intro hempty
    rw [hempty] at hfile
    cases hfile
  have hself := Tree.find?_erase_self f.tree hne
  refine ⟨rfl, rfl, fun r hr => Tree.find?_erase_of_ne f.tree hr, fun r => ?_,
    fun r target hr => ?_⟩
  · by_cases hr : r = place
    · rw [hr, hself, hfile]
      exact ⟨fun h => (by cases h), fun h => (by cases h)⟩
    · rw [Tree.find?_erase_of_ne f.tree hr]
  · by_cases hplace : r = place
    · rw [hplace, hself] at hr
      cases hr
    · rw [Tree.find?_erase_of_ne f.tree hplace] at hr
      exact hr

/-- What is no directory can be moved exactly if neither name has to stay as it is and there is no
    directory where it goes. -/
theorem moveError?_eq_none_iff {t : Tree} {a : Place} {e : Entry} {target : Spot} (he : e ≠ .dir) :
    moveError? t a e target = none ↔ t.isLocked a = false ∧ t.isLocked target.place = false ∧
      ∀ b, target ≠ .present b .dir := by
  simp only [moveError?, decide_eq_false he, Bool.false_and, Bool.or_false, Bool.false_eq_true,
    if_false]
  by_cases hlocked : (t.isLocked a || t.isLocked target.place) = true
  · rw [if_pos hlocked]
    refine iff_of_false (by simp only [reduceCtorEq, not_false_eq_true]) fun h => ?_
    rw [h.1, h.2.1] at hlocked
    cases hlocked
  rw [if_neg hlocked]
  rw [Bool.not_eq_true, Bool.or_eq_false_iff] at hlocked
  rw [hlocked.1, hlocked.2]
  simp only [true_and]
  cases e with
  | dir => exact absurd rfl he
  | _ =>
      cases target with
      | absent b => exact iff_of_true rfl fun b h => (by cases h)
      | present b e' =>
          cases e' with
          | dir =>
              refine iff_of_false (fun h => ?_) fun h => h b rfl
              dsimp only at h
              split at h
              · cases h
              · cases h
          | _ => exact iff_of_true rfl fun b h => (by cases h)

/-- A move takes what is at the one path and puts it at the other, if nothing speaks against it. -/
theorem exists_of_rename (h : f.rename p q = .ok g) :
    ∃ a e target, f.spot false p = .ok (.present a e) ∧ f.spot false q = .ok target ∧
      endsInName q = true ∧ moveError? f.tree a e target = none ∧
      (e ≠ .dir → g = withEntry { f with tree := f.tree.erase a } target.place e) := by
  simp only [rename, Outcome.bind_eq_ok_iff, Outcome.mapError_eq_ok_iff] at h
  rcases h with ⟨source, hsource, target, htarget, h⟩
  by_cases hname : (!endsInName p || !endsInName q) = true
  · rw [if_pos hname, Outcome.bind_eq_ok_iff] at h
    rcases h with ⟨_, h, _⟩
    cases h
  rw [if_neg hname] at h
  have hends : endsInName q = true := by
    rw [Bool.or_eq_true, not_or, Bool.not_eq_true', Bool.not_eq_true', Bool.not_eq_false,
      Bool.not_eq_false] at hname
    exact hname.2
  cases source with
  | absent a => cases h
  | present a e =>
      dsimp only at h
      rcases herror : moveError? f.tree a e target with _ | errno
      · rw [herror] at h
        refine ⟨a, e, target, hsource, htarget, hends, herror, fun he => ?_⟩
        dsimp only at h
        rw [if_neg he] at h
        exact (Except.ok.inj h).symm
      · rw [herror] at h
        cases h

/-- A file is moved by taking it from the one place and putting it at the other, if no name there
    has to stay as it is. -/
theorem rename_eq_ok (hl : f.IsLinkless) {b : Bytes}
    (hfile : f.tree.find? (f.placeOf p) = some (.file b)) (h : f.rename p q = .ok g) :
    (∃ s, f.spot false q = .ok s) ∧ f.tree.find? (f.placeOf q) ≠ some .dir ∧
      f.tree.isLocked (f.placeOf p) = false ∧ f.tree.isLocked (f.placeOf q) = false ∧
      g = withEntry { f with tree := f.tree.erase (f.placeOf p) } (f.placeOf q) (.file b) := by
  rcases exists_of_rename h with ⟨a, e, target, hsource, htarget, _, hmove, hg⟩
  have hnot : Entry.file b ≠ .dir := by simp only [ne_eq, reduceCtorEq, not_false_eq_true]
  have hat := spot_of_isLinkless hl hsource
  rw [Tree.spotAt_of_some hfile, Spot.present.injEq] at hat
  rcases hat with ⟨rfl, rfl⟩
  have hto := spot_of_isLinkless hl htarget
  rw [moveError?_eq_none_iff hnot, hto, Tree.place_spotAt] at hmove
  refine ⟨⟨target, htarget⟩, fun hdir => ?_, hmove.1, hmove.2.1, ?_⟩
  · exact hmove.2.2 _ (Tree.spotAt_of_some hdir)
  · rw [hg hnot, hto, Tree.place_spotAt]

/-- A file that was moved is read at its new place. -/
theorem read_of_rename (hl : f.IsLinkless) {b : Bytes}
    (hfile : f.tree.find? (f.placeOf p) = some (.file b)) (h : f.rename p q = .ok g) :
    ChangesOnly (fun r => r = f.placeOf q ∨ r = f.placeOf p) f g ∧ g.read q = .ok b := by
  rcases rename_eq_ok hl hfile h with ⟨⟨s, hspot⟩, hdir, _, _, rfl⟩
  have herase := changesOnly_erase hfile
  have hdir' := fun h => hdir ((herase.dirs (f.placeOf q)).mpr h)
  have herase' : ChangesOnly (fun r => r = f.placeOf q ∨ r = f.placeOf p) f _ :=
    herase.mono (fun _ => Or.inr)
  have hmove := herase'.trans ((changesOnly_withEntry hdir' b).mono (fun _ => Or.inl))
  refine ⟨hmove, ?_⟩
  rw [read_eq_ok_iff (hmove.isLinkless hl), hmove.placeOf_eq]
  refine (hmove.alike hl).spot hspot ?_
  rw [find?_withEntry (ne_nil_of_not_dir hdir'), if_pos rfl]

end Operations

end Files

open Files in
/-- Writing by way of a temporary file is writing that one and moving it. -/
theorem writeAtomic_eq_ok_iff {f g : Files} {p : Path} {t : Text} {u : Unit} :
    writeAtomic p t f = .ok u g ↔ ∃ temporary f₁, temporaryFor p = .ok temporary ∧
      f.write temporary (Encoding.encode t) = .ok f₁ ∧ f₁.rename temporary p = .ok g := by
  -- The handler throws again whatever it catches.
  have hfails : ∀ (temporary : Path) (e : OsError) (f' : Files) (a : Unit) (g' : Files),
      (do
        FileAction.change (·.unlinkIfPresent temporary)
        throw (.os e) : FileAction Unit) f' ≠ .ok a g' := by
    intro temporary e f' a g'
    simp only [ne_eq, Action.bind_eq_ok_iff, Action.throw_eq_ok_iff, and_false, exists_false,
      not_false_eq_true]
  simp only [writeAtomic, Action.bind_eq_ok_iff, Action.ofExcept_eq_ok_iff]
  constructor
  · rintro ⟨temporary, _, ⟨htemporary, rfl⟩, h⟩
    rw [Action.onOsError_eq_ok_iff (hfails temporary)] at h
    simp only [Action.bind_eq_ok_iff, FileAction.change_eq_ok_iff] at h
    rcases h with ⟨_, f₁, hwrite, hrename⟩
    exact ⟨temporary, f₁, htemporary, hwrite, hrename⟩
  · rintro ⟨temporary, f₁, htemporary, hwrite, hrename⟩
    refine ⟨temporary, f, ⟨htemporary, rfl⟩, ?_⟩
    rw [Action.onOsError_eq_ok_iff (hfails temporary)]
    simp only [Action.bind_eq_ok_iff, FileAction.change_eq_ok_iff]
    exact ⟨(), f₁, hwrite, hrename⟩

open Files in
/-- Writing by way of a temporary file touches the two places, and the file is read as it was
    written. -/
theorem writeAtomic_eq_ok {f g : Files} {p : Path} {t : Text} {u : Unit} (hl : f.IsLinkless)
    (h : writeAtomic p t f = .ok u g) :
    ∃ temporary, temporaryFor p = .ok temporary ∧
      ChangesOnly (fun r => r = f.placeOf p ∨ r = f.placeOf temporary) f g ∧
      g.read p = .ok (Encoding.encode t) := by
  rcases writeAtomic_eq_ok_iff.mp h with ⟨temporary, f₁, htemporary, hwrite, hrename⟩
  rcases write_eq_ok hl hwrite with ⟨hput, hwritten⟩
  -- What is moved to the path is what was just written.
  rw [← hput.placeOf_eq] at hwritten
  rcases read_of_rename (hput.isLinkless hl) hwritten hrename with ⟨hmove, hread⟩
  rw [hput.placeOf_eq, hput.placeOf_eq] at hmove
  exact ⟨temporary, htemporary, (hput.mono (fun _ => Or.inr)).trans hmove, hread⟩

end DialectBuild
