import DialectBuild.Proofs.BuiltFiles

/-!
# Cleaning Undoes a Build

A build stores files where nothing was, and cleaning removes files where they are. Each path that
is cleared leaves nothing at its place and everything else as it was, so when all artifacts and
the program have been cleared, what is left is what was there before them. This holds however the
build ended, for a build that fails leaves nothing at places it only borrowed.

Discovery finds the same sources before the build and after it, as nothing that a build stores is
named like one. So cleaning looks at the paths that the build may have stored files at, and at no
others. What it gives are those at which there was something.

## Main definitions

* `Files.IsFree`: A path at which a file can be created.
* `Files.Removable`: A path at which a file can be removed if there is one.
* `Files.Cleared`: What is left of files when some paths have been cleared.

## Theorems

* `Files.Cleared.ensures_removeIfPresent`: Clearing one path.
* `ensures_clean`: Cleaning clears all artifacts and the program.
* `clean_undoes_build`: Cleaning gives back what was there before a build.
-/

namespace DialectBuild

namespace Files

/-- Nothing is at a path, but something can be. -/
structure IsFree (f : Files) (p : Path) : Prop where
  /-- The path leads to a free name. -/
  absent : f.spot true p = .ok (.absent (f.placeOf p))
  /-- Its directory is not locked. -/
  unlocked : f.tree.isLocked (f.placeOf p) = false

/-- A path at which there is a file or nothing, and which can be looked at. -/
structure Removable (g : Files) (p : Path) : Prop where
  /-- The path ends in a name. -/
  endsPlain : p.EndsPlain
  /-- It leads somewhere. -/
  reachable : ∃ s, g.spot true p = .ok s
  /-- There is no directory. -/
  notDir : g.tree.find? (g.placeOf p) ≠ some .dir
  /-- What is there can be removed. -/
  unlocked : g.tree.isLocked (g.placeOf p) = false

/-- What is left of the files `g` when the paths `ps` have been cleared and `removed` are those at
    which there was something. -/
structure Cleared (g : Files) (ps removed : List Path) (k : Files) : Prop where
  /-- Nothing else has changed. -/
  changes : ChangesOnly (· ∈ ps.map g.placeOf) g k
  /-- Nothing is left at these paths. -/
  gone : ∀ p ∈ ps, k.tree.find? (g.placeOf p) = none
  /-- Something was at those that have been removed. -/
  removed_eq : removed = ps.filter fun p => (g.tree.find? (g.placeOf p)).isSome

section Paths

variable {f g k : Files} {p : Path} {ps removed : List Path}

/-- A walk that ends at a free name ends with a name. -/
theorem Walks.plain_of_free {t : Tree} {follow : Bool} {links : Nat} {here place : Place}
    {names : List Text} (h : Walks t follow links here names place)
    (hfree : t.find? place = none) :
    ∃ before x, names = before ++ [x] ∧ x ≠ Path.up ∧ x ≠ Path.here := by
  have hmore : ∀ {y : Text} {rest : List Text},
      (∃ before x, rest = before ++ [x] ∧ x ≠ Path.up ∧ x ≠ Path.here) →
      ∃ before x, y :: rest = before ++ [x] ∧ x ≠ Path.up ∧ x ≠ Path.here := by
    rintro y rest ⟨before, x, rfl, hx⟩
    exact ⟨y :: before, x, rfl, hx⟩
  induction h with
  | stay he =>
      rw [hfree] at he
      cases he
  | up _ _ ih => exact hmore (ih hfree)
  | dot _ _ ih => exact hmore (ih hfree)
  | @free _ _ x _ hx _ => exact ⟨[], x, rfl, hx.1, hx.2.1⟩
  | stop _ _ hlink _ =>
      rw [hfree] at hlink
      cases hlink
  | @along _ _ x target rest _ _ hx _ _ _ ih =>
      -- The name of a link may be the last one, although the walk goes on along its target.
      rcases rest.eq_nil_or_concat' with rfl | ⟨before, z, rfl⟩
      · exact ⟨[], x, rfl, hx.1, hx.2.1⟩
      · rcases ih hfree with ⟨before', z', heq, hz⟩
        rw [← List.append_assoc] at heq
        have hlast : z = z' := List.singleton_inj.mp (List.append_inj_right' heq rfl)
        exact ⟨x :: before, z, rfl, hlast ▸ hz⟩
  | into _ _ _ _ _ ih => exact hmore (ih hfree)

theorem IsFree.find?_eq (h : f.IsFree p) : f.tree.find? (f.placeOf p) = none := by
  rcases walk_eq_ok_iff.mp (spot_eq_ok_iff.mp h.absent).2.2 with ⟨place, _, hspot⟩
  rcases Tree.spotAt_eq_absent_iff.mp hspot.symm with ⟨rfl, hfind⟩
  exact hfind

/-- A free path ends in a name. -/
theorem IsFree.endsPlain (h : f.IsFree p) : p.EndsPlain := by
  rcases walk_eq_ok_iff.mp (spot_eq_ok_iff.mp h.absent).2.2 with ⟨place, hwalks, hspot⟩
  rcases hwalks.plain_of_free (Tree.spotAt_eq_absent_iff.mp hspot.symm).2 with
    ⟨before, x, hparts, hx⟩
  exact ⟨{ p with parts := before }, x, by rw [Path.child, ← hparts], hx⟩

/-- A file at a path that ends in a name is in the directory above it. -/
theorem slotOf_of_endsPlain (h : p.EndsPlain) : f.slotOf p = f.placeOf p := by
  rcases h with ⟨q, x, rfl, hx⟩
  rw [slotOf, Path.parent_child, Path.name_child, placeOf_child hx]

/-- What was free can be removed when there are new files. -/
theorem IsFree.removable (h : f.IsFree p) (halike : Alike f g) : g.Removable p where
  endsPlain := h.endsPlain
  reachable := ⟨_, halike.spot_of_ok h.endsPlain h.absent⟩
  notDir := by
    rw [halike.placeOf_eq, ne_eq, ← halike.dirs, h.find?_eq]
    simp only [reduceCtorEq, not_false_eq_true]
  unlocked := by
    rw [halike.placeOf_eq, halike.isLocked_eq]
    exact h.unlocked

namespace Cleared

theorem refl (g : Files) : g.Cleared [] [] g :=
  ⟨ChangesOnly.refl _ g, fun _ hp => absurd hp List.not_mem_nil, rfl⟩

/-- A removable path still leads to its place. -/
theorem spot_eq (h : g.Cleared ps removed k) (hl : g.IsLinkless) (hp : g.Removable p)
    (follow : Bool) : k.spot follow p = .ok (k.tree.spotAt (g.placeOf p)) := by
  rcases hp.reachable with ⟨s, hspot⟩
  exact (h.changes.alike hl).spot_of_ok hp.endsPlain hspot

/-- A question about a removable path is answered. -/
theorem ask_eq (h : g.Cleared ps removed k) (hl : g.IsLinkless) (hp : g.Removable p)
    (question : Entry → Bool) :
    k.ask p question = .ok ((k.tree.find? (g.placeOf p)).any question) := by
  rw [ask, h.spot_eq hl hp]
  rcases hfind : k.tree.find? (g.placeOf p) with _ | e
  · rw [Tree.spotAt_of_none hfind]
    rfl
  · rw [Tree.spotAt_of_some hfind]
    rfl

/-- Where there is something, it is a file. -/
theorem exists_file (h : g.Cleared ps removed k) (hl : g.IsLinkless) (hp : g.Removable p)
    (hnew : g.placeOf p ∉ ps.map g.placeOf) (hsome : (k.tree.find? (g.placeOf p)).isSome = true) :
    ∃ b, k.tree.find? (g.placeOf p) = some (.file b) := by
  have hsame := h.changes.outside _ hnew
  rcases Option.isSome_iff_exists.mp hsome with ⟨e, he⟩
  cases e with
  | file b => exact ⟨b, he⟩
  | dir => exact absurd (hsame.symm.trans he) hp.notDir
  | link target => exact absurd (hsame.symm.trans he) (hl _ target)

/-- There is a file, or there is nothing. -/
theorem isFile_eq (h : g.Cleared ps removed k) (hl : g.IsLinkless) (hp : g.Removable p) :
    k.isFile p = .ok (k.tree.find? (g.placeOf p)).isSome := by
  rw [isFile, h.ask_eq hl hp]
  rcases hfind : k.tree.find? (g.placeOf p) with _ | e
  · rfl
  · have hnew : g.placeOf p ∉ ps.map g.placeOf := fun hmem => by
      rcases List.mem_map.mp hmem with ⟨p', hp', heq⟩
      rw [← heq, h.gone p' hp'] at hfind
      cases hfind
    rcases h.exists_file hl hp hnew (by rw [hfind, Option.isSome_some]) with ⟨b, hb⟩
    rw [hfind, Option.some.injEq] at hb
    rw [hb]
    rfl

/-- Where there is something, it can be removed. -/
theorem unlink_eq (h : g.Cleared ps removed k) (hl : g.IsLinkless) (hp : g.Removable p)
    (hnew : g.placeOf p ∉ ps.map g.placeOf) (hsome : (k.tree.find? (g.placeOf p)).isSome = true) :
    ∃ k', k.unlink p = .ok k' ∧ g.Cleared (ps ++ [p]) (removed ++ [p]) k' := by
  have hsame := h.changes.outside _ hnew
  rcases h.exists_file hl hp hnew hsome with ⟨b, he⟩
  have hunlink : k.unlink p = .ok { k with tree := k.tree.erase (g.placeOf p) } := by
    rw [← h.changes.placeOf_eq]
    refine unlink_of_file (b := b) ?_ ?_
    · rw [h.spot_eq hl hp, h.changes.placeOf_eq, Tree.spotAt_of_some he]
    · rw [h.changes.placeOf_eq, Tree.isLocked_congr h.changes.rights]
      exact hp.unlocked
  -- What is gone stays gone, as the file that is removed is none of it.
  have hgone : ∀ q, k.tree.find? q = none → (k.tree.erase (g.placeOf p)).find? q = none := by
    intro q hq
    by_cases heq : q = g.placeOf p
    · rw [heq, he] at hq
      cases hq
    · exact (Tree.find?_erase_of_ne k.tree heq).trans hq
  have hnone : (k.tree.erase (g.placeOf p)).find? (g.placeOf p) = none :=
    Tree.find?_erase_self k.tree (ne_nil_of_file he)
  refine ⟨_, hunlink, ?_, ?_, ?_⟩
  · refine (h.changes.mono fun q hq => ?_).trans ((changesOnly_erase he).mono fun q hq => ?_)
    · rw [List.map_append]
      exact List.mem_append_left _ hq
    · rw [List.map_append, hq]
      exact List.mem_append_right _ List.mem_cons_self
  · rw [List.forall_mem_append, List.forall_mem_singleton]
    exact ⟨fun p' hp' => hgone _ (h.gone p' hp'), hnone⟩
  · have hkept : (g.tree.find? (g.placeOf p)).isSome = true := by
      rw [← hsame, he]
      rfl
    rw [h.removed_eq, List.filter_append, List.filter_cons, if_pos hkept, List.filter_nil]

/-- Where there is nothing, there is nothing to be done. -/
theorem skip (h : g.Cleared ps removed k) (hnew : g.placeOf p ∉ ps.map g.placeOf)
    (hnone : (k.tree.find? (g.placeOf p)).isSome = false) : g.Cleared (ps ++ [p]) removed k where
  changes := h.changes.mono fun q hq => by
    rw [List.map_append]
    exact List.mem_append_left _ hq
  gone := by
    rw [List.forall_mem_append, List.forall_mem_singleton]
    exact ⟨h.gone, Option.isNone_iff_eq_none.mp (Option.isSome_eq_false_iff.mp hnone)⟩
  removed_eq := by
    rw [h.changes.outside _ hnew] at hnone
    rw [h.removed_eq, List.filter_append, List.filter_cons, hnone, if_neg Bool.false_ne_true,
      List.filter_nil, List.append_nil]

/-- Clearing one path. -/
theorem ensures_removeIfPresent (hk : g.Cleared ps removed k) (hl : g.IsLinkless)
    (hp : g.Removable p) (hnew : g.placeOf p ∉ ps.map g.placeOf) :
    Action.Ensures (· = k) (removeIfPresent p)
      (fun x => g.Cleared (ps ++ [p]) (removed ++ x.toList)) fun _ _ => False := by
  have hexists : k.doesExist p = .ok (k.tree.find? (g.placeOf p)).isSome := by
    rw [doesExist, hk.ask_eq hl hp]
    rcases k.tree.find? (g.placeOf p) with _ | e
    · rfl
    · rfl
  refine .bind (q := fun b k' => k' = k ∧ b = (k.tree.find? (g.placeOf p)).isSome)
    (.of_eq_ok (FileAction.query_eq_ok_iff.mpr ⟨hexists, rfl⟩) ⟨rfl, rfl⟩) fun b => .given ?_
  intro hb
  by_cases hsome : (k.tree.find? (g.placeOf p)).isSome = true
  · rw [hb, if_pos hsome]
    rcases hk.unlink_eq hl hp hnew hsome with ⟨k', hunlink, hcleared⟩
    exact .bind (.of_eq_ok (x := ()) (FileAction.change_eq_ok_iff.mpr hunlink) hcleared)
      fun _ => .of_pure fun _ h => h
  · rw [Bool.not_eq_true] at hsome
    rw [hb, hsome, if_neg Bool.false_ne_true]
    refine .of_pure ?_
    rintro _ rfl
    rw [Option.toList_none, List.append_nil]
    exact hk.skip hnew hsome

/-- Clearing some paths, one after the other. -/
theorem ensures_removeEach (hl : g.IsLinkless) {l : List Path} (hl' : ∀ p ∈ l, g.Removable p)
    (hnodup : ((ps ++ l).map g.placeOf).Nodup) :
    Action.Ensures (fun w : Workspace => g.Cleared ps removed w.files)
      (l.mapM fun p => (removeIfPresent p : Action Workspace (Option Path)))
      (fun xs w => g.Cleared (ps ++ l) (removed ++ xs.filterMap id) w.files) fun _ _ => False := by
  refine (Action.Ensures.mapM (fun done xs w =>
    g.Cleared (ps ++ done) (removed ++ xs.filterMap id) w.files) ?_).mono (fun w hw => ?_)
    (fun _ _ => id) fun _ _ => id
  · intro done p rest xs hdone
    -- No place is cleared twice.
    have hnew : g.placeOf p ∉ (ps ++ done).map g.placeOf := by
      rw [hdone, ← List.append_assoc, List.map_append, List.map_cons] at hnodup
      exact fun hmem => (List.nodup_append.mp hnodup).2.2 _ hmem _ List.mem_cons_self rfl
    have hp := hl' p (hdone ▸ List.mem_append_right done List.mem_cons_self)
    refine Workspace.ensures_liftM fun w hw =>
      (hw.ensures_removeIfPresent hl hp hnew).mono (fun _ => id) (fun x k hk => ?_) fun _ _ => id
    rw [List.append_assoc, List.append_assoc] at hk
    rw [List.filterMap_append]
    cases x with
    | none => exact hk
    | some p' => exact hk
  · rw [List.append_nil, List.filterMap_nil, List.append_nil]
    exact hw

end Cleared

end Paths

end Files

/-- The artifacts of sources, in order. -/
def artifactsOf (sources : List Path) : List Path :=
  sources.flatMap fun s => (Artifacts.beside s).toList

open Files

section Cleaning

variable {g : Files} {root output : Path} {sources : List Path}

/-- What cleaning clears: the artifacts of the sources, and the program unless it is one. -/
def clearedBy (g : Files) (sources : List Path) (output : Path) : List Path :=
  artifactsOf sources ++
    if ∃ p ∈ artifactsOf sources, g.placeOf p = g.placeOf output then [] else [output]

theorem clearedBy_of_mem (h : g.placeOf output ∈ (artifactsOf sources).map g.placeOf) :
    clearedBy g sources output = artifactsOf sources := by
  rw [clearedBy, if_pos (List.mem_map.mp h), List.append_nil]

theorem clearedBy_of_not_mem (h : g.placeOf output ∉ (artifactsOf sources).map g.placeOf) :
    clearedBy g sources output = artifactsOf sources ++ [output] := by
  rw [clearedBy, if_neg fun hmem => h (List.mem_map.mpr hmem)]

theorem mem_clearedBy_iff {q : Place} : q ∈ (clearedBy g sources output).map g.placeOf ↔
    q ∈ (artifactsOf sources).map g.placeOf ∨ q = g.placeOf output := by
  by_cases hmem : g.placeOf output ∈ (artifactsOf sources).map g.placeOf
  · rw [clearedBy_of_mem hmem]
    constructor
    · exact Or.inl
    · rintro (h | rfl)
      · exact h
      · exact hmem
  · rw [clearedBy_of_not_mem hmem, List.map_append, List.mem_append, List.map_singleton,
      List.mem_singleton]

/-- No place is cleared twice. -/
theorem nodup_clearedBy (h : ((artifactsOf sources).map g.placeOf).Nodup) :
    ((clearedBy g sources output).map g.placeOf).Nodup := by
  by_cases hmem : g.placeOf output ∈ (artifactsOf sources).map g.placeOf
  · rw [clearedBy_of_mem hmem]
    exact h
  · rw [clearedBy_of_not_mem hmem, List.map_append, List.map_singleton]
    refine List.nodup_append.mpr ⟨h, List.nodup_singleton _, ?_⟩
    rintro q hq _ hq' rfl
    rw [List.mem_singleton.mp hq'] at hq
    exact hmem hq

/-- If there is no program, there is nothing more to be done. -/
theorem Files.Cleared.clearedBy_of_none {k : Files} {removed : List Path}
    (h : g.Cleared (artifactsOf sources) removed k)
    (hnone : (k.tree.find? (g.placeOf output)).isSome = false) :
    g.Cleared (clearedBy g sources output) removed k := by
  by_cases hmem : g.placeOf output ∈ (artifactsOf sources).map g.placeOf
  · rw [clearedBy_of_mem hmem]
    exact h
  · rw [clearedBy_of_not_mem hmem]
    exact h.skip hmem hnone

/-- Clearing the artifacts of all sources. -/
theorem ensures_removeArtifacts (hl : g.IsLinkless)
    (hsources : ∀ s ∈ sources, s.parts ≠ [])
    (hremovable : ∀ p ∈ artifactsOf sources, g.Removable p)
    (hnodup : ((artifactsOf sources).map g.placeOf).Nodup) :
    Action.Ensures (fun w : Workspace => w.files = g)
      (sources.mapM fun s => do
        let a ← Action.ofExcept (Artifacts.ofSource s)
        a.toList.mapM fun p => (removeIfPresent p : Action Workspace (Option Path)))
      (fun xss w => g.Cleared (artifactsOf sources) (xss.flatten.filterMap id) w.files)
      fun _ _ => False := by
  -- The invariant: the artifacts of the sources so far have been cleared.
  refine (Action.Ensures.mapM (fun done xss w =>
    g.Cleared (artifactsOf done) (xss.flatten.filterMap id) w.files) ?_).mono
    (fun w hw => ?_) (fun _ _ => id) fun _ _ => id
  · intro done s rest xss hdone
    have hs : s ∈ sources := hdone ▸ List.mem_append_right done List.mem_cons_self
    have hsplit : artifactsOf sources =
        artifactsOf done ++ (Artifacts.beside s).toList ++ artifactsOf rest := by
      rw [hdone, artifactsOf, List.flatMap_append, List.flatMap_cons, List.append_assoc]
      rfl
    have hbeside : Artifacts.ofSource s = .ok (Artifacts.beside s) :=
      Artifacts.ofSource_eq_ok_iff.mpr ⟨hsources s hs, rfl⟩
    rw [hsplit] at hremovable hnodup
    rw [hbeside]
    refine .bind (q := fun a w => g.Cleared (artifactsOf done) (xss.flatten.filterMap id) w.files ∧
      a = Artifacts.beside s) (.of_pure fun w hw => ⟨hw, rfl⟩) fun a => .given ?_
    rintro rfl
    refine (Files.Cleared.ensures_removeEach hl (fun p hp => hremovable p ?_) ?_).mono
      (fun w hw => hw) (fun xs w hw => ?_) fun _ _ => id
    · exact List.mem_append_left _ (List.mem_append_right _ hp)
    · rw [List.map_append] at hnodup
      exact (List.nodup_append.mp hnodup).1
    · rw [List.flatten_append, List.flatten_singleton, List.filterMap_append, artifactsOf,
        List.flatMap_append, List.flatMap_singleton]
      exact hw
  · rw [hw]
    exact Files.Cleared.refl g

/-- Cleaning clears the artifacts of all sources and the program. -/
theorem ensures_clean (hl : g.IsLinkless) (hdiscovers : g.sources root = .ok sources)
    (hsources : ∀ s ∈ sources, s.parts ≠ [])
    (hremovable : ∀ p ∈ artifactsOf sources, g.Removable p)
    (hnodup : ((artifactsOf sources).map g.placeOf).Nodup) (houtput : g.Removable output) :
    Action.Ensures (fun w => w.files = g) (clean root (some output))
      (fun removed w => g.Cleared (clearedBy g sources output) removed w.files)
      fun _ _ => False := by
  unfold clean
  refine .bind (q := fun found w => w.files = g ∧ found = sources)
    (Workspace.ensures_liftM fun w hw => ?_) fun found => .given ?_
  · exact .of_eq_ok (FileAction.query_eq_ok_iff.mpr ⟨hw.symm ▸ hdiscovers, rfl⟩) ⟨hw, rfl⟩
  rintro rfl
  refine .bind (ensures_removeArtifacts hl hsources hremovable hnodup) fun xss => ?_
  lift_lets
  intro rest
  have hrest : ∀ program : Option Path, Action.Ensures (fun w => g.Cleared
      (clearedBy g found output) (xss.flatten.filterMap id ++ program.toList) w.files)
      (rest program) (fun removed w => g.Cleared (clearedBy g found output) removed w.files)
      fun _ _ => False :=
    fun program => .followed (fun w hw => hw) fun _ => .of_pure fun w hw => hw
  refine .of_each fun w hw => ?_
  refine .bind (q := fun b w' => w' = w ∧ b = (w.files.tree.find? (g.placeOf output)).isSome)
    (Workspace.ensures_liftM ?_) fun b => .given fun hb => ?_
  · rintro _ rfl
    exact .of_eq_ok (FileAction.query_eq_ok_iff.mpr ⟨hw.isFile_eq hl houtput, rfl⟩) ⟨rfl, rfl⟩
  by_cases hsome : (w.files.tree.find? (g.placeOf output)).isSome = true
  · -- Had the program been an artifact, it would have been removed.
    have hmem : g.placeOf output ∉ (artifactsOf found).map g.placeOf := fun hmem => by
      rcases List.mem_map.mp hmem with ⟨p, hp, heq⟩
      rw [← heq, hw.gone p hp] at hsome
      cases hsome
    rcases hw.unlink_eq hl houtput hmem hsome with ⟨k, hunlink, hcleared⟩
    rw [hb, if_pos hsome]
    refine .bind (q := fun _ w' => w'.files = k) (Workspace.ensures_liftM ?_) fun _ =>
      .bind (.of_pure ?_) hrest
    · rintro _ rfl
      exact .of_eq_ok (x := ()) (FileAction.change_eq_ok_iff.mpr hunlink) rfl
    · rintro w' rfl
      rw [clearedBy_of_not_mem hmem]
      exact hcleared
  · rw [Bool.not_eq_true] at hsome
    rw [hb, hsome, if_neg Bool.false_ne_true]
    refine .bind (.of_pure ?_) hrest
    rintro _ rfl
    rw [Option.toList_none, List.append_nil]
    exact hw.clearedBy_of_none hsome

end Cleaning

/-- The artifacts of sources that are apart are at different places. -/
theorem Files.Apart.nodup_artifactsOf {f : Files} {sources : List Path} (h : f.Apart sources) :
    ((artifactsOf sources).map f.placeOf).Nodup := by
  rw [artifactsOf, List.map_flatMap, List.nodup_flatMap]
  refine ⟨fun s hs => ?_, h.nodup.imp_of_mem fun {s s'} hs hs' hne => ?_⟩
  · -- Those of one unit have different endings.
    rw [toList_beside (h.isSource s hs), List.map_map]
    have hendings : artifactEndings.Nodup := by decide
    refine List.pairwise_map.mpr (hendings.imp_of_mem fun {e e'} he he' hne heq => hne ?_)
    rw [Function.comp_apply, Function.comp_apply, placeOf_unitFile (List.mem_append_left _ he),
      placeOf_unitFile (List.mem_append_left _ he')] at heq
    exact List.append_cancel_left (List.singleton_inj.mp (List.append_cancel_left heq))
  · -- Those of different units are held by different units.
    intro q hq hq'
    rcases List.mem_map.mp hq with ⟨p, hp, rfl⟩
    rcases List.mem_map.mp hq' with ⟨p', hp', heq⟩
    exact h.not_holds_of_ne hs hs' hne (Or.inl ⟨p, hp, rfl⟩) (Or.inl ⟨p', hp', heq.symm⟩)

/-- A project of which nothing has been built, and that can be built: there are no links, nothing
    is where an artifact, a temporary file or the program would be, and files can be created
    there. The directory of the program is there, and the program is not named like a source. -/
structure IsUnbuilt (f : Files) (r : BuildRequest) (sources : List Path) : Prop where
  /-- There are no links. -/
  linkless : f.IsLinkless
  /-- The tree is one that a file system has. -/
  sound : f.tree.IsSound
  /-- These are the sources of the project. -/
  discovers : f.sources r.root = .ok sources
  /-- There are no artifacts. -/
  artifacts : ∀ s ∈ sources, ∀ p ∈ (Artifacts.beside s).toList, f.IsFree p
  /-- There are no temporary files. -/
  temporaries : ∀ s ∈ sources, f.IsFree (Artifacts.beside s).code.temporary ∧
    f.IsFree (Artifacts.beside s).header.temporary
  /-- There is no program. -/
  output : f.IsFree r.output
  /-- The directory of the program is there. -/
  parent : f.isDir r.output.parent = .ok true
  /-- The program is not named like a source. -/
  notSource : r.output.name.endsWith sourceEnding = false

namespace IsUnbuilt

variable {f g : Files} {r : BuildRequest} {sources : List Path}

/-- The places at which a build stores files. -/
def Stored (f : Files) (r : BuildRequest) (sources : List Path) (q : Place) : Prop :=
  f.StoresAny sources q ∨ q = f.placeOf r.output

theorem mem_artifactsOf_iff {q : Place} :
    q ∈ (artifactsOf sources).map f.placeOf ↔ f.StoresAny sources q := by
  simp only [artifactsOf, List.mem_map, List.mem_flatMap, StoresAny, Stores]
  constructor
  · rintro ⟨p, ⟨s, hs, hp⟩, rfl⟩
    exact ⟨s, hs, p, hp, rfl⟩
  · rintro ⟨s, hs, p, hp, rfl⟩
    exact ⟨p, ⟨s, hs, hp⟩, rfl⟩

/-- Nothing is where a build stores files. -/
theorem find?_of_stored (h : IsUnbuilt f r sources) {q : Place} (hq : Stored f r sources q) :
    f.tree.find? q = none := by
  rcases hq with ⟨s, hs, p, hp, rfl⟩ | rfl
  · exact (h.artifacts s hs p hp).find?_eq
  · exact h.output.find?_eq

/-- Borrowed places are empty again. -/
theorem find?_of_not_stored (h : IsUnbuilt f r sources)
    (hamends : Amends (Stored f r sources) (f.BorrowsAny sources) f g) {q : Place}
    (hq : ¬ Stored f r sources q) : g.tree.find? q = f.tree.find? q := by
  by_cases hborrowed : f.BorrowsAny sources q
  · have hnone : f.tree.find? q = none := by
      rcases hborrowed with ⟨s, hs, p, hp, rfl⟩
      rcases List.mem_cons.mp hp with rfl | hp
      · exact (h.temporaries s hs).1.find?_eq
      · rw [List.mem_singleton.mp hp]
        exact (h.temporaries s hs).2.find?_eq
    rw [(hamends.keeps q hq).eq_none hnone, hnone]
  · exact hamends.changes.outside q fun h => h.elim hq hborrowed

/-- The same sources are discovered after a build. -/
theorem sources_eq (h : IsUnbuilt f r sources)
    (hamends : Amends (Stored f r sources) (f.BorrowsAny sources) f g) :
    g.sources r.root = .ok sources := by
  have halike := hamends.changes.alike h.linkless
  -- Nothing that is stored is named like a source.
  have hsame : ∀ (place : Place) (x : Text), x.endsWith sourceEnding = true →
      g.tree.find? (place ++ [x]) = f.tree.find? (place ++ [x]) := by
    intro place x hx
    refine h.find?_of_not_stored hamends ?_
    rw [← Bool.not_eq_false] at hx
    rintro (⟨s, hs, hstored⟩ | houtput)
    · exact hx (Holds.not_endsWith ((apart_of_sources h.sound h.discovers).isSource s hs)
        (Or.inl hstored))
    · rw [← slotOf_of_endsPlain h.output.endsPlain] at houtput
      rw [List.singleton_inj.mp (List.append_inj' houtput rfl).2] at hx
      exact hx h.notSource
  rcases halike.exists_sources hsame h.discovers with ⟨sources', hsources'⟩
  rw [halike.sources_eq h.sound (hamends.sound h.sound) hsame h.discovers hsources']
  exact hsources'

/-- What cleaning clears is where a build stores files. -/
theorem mem_clearedBy_iff_stored (hamends : Amends (Stored f r sources) (f.BorrowsAny sources) f g)
    {q : Place} : q ∈ (clearedBy g sources r.output).map g.placeOf ↔ Stored f r sources q := by
  rw [mem_clearedBy_iff, funext hamends.changes.placeOf_eq, mem_artifactsOf_iff]
  rfl

/-- What is left when all that a build may have stored has been cleared. -/
theorem restored (h : IsUnbuilt f r sources)
    (hamends : Amends (Stored f r sources) (f.BorrowsAny sources) f g) {removed : List Path}
    {k : Files} (hcleared : g.Cleared (clearedBy g sources r.output) removed k) :
    k.home = f.home ∧ k.tree.rights = f.tree.rights ∧
      ∀ q, k.tree.find? q = f.tree.find? q := by
  refine ⟨hcleared.changes.home.trans hamends.changes.home,
    hcleared.changes.rights.trans hamends.changes.rights, fun q => ?_⟩
  by_cases hq : Stored f r sources q
  · rcases List.mem_map.mp ((mem_clearedBy_iff_stored hamends).mpr hq) with ⟨p, hp, rfl⟩
    rw [hcleared.gone p hp, h.find?_of_stored hq]
  · rw [hcleared.changes.outside q fun hmem => hq ((mem_clearedBy_iff_stored hamends).mp hmem),
      h.find?_of_not_stored hamends hq]

/-- What has been removed is what the build had stored. -/
theorem mem_removed_iff (h : IsUnbuilt f r sources)
    (hamends : Amends (Stored f r sources) (f.BorrowsAny sources) f g) {removed : List Path}
    {k : Files} (hcleared : g.Cleared (clearedBy g sources r.output) removed k) {q : Place} :
    q ∈ removed.map g.placeOf ↔ f.tree.find? q = none ∧ g.tree.find? q ≠ none := by
  rw [hcleared.removed_eq]
  constructor
  · intro hq
    rcases List.mem_map.mp hq with ⟨p, hp, rfl⟩
    rcases List.mem_filter.mp hp with ⟨hp, hsome⟩
    have hstored := (mem_clearedBy_iff_stored hamends).mp (List.mem_map_of_mem hp)
    exact ⟨h.find?_of_stored hstored, Option.isSome_iff_ne_none.mp hsome⟩
  · rintro ⟨hnone, hsome⟩
    -- What a build adds stands where a build may store.
    have hstored : Stored f r sources q := by
      by_contra hq
      rw [h.find?_of_not_stored hamends hq] at hsome
      exact hsome hnone
    rcases List.mem_map.mp ((mem_clearedBy_iff_stored hamends).mpr hstored) with ⟨p, hp, rfl⟩
    exact List.mem_map_of_mem (List.mem_filter.mpr ⟨hp, Option.isSome_iff_ne_none.mpr hsome⟩)

/-- What a build leaves that returns, however it ended. -/
theorem amends_of_build {verbose : Bool} {w w' : Workspace} {report : BuildReport}
    (h : IsUnbuilt w.files r sources) (hplain : w.tools.FailPlainly)
    (htools : w.tools.IsObedient r sources) (hbuild : build r verbose w = .ok report w') :
    Amends (Stored w.files r sources) (w.files.BorrowsAny sources) w.files w'.files := by
  have hphases := Project.amended_phasesOf hplain htools h.linkless h.sound
    (grants_of_sources h.linkless h.sound h.discovers (· = w.files.placeOf r.output)) h.parent
    (Or.inr (slotOf_of_endsPlain h.output.endsPlain))
  rcases build_cases hbuild with ⟨_, _, hfiles, _⟩ |
    ⟨sources', c, ns, hsources, _, ⟨_, p, hend, _, _, hfiles, _⟩ | ⟨_, p, hend, _, hfiles, _⟩⟩
  · rw [hfiles]
    exact Amends.refl _ _ _
  -- However the phases end, they amend the files, and nothing is written after them.
  all_goals
    rw [h.discovers, Except.ok.injEq] at hsources
    subst hsources
    rw [hfiles]
  · exact (hphases.ok (Project.amended_start _ _ w c ns sources) hend).2.files
  · exact (hphases.error (Project.amended_start _ _ w c ns sources) hend).2.files

end IsUnbuilt

/-- Cleaning undoes a build. If nothing had been built before, and the tools write nothing but the
    files they are asked for, then cleaning what a build left that returned, with success or with
    any failure, succeeds and gives back what was there before the build. It names, without
    duplicates, exactly the places at which the build left something. -/
theorem clean_undoes_build {r : BuildRequest} {verbose : Bool} {w w₁ w₂ : Workspace}
    {report : BuildReport} {sources : List Path} (hunbuilt : IsUnbuilt w.files r sources)
    (hplain : w.tools.FailPlainly) (htools : w.tools.IsObedient r sources)
    (hbuild : build r verbose w = .ok report w₁) (hfiles : w₂.files = w₁.files) :
    ∃ removed w₃, clean r.root (some r.output) w₂ = .ok removed w₃ ∧
      w₃.files.home = w.files.home ∧ w₃.files.tree.rights = w.files.tree.rights ∧
      (∀ q, w₃.files.tree.find? q = w.files.tree.find? q) ∧
      (removed.map w.files.placeOf).Nodup ∧
      ∀ q, q ∈ removed.map w.files.placeOf ↔
        w.files.tree.find? q = none ∧ w₁.files.tree.find? q ≠ none := by
  have hamends := hunbuilt.amends_of_build hplain htools hbuild
  have halike := hamends.changes.alike hunbuilt.linkless
  have hapart := (apart_of_sources hunbuilt.sound hunbuilt.discovers).of_changesOnly hamends.changes
  have hremovable : ∀ p ∈ artifactsOf sources, w₁.files.Removable p := by
    intro p hp
    rcases List.mem_flatMap.mp hp with ⟨s, hs, hp⟩
    exact (hunbuilt.artifacts s hs p hp).removable halike
  rcases (ensures_clean halike.right (hunbuilt.sources_eq hamends)
    (fun s hs => (hapart.isSource s hs).parts) hremovable hapart.nodup_artifactsOf
    (hunbuilt.output.removable halike)).exists_ok hfiles with ⟨removed, w₃, hclean, hcleared⟩
  rw [← funext hamends.changes.placeOf_eq]
  rcases hunbuilt.restored hamends hcleared with ⟨hhome, hrights, htree⟩
  refine ⟨removed, w₃, hclean, hhome, hrights, htree, ?_,
    fun q => hunbuilt.mem_removed_iff hamends hcleared⟩
  rw [hcleared.removed_eq]
  exact (nodup_clearedBy hapart.nodup_artifactsOf).sublist (List.filter_sublist.map _)

theorem isUnbuilt_importing :
    IsUnbuilt importingWorkspace.files importingRequest importingSources where
  linkless := isProject_importing.linkless
  sound := isProject_importing.sound
  discovers := isProject_importing.discovers
  artifacts := by
    simp only [importingSources, Artifacts.toList, List.forall_mem_cons, List.not_mem_nil,
      false_imp_iff, implies_true, and_true]
    refine ⟨⟨?_, ?_, ?_⟩, ?_, ?_, ?_⟩
    all_goals exact ⟨by cbv, by cbv⟩
  temporaries := by
    simp only [importingSources, List.forall_mem_cons, List.not_mem_nil, false_imp_iff,
      implies_true, and_true]
    refine ⟨⟨?_, ?_⟩, ?_, ?_⟩
    all_goals exact ⟨by cbv, by cbv⟩
  output := ⟨by cbv, by cbv⟩
  parent := isProject_importing.parent
  notSource := isProject_importing.notSource

theorem clean_undoes_build_importing : ∃ report w₁ removed w₃,
    IsUnbuilt importingWorkspace.files importingRequest importingSources ∧
    build importingRequest false importingWorkspace = .ok report w₁ ∧ report.isSuccess = true ∧
    clean importingRequest.root (some importingRequest.output) w₁ = .ok removed w₃ ∧
    (∀ q, w₃.files.tree.find? q = importingWorkspace.files.tree.find? q) ∧
    (removed.map importingWorkspace.files.placeOf).Nodup ∧
    ∀ q, q ∈ removed.map importingWorkspace.files.placeOf ↔
      importingWorkspace.files.tree.find? q = none ∧ w₁.files.tree.find? q ≠ none := by
  rcases exists_of_hasBuilt (Bool.and_eq_true_iff.mp hasBuilt_importing).1 with
    ⟨report, hbuild, hsuccess⟩
  rcases clean_undoes_build isUnbuilt_importing targetTools_failPlainly isObedient_importing hbuild
    rfl with ⟨removed, w₃, hclean, _, _, htree, hnodup, hremoved⟩
  exact ⟨report, _, removed, w₃, isUnbuilt_importing, hbuild, hsuccess, hclean, htree, hnodup,
    hremoved⟩

end DialectBuild
