import DialectBuild.Proofs.AlikeWalks

/-!
# Files That Differ in Their Contents Only

What an import finds does not depend on what is written in any file. It asks where a path leads,
whether that is a directory, and which names the directory lists, and all of this is known from the
outline of the files: which places have an entry, and whether it is a file or a directory.

Between two sets of files with the same outline there is no difference at all in these answers. A
question that is refused in the one is refused for the same reason in the other, so that imports are
expanded alike, even where that fails.

## Main definitions

* `Entry.outline`: An entry without what is written in it.
* `Files.EndsAlike`: Two walks that end at the same place or fail alike.
* `Files.SameOutline`: Files with the same outline.

## Theorems

* `Files.walk_endsAlike`: A walk ends alike in trees with the same outline.
* `Files.SameOutline.ask_eq`, `Files.SameOutline.list_eq`: Questions are answered alike.
* `Files.SameOutline.expansion_eq`: Imports are expanded alike.
-/

namespace DialectBuild

/-- An entry without what is written in it. -/
def Entry.outline : Entry → Entry
  | .file _ => .file []
  | e => e

theorem Entry.outline_eq_dir_iff {e : Entry} : e.outline = .dir ↔ e = .dir := by
  cases e with
  | _ => simp only [outline, reduceCtorEq]

namespace Tree

variable {t t' : Tree}

/-- Trees with the same outline have the same directories. -/
theorem eq_dir_iff_of_outline
    (h : ∀ q, (t'.find? q).map Entry.outline = (t.find? q).map Entry.outline) (q : Place) :
    t'.find? q = some .dir ↔ t.find? q = some .dir := by
  have hdir : ∀ o : Option Entry, o.map Entry.outline = some .dir ↔ o = some .dir := by
    intro o
    cases o with
    | none => simp only [reduceCtorEq, Option.map_none]
    | some e => rw [Option.map_some, Option.some.injEq, Option.some.injEq, e.outline_eq_dir_iff]
  rw [← hdir, h q, hdir]

/-- Trees with the same outline have entries at the same places. -/
theorem eq_none_iff_of_outline
    (h : ∀ q, (t'.find? q).map Entry.outline = (t.find? q).map Entry.outline) (q : Place) :
    t'.find? q = none ↔ t.find? q = none := by
  rw [← Option.map_eq_none_iff (f := Entry.outline), h q, Option.map_eq_none_iff]

end Tree

namespace Files

/-- Two walks that fail for the same reason, end at the same free name, or end at the same place
    with entries that differ in what is written there. -/
inductive EndsAlike {ε : Type} : Except ε Spot → Except ε Spot → Prop where
  | error (e : ε) : EndsAlike (.error e) (.error e)
  | absent (place : Place) : EndsAlike (.ok (.absent place)) (.ok (.absent place))
  | present (place : Place) {e e' : Entry} (h : e'.outline = e.outline) :
      EndsAlike (.ok (.present place e)) (.ok (.present place e'))

theorem EndsAlike.mapError {ε ε' : Type} {s s' : Except ε Spot} (h : EndsAlike s s')
    (r : ε → ε') : EndsAlike (s.mapError r) (s'.mapError r) := by
  cases h with
  | error e => exact .error (r e)
  | absent place => exact .absent place
  | present place he => exact .present place he

/-- A walk ends alike in trees with the same outline. -/
theorem walk_endsAlike {t t' : Tree} {follow : Bool} {links : Nat}
    (hlink : ∀ place target, t.find? place ≠ some (.link target))
    (hlink' : ∀ place target, t'.find? place ≠ some (.link target))
    (h : ∀ q, (t'.find? q).map Entry.outline = (t.find? q).map Entry.outline)
    (here : Place) (names : List Text) :
    EndsAlike (walk t follow links here names) (walk t' follow links here names) := by
  induction names generalizing here with
  | nil =>
      rw [walk, walk]
      rcases hfind : t.find? here with _ | e
      · rw [(Tree.eq_none_iff_of_outline h here).mpr hfind]
        exact .error _
      · have hhere := h here
        rw [hfind] at hhere
        rcases Option.map_eq_some_iff.mp hhere with ⟨e', hfind', heq⟩
        rw [hfind']
        exact .present here heq
  | cons x rest ih =>
      -- Each check of a walk asks for a directory, for a free name, or not for the tree at all.
      rw [walk_cons hlink, walk_cons hlink']
      simp only [ne_eq, Tree.eq_dir_iff_of_outline h, Tree.eq_none_iff_of_outline h]
      split_ifs with hdir hup hdot hlong hmissing hnone
      · exact ih here.dropLast
      · exact ih here
      · exact .error _
      · exact .error _
      · exact .absent _
      · exact ih (here ++ [x])
      · exact .error _

/-- Files without links that differ in their contents only. -/
structure SameOutline (f g : Files) : Prop where
  /-- The working directory is the same. -/
  home : g.home = f.home
  /-- The same may be done in every directory. -/
  rights : g.tree.rights = f.tree.rights
  /-- There are no links in the first. -/
  left : f.IsLinkless
  /-- There are no links in the second. -/
  right : g.IsLinkless
  /-- The first tree is one that a file system has. -/
  soundLeft : f.tree.IsSound
  /-- The second one is, too. -/
  soundRight : g.tree.IsSound
  /-- The same is at every place, but for what is written there. -/
  outline : ∀ q, (g.tree.find? q).map Entry.outline = (f.tree.find? q).map Entry.outline

namespace SameOutline

variable {f g : Files} {p base : Path}

theorem alike (h : SameOutline f g) : Alike f g :=
  ⟨h.home, h.rights, h.left, h.right, fun q => (Tree.eq_dir_iff_of_outline h.outline q).symm⟩

/-- A path leads to the same place, or fails alike. -/
theorem spot_endsAlike (h : SameOutline f g) (follow : Bool) (p : Path) :
    EndsAlike (f.spot follow p) (g.spot follow p) := by
  have hstart : g.start p = f.start p := by
    rw [start, start, h.home]
  unfold spot
  rw [hstart]
  split_ifs with hnull hlong
  · exact .error _
  · exact .error _
  · exact (walk_endsAlike h.left h.right h.outline _ _).mapError _

/-- A question that does not ask what is written in a file is answered alike. -/
theorem ask_eq (h : SameOutline f g) {question : Entry → Bool}
    (hq : ∀ e, question e.outline = question e) : g.ask p question = f.ask p question := by
  rw [ask, ask]
  have hspot := h.spot_endsAlike true p
  generalize f.spot true p = s, g.spot true p = s' at hspot ⊢
  cases hspot with
  | error e => rfl
  | absent place => rfl
  | present place he => exact congrArg Except.ok (by rw [← hq, he, hq])

theorem isDir_eq (h : SameOutline f g) (p : Path) : g.isDir p = f.isDir p := by
  refine h.ask_eq fun e => ?_
  cases e with
  | _ => rfl

theorem isFile_eq (h : SameOutline f g) (p : Path) : g.isFile p = f.isFile p := by
  refine h.ask_eq fun e => ?_
  cases e with
  | _ => rfl

/-- A directory lists the same names. -/
theorem names_eq (h : SameOutline f g) (place : Place) :
    (g.tree.names place).mergeSort Text.le = (f.tree.names place).mergeSort Text.le := by
  have hnodup : ∀ {t : Tree}, t.IsSound → ((t.names place).mergeSort Text.le).Nodup :=
    fun hsound => (List.mergeSort_perm _ _).nodup_iff.mpr (hsound.nodup_names place)
  refine eq_of_pairwise_of_mem_iff (Text.pairwise_mergeSort _) (Text.pairwise_mergeSort _)
    (hnodup h.soundRight) (hnodup h.soundLeft) (fun x => ?_) fun _ _ _ _ => Text.le_antisymm
  rw [List.mem_mergeSort, List.mem_mergeSort, Tree.mem_names_iff, Tree.mem_names_iff,
    ← Option.ne_none_iff_exists', ← Option.ne_none_iff_exists', ne_eq, ne_eq,
    Tree.eq_none_iff_of_outline h.outline]

/-- A directory is opened in both or in neither. -/
theorem openDir_eq (h : SameOutline f g) (p : Path) : g.openDir p = f.openDir p := by
  unfold openDir
  simp only [Tree.isUnlisted_congr h.rights]
  have hspot := h.spot_endsAlike true p
  generalize f.spot true p = s, g.spot true p = s' at hspot ⊢
  cases hspot with
  | error e => rfl
  | absent place => rfl
  | @present place e e' he =>
      cases e with
      | dir => rw [Entry.outline_eq_dir_iff.mp he]
      | _ =>
          cases e' with
          | dir => cases he
          | _ => rfl

theorem list_eq (h : SameOutline f g) (p : Path) : g.list p = f.list p := by
  rw [list, list, h.openDir_eq]
  simp only [h.names_eq]

theorem headersIn_eq (h : SameOutline f g) (dir : Path) : g.headersIn dir = f.headersIn dir := by
  rw [headersIn, headersIn, h.list_eq]
  simp only [h.isFile_eq]

theorem expand_eq (h : SameOutline f g) (m : Marker) (n : Nat) (ending : Text) :
    Marker.expand g base m n ending = Marker.expand f base m n ending := by
  simp only [Marker.expand, h.isDir_eq, h.headersIn_eq]

theorem ofLine_eq (h : SameOutline f g) (known : List Place) (n : Nat) (source : Text) :
    ExpandedLine.ofLine g base known n source = ExpandedLine.ofLine f base known n source := by
  simp only [ExpandedLine.ofLine, h.alike.resolve_eq, h.expand_eq]

theorem ofLines_eq (h : SameOutline f g) (known : List Place) (n : Nat) (ls : List Text) :
    Expansion.ofLines g base known n ls = Expansion.ofLines f base known n ls := by
  induction ls generalizing known n with
  | nil => rfl
  | cons source ls ih => simp only [Expansion.ofLines, h.ofLine_eq, ih]

/-- Imports are expanded alike, or fail alike. -/
theorem expansion_eq (h : SameOutline f g) (base : Path) (t : Text) :
    Expansion.ofText g base t = Expansion.ofText f base t :=
  h.ofLines_eq [] 1 t.codeLines

end SameOutline

end Files

end DialectBuild
