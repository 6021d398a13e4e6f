import DialectBuild.Proofs.LinkedFiles
import DialectBuild.Proofs.Refusals

/-!
# A Path and Its Directory

Where a path leads that goes one name further than another one. The way to it is the way to the
directory, on which every link is followed, and then one more step. So the place that a path names
is in the place of its directory, whatever links there are on the way, unless its last part is a
dot or two, and two paths in one directory name places next to each other.

In the other direction, a path leads from a directory to whatever is there under a name, as long as
the name and the whole path are short enough.

## Main definitions

* `Files.Enters`: One step from a directory.

## Theorems

* `Files.Walks.of_concat`, `Files.Walks.concat`: The last step of a walk.
* `Files.LeadsTo.exists_directory`: The place that a path names is one step from its directory.
* `Files.LeadsTo.child`: What is in a directory can be reached.
-/

namespace DialectBuild

namespace Text

theorem byteLength_append (s t : Text) : byteLength (s ++ t) = byteLength s + byteLength t := by
  rw [byteLength, Encoding.encode, List.flatMap_append, List.length_append]
  rfl

theorem join_concat {sep : Text} {ts : List Text} (h : ts ≠ []) (t : Text) :
    join sep (ts ++ [t]) = join sep ts ++ (sep ++ t) := by
  induction ts with
  | nil => exact absurd rfl h
  | cons a ts ih =>
      cases ts with
      | nil =>
          rw [List.singleton_append, join, join, List.intercalate_cons_cons,
            List.intercalate_singleton, List.intercalate_singleton, List.append_assoc]
      | cons b ts =>
          rw [List.cons_append, List.cons_append, join, join, List.intercalate_cons_cons,
            List.intercalate_cons_cons, ← List.cons_append]
          have hrest := ih (List.cons_ne_nil b ts)
          rw [join, join] at hrest
          rw [hrest]
          simp only [List.append_assoc]

end Text

/-- A path is short enough if one that goes further is. -/
theorem Path.byteLength_lt_of_child {p : Path} {x : Text}
    (h : (p.child x).text.byteLength < Files.maxPath) : p.text.byteLength < Files.maxPath := by
  have hanchor : ∀ a : Anchor, a.text.byteLength < Files.maxPath := by
    intro a
    cases a <;> decide
  -- An empty path is written as its anchor or as a dot; any other is a front part of its child.
  by_cases hparts : p.parts = []
  · rw [Path.text]
    by_cases hdot : p.anchor = .relative ∧ p.parts = []
    · rw [if_pos hdot]
      decide
    · rw [if_neg hdot, hparts, Text.join, List.intercalate_nil, List.append_nil]
      exact hanchor p.anchor
  · have hchild : (p.child x).text = p.text ++ ("/" ++ x) := by
      have hne : (p.child x).parts ≠ [] :=
        List.append_ne_nil_of_right_ne_nil _ (List.cons_ne_nil x [])
      rw [Path.text, Path.text, if_neg fun hdot => hne hdot.2, if_neg fun hdot => hparts hdot.2,
        Path.child, Text.join_concat hparts, List.append_assoc]
    rw [hchild, Text.byteLength_append] at h
    exact Nat.lt_of_le_of_lt (Nat.le_add_right _ _) h

namespace Files

/-- The place to which a name leads from a directory, if it is not that of a link to be followed. -/
inductive Enters (dir : Place) : Text → Place → Prop where
  /-- The parent part leads to the directory above. -/
  | up : Enters dir Path.up dir.dropLast
  /-- The dot leads nowhere else. -/
  | dot : Enters dir Path.here dir
  /-- Any other name leads into the directory. -/
  | into {x : Text} (hx : IsStep x) : Enters dir x (dir ++ [x])

section Entering

variable {dir place : Place} {x : Text}

theorem Enters.isStep (h : Enters dir x place) (hup : x ≠ Path.up) (hplace : place ≠ dir) :
    IsStep x := by
  cases h with
  | up => exact absurd rfl hup
  | dot => exact absurd rfl hplace
  | into hx => exact hx

theorem Enters.eq_concat (h : Enters dir x place) (hup : x ≠ Path.up) (hdot : x ≠ Path.here) :
    place = dir ++ [x] := by
  cases h with
  | up => exact absurd rfl hup
  | dot => exact absurd rfl hdot
  | into _ => rfl

end Entering

section Walking

variable {t : Tree} {follow : Bool} {links : Nat} {here place dir : Place} {names : List Text}
  {x : Text}

/-- The last step of a walk that follows no link there is made from a directory, to which every
    link on the way is followed. -/
theorem Walks.of_concat (h : Walks t false links here (names ++ [x]) place) :
    ∃ dir, Walks t true links here names dir ∧ t.find? dir = some .dir ∧ Enters dir x place := by
  -- The induction is on the walk; its first step is the last one only if no name comes before.
  generalize hall : names ++ [x] = all at h
  induction h generalizing names with
  | stay _ => exact absurd hall (List.append_ne_nil_of_right_ne_nil _ (List.cons_ne_nil x []))
  | @up links here rest place hdir h ih =>
      cases names with
      | nil =>
          rcases List.cons.inj hall with ⟨rfl, rfl⟩
          cases h
          exact ⟨here, .stay hdir, hdir, .up⟩
      | cons y names =>
          rcases List.cons.inj hall with ⟨rfl, hrest⟩
          rcases ih hrest with ⟨dir, hwalks, hfind⟩
          exact ⟨dir, .up hdir hwalks, hfind⟩
  | @dot links here rest place hdir h ih =>
      cases names with
      | nil =>
          rcases List.cons.inj hall with ⟨rfl, rfl⟩
          cases h
          exact ⟨here, .stay hdir, hdir, .dot⟩
      | cons y names =>
          rcases List.cons.inj hall with ⟨rfl, hrest⟩
          rcases ih hrest with ⟨dir, hwalks, hfind⟩
          exact ⟨dir, .dot hdir hwalks, hfind⟩
  | @free links here y hdir hstep hfree =>
      cases names with
      | nil =>
          rcases List.cons.inj hall with ⟨rfl, _⟩
          exact ⟨here, .stay hdir, hdir, .into hstep⟩
      | cons z names => exact absurd (List.cons.inj hall).2 (by simp)
  | @stop links here y target hdir hstep hlink hfollow =>
      cases names with
      | nil =>
          rcases List.cons.inj hall with ⟨rfl, _⟩
          exact ⟨here, .stay hdir, hdir, .into hstep⟩
      | cons z names => exact absurd (List.cons.inj hall).2 (by simp)
  | @along links here y target rest place hdir hstep hlink hmore h ih =>
      have hrest : rest ≠ [] := hmore.resolve_right Bool.false_ne_true
      cases names with
      | nil => exact absurd (List.cons.inj hall).2.symm hrest
      | cons z names =>
          rcases List.cons.inj hall with ⟨rfl, rfl⟩
          rcases ih (List.append_assoc _ _ _) with ⟨dir, hwalks, hfind⟩
          exact ⟨dir, .along hdir hstep hlink (Or.inr rfl) hwalks, hfind⟩
  | @into links here y e rest place hdir hstep he hnot h ih =>
      cases names with
      | nil =>
          rcases List.cons.inj hall with ⟨rfl, rfl⟩
          cases h
          exact ⟨here, .stay hdir, hdir, .into hstep⟩
      | cons z names =>
          rcases List.cons.inj hall with ⟨rfl, hrest⟩
          rcases ih hrest with ⟨dir, hwalks, hfind⟩
          exact ⟨dir, .into hdir hstep he hnot hwalks, hfind⟩

/-- A walk that has come to a directory goes one name further, unless that is a link which has to
    be followed. -/
theorem Walks.concat (h : Walks t true links here names dir) (hdir : t.find? dir = some .dir)
    (hx : IsStep x) (hend : follow = true → ∀ target, t.find? (dir ++ [x]) ≠ some (.link target)) :
    Walks t follow links here (names ++ [x]) (dir ++ [x]) := by
  induction h with
  | @stay links here e he =>
      -- The walk to the directory is over, and one more step is made.
      rcases hnext : t.find? (here ++ [x]) with _ | e'
      · exact .free hdir hx hnext
      · cases e' with
        | link target =>
            cases follow with
            | true => exact absurd hnext (hend rfl target)
            | false => exact .stop hdir hx hnext rfl
        | _ => exact .into hdir hx hnext (fun target => Entry.noConfusion) (.stay hnext)
  | up hhere _ ih => exact .up hhere (ih hdir hend)
  | dot hhere _ ih => exact .dot hhere (ih hdir hend)
  | free _ _ hfree =>
      rw [hfree] at hdir
      cases hdir
  | stop _ _ _ hfollow => exact absurd hfollow.symm Bool.false_ne_true
  | @along links here y target rest place hhere hy hlink _ _ ih =>
      -- More names follow now, so that the link is followed whether or not one at the end is.
      refine .along hhere hy hlink
        (Or.inl (List.append_ne_nil_of_right_ne_nil _ (List.cons_ne_nil x []))) ?_
      exact List.append_assoc (targetNames target) rest [x] ▸ ih hdir hend
  | into hhere hy he hnot _ ih => exact .into hhere hy he hnot (ih hdir hend)

/-- A walk that ends at a directory takes the same way in a tree with more directories and links. -/
theorem Walks.of_kept {t' : Tree}
    (hkept : ∀ q e, t'.find? q = some e → (∀ b, e ≠ .file b) → t.find? q = some e)
    (h : Walks t' follow links here names place) (hend : t'.find? place = some .dir) :
    Walks t follow links here names place := by
  have hdirs : ∀ {q : Place}, t'.find? q = some .dir → t.find? q = some .dir :=
    fun hq => hkept _ _ hq fun b => by simp only [ne_eq, reduceCtorEq, not_false_eq_true]
  induction h with
  | stay _ => exact .stay (hdirs hend)
  | up hdir _ ih => exact .up (hdirs hdir) (ih hend)
  | dot hdir _ ih => exact .dot (hdirs hdir) (ih hend)
  | free _ _ hfree =>
      rw [hfree] at hend
      cases hend
  | stop _ _ hlink _ =>
      rw [hlink] at hend
      cases hend
  | along hdir hx hlink hmore _ ih =>
      refine .along (hdirs hdir) hx (hkept _ _ hlink fun b => ?_) hmore (ih hend)
      simp only [ne_eq, reduceCtorEq, not_false_eq_true]
  | @into links here y e rest place hdir hx he hnot h ih =>
      cases e with
      | link target => exact absurd rfl (hnot target)
      | dir => exact .into (hdirs hdir) hx (hdirs he) hnot (ih hend)
      | file b =>
          -- A file is the end of a walk.
          rcases h.eq_nil_of_not_dir (by rw [he]; simp) with ⟨rfl, rfl⟩
          rw [he] at hend
          cases hend

end Walking

section Leading

variable {f : Files} {p : Path} {x : Text} {follow : Bool} {place dir : Place}

/-- The place that a path names is one step from where its directory is. -/
theorem LeadsTo.exists_directory (h : f.LeadsTo false (p.child x) place) :
    ∃ dir, f.LeadsTo true p dir ∧ f.tree.find? dir = some .dir ∧ Enters dir x place := by
  rcases leadsTo_iff.mp h with ⟨hclear, hlong, hwalks⟩
  rcases hwalks.of_concat with ⟨dir, hdir, hfind⟩
  have hparent : p.IsClear := by
    have hchild : (p.child x).IsClear := isClear_of_spot h
    rw [← Path.parent_child p x]
    exact hchild.parent
  refine ⟨dir, leadsTo_iff.mpr ⟨?_, Path.byteLength_lt_of_child hlong, hdir⟩, hfind⟩
  exact Bool.eq_false_iff.mpr fun hnull => hparent (List.contains_iff_mem.mp hnull)

/-- A path leads from a directory to what is there under a name, unless that is a link which has
    to be followed. -/
theorem LeadsTo.child (h : f.LeadsTo true p dir) (hdir : f.tree.find? dir = some .dir)
    (hx : IsStep x) (hclear : .char '\x00' ∉ x) (hlong : (p.child x).text.byteLength < maxPath)
    (hend : follow = true → ∀ target, f.tree.find? (dir ++ [x]) ≠ some (.link target)) :
    f.LeadsTo follow (p.child x) (dir ++ [x]) := by
  have hp : p.IsClear := isClear_of_spot h
  refine leadsTo_iff.mpr ⟨?_, hlong, (leadsTo_iff.mp h).2.2.concat hdir hx hend⟩
  exact Bool.eq_false_iff.mpr fun hnull => hp.child hclear (List.contains_iff_mem.mp hnull)

end Leading

end Files

end DialectBuild
