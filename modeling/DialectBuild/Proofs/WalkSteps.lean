import DialectBuild.Files.Resolve
import DialectBuild.Proofs.Outcome

/-!
# Walks Step by Step

How a walk gets from a place to another one. `Walks` says it step by step and without the ways in
which a walk can fail, and `walk_eq_ok_iff` says that a walk succeeds exactly if it proceeds so.
Whatever is to be known of walks that succeed is an induction over these steps, so that a walk is
opened here and hardly anywhere else.

The equations before that say what one step does, each for one kind of name. They hold of walks
that fail as well.

## Main definitions

* `Tree.spotAt`: What a walk finds that ends at a place.
* `Files.IsStep`: A name that leads to an entry of a directory.
* `Files.Walks`: How a walk proceeds.

## Theorems

* `Files.walk_up`, `Files.walk_dot`, `Files.walk_into`, `Files.walk_free`: Single steps.
* `Files.walk_eq_ok_iff`: Walks that succeed.
* `Files.spot_eq_ok_iff`: Paths that can be followed.
* `Files.Walks.following`, `Files.Walks.not_following`: A link at the end.
-/

namespace DialectBuild

/-- What a walk finds that ends at a place. -/
def Tree.spotAt (t : Tree) (place : Place) : Spot :=
  match t.find? place with
  | some e => .present place e
  | none => .absent place

namespace Tree

variable {t : Tree} {place place' : Place} {e : Entry}

theorem spotAt_of_some (h : t.find? place = some e) : t.spotAt place = .present place e := by
  rw [spotAt, h]

theorem spotAt_of_none (h : t.find? place = none) : t.spotAt place = .absent place := by
  rw [spotAt, h]

theorem spotAt_eq_present_iff :
    t.spotAt place = .present place' e ↔ place = place' ∧ t.find? place = some e := by
  rw [spotAt]
  rcases t.find? place with _ | e'
  · simp only [reduceCtorEq, and_false]
  · rw [Spot.present.injEq, Option.some.injEq]

theorem spotAt_eq_absent_iff :
    t.spotAt place = .absent place' ↔ place = place' ∧ t.find? place = none := by
  rw [spotAt]
  rcases t.find? place with _ | e'
  · rw [Spot.absent.injEq, and_iff_left rfl]
  · simp only [reduceCtorEq, and_false]

theorem place_spotAt (t : Tree) (place : Place) : (t.spotAt place).place = place := by
  rcases hfind : t.find? place with _ | e
  · rw [spotAt_of_none hfind]
    rfl
  · rw [spotAt_of_some hfind]
    rfl

/-- Trees with the same rights deny the same changes. -/
theorem isLocked_congr {t' : Tree} (h : t'.rights = t.rights) (p : Place) :
    t'.isLocked p = t.isLocked p := by
  rw [isLocked, isLocked, locksIn, locksIn, h]

theorem isUnlisted_congr {t' : Tree} (h : t'.rights = t.rights) (p : Place) :
    t'.isUnlisted p = t.isUnlisted p := by
  rw [isUnlisted, isUnlisted, h]

end Tree

namespace Files

/-- A name that leads to an entry of a directory. -/
def IsStep (x : Text) : Prop :=
  x ≠ Path.up ∧ x ≠ Path.here ∧ x.byteLength ≤ maxName

/-- The walk along names from a place ends at another place, with a number of links that may still
    be followed. -/
inductive Walks (t : Tree) (follow : Bool) : Nat → Place → List Text → Place → Prop where
  /-- There are no names left. -/
  | stay {links : Nat} {here : Place} {e : Entry} (h : t.find? here = some e) :
      Walks t follow links here [] here
  /-- The parent part leads to the directory above. -/
  | up {links : Nat} {here : Place} {rest : List Text} {place : Place}
      (hdir : t.find? here = some .dir) (h : Walks t follow links here.dropLast rest place) :
      Walks t follow links here (Path.up :: rest) place
  /-- The dot leads nowhere else. -/
  | dot {links : Nat} {here : Place} {rest : List Text} {place : Place}
      (hdir : t.find? here = some .dir) (h : Walks t follow links here rest place) :
      Walks t follow links here (Path.here :: rest) place
  /-- The last name is free. -/
  | free {links : Nat} {here : Place} {x : Text} (hdir : t.find? here = some .dir)
      (hx : IsStep x) (hfree : t.find? (here ++ [x]) = none) :
      Walks t follow links here [x] (here ++ [x])
  /-- The last name is that of a link, which is not followed. -/
  | stop {links : Nat} {here : Place} {x target : Text} (hdir : t.find? here = some .dir)
      (hx : IsStep x) (hlink : t.find? (here ++ [x]) = some (.link target))
      (hfollow : follow = false) : Walks t follow links here [x] (here ++ [x])
  /-- A link is followed. -/
  | along {links : Nat} {here : Place} {x target : Text} {rest : List Text} {place : Place}
      (hdir : t.find? here = some .dir) (hx : IsStep x)
      (hlink : t.find? (here ++ [x]) = some (.link target)) (hmore : rest ≠ [] ∨ follow = true)
      (h : Walks t follow links (targetStart here target) (targetNames target ++ rest) place) :
      Walks t follow (links + 1) here (x :: rest) place
  /-- A name leads to a directory or a file. -/
  | into {links : Nat} {here : Place} {x : Text} {e : Entry} {rest : List Text} {place : Place}
      (hdir : t.find? here = some .dir) (hx : IsStep x) (he : t.find? (here ++ [x]) = some e)
      (hnot : ∀ target, e ≠ .link target) (h : Walks t follow links (here ++ [x]) rest place) :
      Walks t follow links here (x :: rest) place

section Steps

variable {t : Tree} {follow : Bool} {links : Nat} {here : Place} {x : Text} {rest : List Text}

/-- There is nothing below what is no directory. -/
theorem walk_of_not_dir (hdir : t.find? here ≠ some .dir) :
    walk t follow links here (x :: rest) = .error .notDirectory := by
  rw [walk, if_pos hdir]

/-- The parent part leads to the directory above. -/
theorem walk_up (hdir : t.find? here = some .dir) :
    walk t follow links here (Path.up :: rest) = walk t follow links here.dropLast rest := by
  rw [walk, if_neg (Classical.not_not.mpr hdir), if_pos rfl]

/-- The dot leads nowhere else. -/
theorem walk_dot (hdir : t.find? here = some .dir) :
    walk t follow links here (Path.here :: rest) = walk t follow links here rest := by
  rw [walk, if_neg (Classical.not_not.mpr hdir), if_neg (by decide), if_pos rfl]

/-- A name that is too long is refused. -/
theorem walk_long (hdir : t.find? here = some .dir) (hx : x ≠ Path.up ∧ x ≠ Path.here)
    (hlong : maxName < x.byteLength) :
    walk t follow links here (x :: rest) = .error .nameTooLong := by
  rw [walk, if_neg (Classical.not_not.mpr hdir), if_neg hx.1, if_neg hx.2, if_pos hlong]

/-- The last name may be free. -/
theorem walk_free (hdir : t.find? here = some .dir) (hx : IsStep x)
    (hfree : t.find? (here ++ [x]) = none) :
    walk t follow links here [x] = .ok (.absent (here ++ [x])) := by
  rw [walk, if_neg (Classical.not_not.mpr hdir), if_neg hx.1, if_neg hx.2.1,
    if_neg (Nat.not_lt.mpr hx.2.2), hfree]
  exact if_pos rfl

/-- The others may not. -/
theorem walk_missing (hdir : t.find? here = some .dir) (hx : IsStep x)
    (hfree : t.find? (here ++ [x]) = none) (hmore : rest ≠ []) :
    walk t follow links here (x :: rest) = .error .noEntry := by
  rw [walk, if_neg (Classical.not_not.mpr hdir), if_neg hx.1, if_neg hx.2.1,
    if_neg (Nat.not_lt.mpr hx.2.2), hfree]
  exact if_neg hmore

/-- The name of anything but a link leads to it. -/
theorem walk_into {e : Entry} (hdir : t.find? here = some .dir) (hx : IsStep x)
    (he : t.find? (here ++ [x]) = some e) (hnot : ∀ target, e ≠ .link target) :
    walk t follow links here (x :: rest) = walk t follow links (here ++ [x]) rest := by
  rw [walk, if_neg (Classical.not_not.mpr hdir), if_neg hx.1, if_neg hx.2.1,
    if_neg (Nat.not_lt.mpr hx.2.2), he]
  cases e with
  | link target => exact absurd rfl (hnot target)
  | _ => rfl

/-- The last name leads to whatever is there, unless it is a link. -/
theorem walk_last (hdir : t.find? here = some .dir) (hx : IsStep x)
    (hnot : ∀ target, t.find? (here ++ [x]) ≠ some (.link target)) :
    walk t follow links here [x] = .ok (t.spotAt (here ++ [x])) := by
  rcases hnext : t.find? (here ++ [x]) with _ | e
  · rw [walk_free hdir hx hnext, Tree.spotAt_of_none hnext]
  · rw [hnext] at hnot
    rw [walk_into hdir hx hnext fun target h => hnot target (congrArg some h), walk, hnext,
      Tree.spotAt_of_some hnext]

end Steps

section Walking

variable {t : Tree} {follow : Bool} {links : Nat} {here place : Place} {names : List Text}

/-- A walk that proceeds from step to step succeeds. -/
theorem Walks.walk_eq (h : Walks t follow links here names place) :
    walk t follow links here names = .ok (t.spotAt place) := by
  induction h with
  | stay h => rw [walk, h, Tree.spotAt_of_some h]
  | up hdir _ ih => rw [walk_up hdir, ih]
  | dot hdir _ ih => rw [walk_dot hdir, ih]
  | free hdir hx hfree => rw [walk_free hdir hx hfree, Tree.spotAt_of_none hfree]
  | stop hdir hx hlink hfollow =>
      rw [walk, if_neg (Classical.not_not.mpr hdir), if_neg hx.1, if_neg hx.2.1,
        if_neg (Nat.not_lt.mpr hx.2.2), hlink, Tree.spotAt_of_some hlink, hfollow]
      exact if_pos ⟨rfl, rfl⟩
  | along hdir hx hlink hmore _ ih =>
      rw [walk, if_neg (Classical.not_not.mpr hdir), if_neg hx.1, if_neg hx.2.1,
        if_neg (Nat.not_lt.mpr hx.2.2), hlink, ← ih]
      -- The link is followed: names are left, or the walk follows its last link.
      refine if_neg fun h => ?_
      rcases hmore with hmore | hfollow
      · exact hmore h.1
      · rw [hfollow] at h
        exact Bool.false_ne_true h.2
  | into hdir hx he hnot _ ih => rw [walk_into hdir hx he hnot, ih]

/-- A walk succeeds exactly if it proceeds from step to step. -/
theorem walk_eq_ok_iff {s : Spot} : walk t follow links here names = .ok s ↔
    ∃ place, Walks t follow links here names place ∧ s = t.spotAt place := by
  constructor
  · -- The induction is on the walk, each of whose branches is a kind of step or a failure.
    intro h
    fun_induction walk t follow links here names with
    | case1 links here e he =>
        exact ⟨here, .stay he, by rw [Tree.spotAt_of_some he]; exact (Except.ok.inj h).symm⟩
    | case2 links here he => cases h
    | case3 links here x rest hdir => cases h
    | case4 links here rest hdir ih =>
        rcases ih h with ⟨place, hwalks, hs⟩
        exact ⟨place, .up (Classical.not_not.mp hdir) hwalks, hs⟩
    | case5 links here rest hdir hup ih =>
        rcases ih h with ⟨place, hwalks, hs⟩
        exact ⟨place, .dot (Classical.not_not.mp hdir) hwalks, hs⟩
    | case6 links here x rest hdir hup hdot hlong => cases h
    | case7 links here x hdir hup hdot hlong hfree =>
        refine ⟨here ++ [x], .free (Classical.not_not.mp hdir) ⟨hup, hdot, Nat.le_of_not_lt hlong⟩
          hfree, ?_⟩
        rw [Tree.spotAt_of_none hfree]
        exact (Except.ok.inj h).symm
    | case8 links here x rest hdir hup hdot hlong hfree hmore => cases h
    | case9 links here x rest hdir hup hdot hlong target hlink hend =>
        rcases hend with ⟨rfl, hfollow⟩
        refine ⟨here ++ [x], .stop (Classical.not_not.mp hdir) ⟨hup, hdot, Nat.le_of_not_lt hlong⟩
          hlink (Bool.not_eq_true' follow ▸ hfollow), ?_⟩
        rw [Tree.spotAt_of_some hlink]
        exact (Except.ok.inj h).symm
    | case10 here x rest hdir hup hdot hlong target hlink hend => cases h
    | case11 here x rest hdir hup hdot hlong target hlink hend links ih =>
        rcases ih h with ⟨place, hwalks, hs⟩
        refine ⟨place, .along (Classical.not_not.mp hdir) ⟨hup, hdot, Nat.le_of_not_lt hlong⟩ hlink
          ?_ hwalks, hs⟩
        by_cases hrest : rest = []
        · simpa [hrest] using hend
        · exact Or.inl hrest
    | case12 links here x rest hdir hup hdot hlong e hnot he ih =>
        rcases ih h with ⟨place, hwalks, hs⟩
        exact ⟨place, .into (Classical.not_not.mp hdir) ⟨hup, hdot, Nat.le_of_not_lt hlong⟩ he
          hnot hwalks, hs⟩
  · rintro ⟨place, hwalks, rfl⟩
    exact hwalks.walk_eq

/-- A path leads somewhere exactly if it is one that can be looked up and the walk gets there. -/
theorem spot_eq_ok_iff {f : Files} {p : Path} {s : Spot} : f.spot follow p = .ok s ↔
    p.text.contains (.char '\x00') = false ∧ p.text.byteLength < maxPath ∧
      walk f.tree follow maxLinks (f.start p) p.parts = .ok s := by
  unfold spot
  by_cases hnull : p.text.contains (.char '\x00') = true
  · rw [if_pos hnull, hnull]
    exact iff_of_false (fun h => (by cases h)) fun h => (by cases h.1)
  rw [if_neg hnull]
  by_cases hlong : maxPath ≤ p.text.byteLength
  · rw [if_pos hlong]
    exact iff_of_false (fun h => (by cases h)) fun h => absurd h.2.1 (Nat.not_lt.mpr hlong)
  rw [if_neg hlong, Outcome.mapError_eq_ok_iff]
  exact ⟨fun h => ⟨Bool.eq_false_iff.mpr hnull, Nat.lt_of_not_le hlong, h⟩, fun h => h.2.2⟩

/-- From anything but a directory a walk goes nowhere. -/
theorem Walks.eq_nil_of_not_dir (h : Walks t follow links here names place)
    (hdir : t.find? here ≠ some .dir) : names = [] ∧ place = here := by
  cases h with
  | stay _ => exact ⟨rfl, rfl⟩
  | up h _ => exact absurd h hdir
  | dot h _ => exact absurd h hdir
  | free h _ _ => exact absurd h hdir
  | stop h _ _ _ => exact absurd h hdir
  | along h _ _ _ _ => exact absurd h hdir
  | into h _ _ _ _ => exact absurd h hdir

/-- If there is no link at the end of a walk, it makes no difference whether one is followed. -/
theorem Walks.following (h : Walks t false links here names place)
    (hend : ∀ target, t.find? place ≠ some (.link target)) :
    Walks t true links here names place := by
  induction h with
  | stay he => exact .stay he
  | up hdir _ ih => exact .up hdir (ih hend)
  | dot hdir _ ih => exact .dot hdir (ih hend)
  | free hdir hx hfree => exact .free hdir hx hfree
  | @stop links here x target hdir hx hlink hfollow => exact absurd hlink (hend target)
  | along hdir hx hlink _ _ ih => exact .along hdir hx hlink (Or.inr rfl) (ih hend)
  | into hdir hx he hnot _ ih => exact .into hdir hx he hnot (ih hend)

/-- A walk that follows links gets to the same place without following the last one, or to a
    link. -/
theorem Walks.not_following (h : Walks t true links here names place) :
    Walks t false links here names place ∨
      ∃ q target, Walks t false links here names q ∧ t.find? q = some (.link target) := by
  induction h with
  | stay he => exact Or.inl (.stay he)
  | up hdir _ ih =>
      rcases ih with h | ⟨q, target, h, hq⟩
      · exact Or.inl (.up hdir h)
      · exact Or.inr ⟨q, target, .up hdir h, hq⟩
  | dot hdir _ ih =>
      rcases ih with h | ⟨q, target, h, hq⟩
      · exact Or.inl (.dot hdir h)
      · exact Or.inr ⟨q, target, .dot hdir h, hq⟩
  | free hdir hx hfree => exact Or.inl (.free hdir hx hfree)
  | stop hdir hx hlink hfollow => exact absurd hfollow.symm Bool.false_ne_true
  | @along links here x target rest place hdir hx hlink _ _ ih =>
      -- Only the last link is one that makes a difference.
      by_cases hrest : rest = []
      · rw [hrest]
        exact Or.inr ⟨here ++ [x], target, .stop hdir hx hlink rfl, hlink⟩
      · rcases ih with h | ⟨q, target', h, hq⟩
        · exact Or.inl (.along hdir hx hlink (Or.inl hrest) h)
        · exact Or.inr ⟨q, target', .along hdir hx hlink (Or.inl hrest) h, hq⟩
  | into hdir hx he hnot _ ih =>
      rcases ih with h | ⟨q, target, h, hq⟩
      · exact Or.inl (.into hdir hx he hnot h)
      · exact Or.inr ⟨q, target, .into hdir hx he hnot h, hq⟩

end Walking

end Files

end DialectBuild
