import DialectBuild.Text.Encoding

/-!
# Trees of Files

What is on disk: files with their bytes, directories, and symbolic links, each at its place
below the root. A place is the list of names that lead to it, without any link on the way.

`Tree.find?` is the view through which everything is said about a tree. Writing and erasing
change it at one place and nowhere else, which is what `find?_insert_of_ne` and
`find?_erase_of_ne` state.

A tree also says what may not be done. A directory may be locked, so that its names stay as they
are, and it may keep its names from being listed. These are all the rights there are: every file
may be read and written, and every directory may be walked through. There are no other kinds of
entries, and a file has one name only, so that writing to it changes no other place. The disk is
never full.

## Main definitions

* `Entry`: A file, a directory or a link.
* `Place`: The names that lead from the root to an entry.
* `Rights`: What may not be done in directories.
* `Tree`: Entries by place. The root is always a directory.
* `Tree.find?`: The entry at a place.
* `Tree.insert`, `Tree.erase`: Changing one place.
* `Tree.isLocked`, `Tree.isUnlisted`: Whether a change or a listing is denied.
* `Tree.names`: The names in a directory.
* `Tree.below`: The places under a place.
* `Tree.moveAll`: Moving a directory with all that is in it.
* `Tree.changes`, `Tree.removals`: What differs between two trees.

## Theorems

* `Tree.find?_insert_self`, `Tree.find?_insert_of_ne`: The view after writing.
* `Tree.find?_erase_self`, `Tree.find?_erase_of_ne`: The view after erasing.
-/

namespace DialectBuild

/-- What can be found at a place. -/
inductive Entry where
  /-- A regular file. -/
  | file (content : Bytes)
  /-- A directory. -/
  | dir
  /-- A symbolic link. -/
  | link (target : Text)
  deriving DecidableEq, Inhabited, Repr

/-- The names that lead from the root to an entry. -/
abbrev Place := List Text

/-- What may not be done in directories. -/
structure Rights where
  /-- The directories in which no name may be made, taken away or given to something else. -/
  locked : List Place := []
  /-- The directories whose names may not be listed. -/
  unlisted : List Place := []
  deriving DecidableEq, Inhabited, Repr

/-- The rights with each directory at another place, or without it. -/
def Rights.relocate (r : Rights) (move : Place → Option Place) : Rights where
  locked := r.locked.filterMap move
  unlisted := r.unlisted.filterMap move

/-- Entries by place. -/
structure Tree where
  /-- The entries, each place at most once. -/
  entries : List (Place × Entry)
  /-- What may not be done. -/
  rights : Rights := {}
  deriving DecidableEq, Inhabited, Repr

namespace Tree

/-- A tree with nothing but the root. -/
def empty : Tree :=
  { entries := [] }

/-- The entry at a place. -/
def find? (t : Tree) (p : Place) : Option Entry :=
  -- The root is always there and is not looked up among the entries.
  if p = [] then some .dir else t.entries.lookup p

/-- The tree with an entry at a place. -/
def insert (t : Tree) (p : Place) (e : Entry) : Tree :=
  { t with entries := (p, e) :: t.entries.filter (·.1 != p) }

/-- The tree without the entry at a place. -/
def erase (t : Tree) (p : Place) : Tree :=
  { t with entries := t.entries.filter (·.1 != p) }

/-- Whether the directory at a place is locked. -/
def locksIn (t : Tree) (p : Place) : Bool :=
  t.rights.locked.contains p

/-- Whether the name at a place has to stay as it is, since the directory around it is locked. -/
def isLocked (t : Tree) (p : Place) : Bool :=
  t.locksIn p.dropLast

/-- Whether the names in the directory at a place may not be listed. -/
def isUnlisted (t : Tree) (p : Place) : Bool :=
  t.rights.unlisted.contains p

theorem lookup_filter_of_ne {l : List (Place × Entry)} {p q : Place} (h : q ≠ p) :
    (l.filter (·.1 != p)).lookup q = l.lookup q := by
  induction l with
  | nil => rfl
  | cons a l ih =>
      rw [List.filter_cons]
      by_cases ha : a.1 = p
      · have hq : (q == a.1) = false := by rw [ha]; exact beq_false_of_ne h
        rw [if_neg (by rw [ha, bne_self_eq_false]; exact Bool.false_ne_true), ih,
          List.lookup_cons, hq]
      · rw [if_pos (by exact bne_iff_ne.mpr ha), List.lookup_cons, List.lookup_cons, ih]

theorem lookup_filter_self (l : List (Place × Entry)) (p : Place) :
    (l.filter (·.1 != p)).lookup p = none := by
  induction l with
  | nil => rfl
  | cons a l ih =>
      rw [List.filter_cons]
      by_cases ha : a.1 = p
      · rw [if_neg (by rw [ha, bne_self_eq_false]; exact Bool.false_ne_true), ih]
      · have hq : (p == a.1) = false := beq_false_of_ne (Ne.symm ha)
        rw [if_pos (by exact bne_iff_ne.mpr ha), List.lookup_cons, hq, ih]

theorem find?_insert_self (t : Tree) {p : Place} (e : Entry) (h : p ≠ []) :
    (t.insert p e).find? p = some e := by
  rw [find?, if_neg h, insert, List.lookup_cons, BEq.rfl]

theorem find?_insert_of_ne (t : Tree) {p q : Place} (e : Entry) (h : q ≠ p) :
    (t.insert p e).find? q = t.find? q := by
  rw [find?, find?, insert]
  simp only [List.lookup_cons, beq_false_of_ne h, lookup_filter_of_ne h]

theorem find?_erase_self (t : Tree) {p : Place} (h : p ≠ []) : (t.erase p).find? p = none := by
  rw [find?, if_neg h, erase, lookup_filter_self]

theorem find?_erase_of_ne (t : Tree) {p q : Place} (h : q ≠ p) :
    (t.erase p).find? q = t.find? q := by
  rw [find?, find?, erase, lookup_filter_of_ne h]

/-- The names in the directory at a place. -/
def names (t : Tree) (p : Place) : List Text :=
  t.entries.filterMap fun a => if a.1.dropLast = p then a.1.getLast? else none

/-- The places strictly under a place. -/
def below (t : Tree) (p : Place) : List Place :=
  (t.entries.map (·.1)).filter fun q => p.isPrefixOf q && q != p

/-- The tree without the entry at a place and without everything under it. -/
def eraseAll (t : Tree) (p : Place) : Tree where
  entries := t.entries.filter fun a => !p.isPrefixOf a.1
  rights := t.rights.relocate fun q => if p.isPrefixOf q then none else some q

/-- Where something at `q` is after what is at `a` was moved to `b`, with all that is under it.
    What was at `b` is gone. -/
def movedFrom? (a b q : Place) : Option Place :=
  if a.isPrefixOf q then some (b ++ q.drop a.length) else if q = b then none else some q

/-- The tree with what is at `a`, and all that is under it, at `b`. -/
def moveAll (t : Tree) (a b : Place) : Tree where
  entries := t.entries.filterMap fun e => (movedFrom? a b e.1).map fun q => (q, e.2)
  rights := t.rights.relocate (movedFrom? a b)

/-- The number of links. -/
def linkCount (t : Tree) : Nat :=
  t.entries.countP fun a => match a.2 with
    | .link _ => true
    | _ => false

/-- The places under `p` whose entry in `t` is new or differs from the one in `old`, with
    their entries. -/
def changes (old t : Tree) (p : Place) : List (Place × Entry) :=
  t.entries.filter fun a =>
    p.isPrefixOf a.1 && a.1 != p && old.find? a.1 != some a.2

/-- The places under `p` that have an entry in `old` and none in `t`. -/
def removals (old t : Tree) (p : Place) : List Place :=
  (old.below p).filter fun q => (t.find? q).isNone

end Tree

end DialectBuild
