import DialectBuild.Proofs.Territory

/-!
# Trees as a File System Has Them

A tree is sound if no place is listed twice and every name on the way to an entry is one that a
directory can hold. Then the entries of a directory are known from what is at their places, and
the order in which they are listed is all that the list of entries adds to that.

Writing and moving keep a tree sound as long as they are given such names. The names that a
build writes to are made from the name of a source and an ending, and are such names for that
reason.

## Main definitions

* `IsName`: A name that a directory can hold.

## Theorems

* `Tree.mem_entries_iff`, `Tree.mem_names_iff`: What is listed is what is there.
* `Tree.IsSound.insert`, `Tree.IsSound.erase`: Changes that keep a tree sound.
* `Files.isSound_writeAtomic`: Writing a file of a unit keeps the tree sound.
-/

namespace DialectBuild

/-- A name that a directory can hold. -/
def IsName (x : Text) : Prop :=
  Path.isPart x = true ∧ x ≠ Path.up ∧ .char '/' ∉ x

instance (x : Text) : Decidable (IsName x) :=
  inferInstanceAs (Decidable (Path.isPart x = true ∧ x ≠ Path.up ∧ .char '/' ∉ x))

/-- A name with an ending that has more than dots is one that a directory can hold. -/
theorem isName_append {n e : Text} (hn : .char '/' ∉ n) (he : .char '/' ∉ e)
    (hdark : ∃ x ∈ e, x ≠ '.') : IsName (n ++ e) := by
  rcases plain_of_suffix hdark (List.suffix_append n e) with ⟨hup, hhere⟩
  refine ⟨?_, hup, ?_⟩
  · have hne : n ++ e ≠ [] := by
      rcases hdark with ⟨x, hx, _⟩
      exact List.append_ne_nil_of_right_ne_nil n (List.ne_nil_of_mem hx)
    rw [Path.isPart, Bool.and_eq_true, Bool.not_eq_true', List.isEmpty_eq_false_iff, bne_iff_ne]
    exact ⟨hne, hhere⟩
  · rw [List.mem_append, not_or]
    exact ⟨hn, he⟩

namespace Tree

variable {t : Tree} {place q : Place} {x : Text}

/-- An entry is at a place exactly if the place is listed, the root apart. -/
theorem mem_entries_iff (hq : q ≠ []) : q ∈ t.entries.map (·.1) ↔ ∃ e, t.find? q = some e := by
  rw [find?, if_neg hq, ← Option.isSome_iff_exists, List.lookup_isSome_iff, List.mem_map]
  refine exists_congr fun a => and_congr_right fun _ => ?_
  rw [beq_iff_eq, eq_comm]

theorem mem_names_iff : x ∈ t.names place ↔ ∃ e, t.find? (place ++ [x]) = some e := by
  rw [← mem_entries_iff (List.append_ne_nil_of_right_ne_nil place (List.cons_ne_nil x [])), names,
    List.mem_filterMap, List.mem_map]
  refine exists_congr fun a => and_congr_right fun _ => ?_
  by_cases hdir : a.1.dropLast = place
  · rw [if_pos hdir, List.getLast?_eq_some_iff]
    constructor
    · rintro ⟨b, hb⟩
      rw [hb, List.dropLast_concat] at hdir
      rw [hb, hdir]
    · exact fun ha => ⟨place, ha⟩
  · rw [if_neg hdir]
    refine ⟨fun h => (by cases h), fun h => absurd ?_ hdir⟩
    rw [h, List.dropLast_concat]

namespace IsSound

/-- A directory lists no name twice. -/
theorem nodup_names (h : t.IsSound) (place : Place) : (t.names place).Nodup := by
  have hkeys : t.names place = (t.entries.map (·.1)).filterMap fun q =>
      if q.dropLast = place then q.getLast? else none := by
    rw [names, List.filterMap_map]
    rfl
  -- A name in a directory tells the place.
  have hplace : ∀ q : Place, ∀ b ∈ (if q.dropLast = place then q.getLast? else none),
      q = place ++ [b] := by
    intro q b hb
    by_cases hdir : q.dropLast = place
    · rw [if_pos hdir] at hb
      rcases List.getLast?_eq_some_iff.mp hb with ⟨c, rfl⟩
      rw [List.dropLast_concat] at hdir
      rw [hdir]
    · rw [if_neg hdir] at hb
      cases hb
  rw [hkeys]
  exact h.nodup.filterMap fun q q' b hb hb' => (hplace q b hb).trans (hplace q' b hb').symm

theorem named_of_find? (h : t.IsSound) {e : Entry} (he : t.find? q = some e) :
    ∀ x ∈ q, IsName x := by
  by_cases hq : q = []
  · rw [hq]
    exact fun x hx => absurd hx List.not_mem_nil
  · exact h.named q ((mem_entries_iff hq).mpr ⟨e, he⟩)

/-- The names that a directory lists are followed as they are. -/
theorem plain_of_mem_names (h : t.IsSound) (hx : x ∈ t.names place) :
    x ≠ Path.up ∧ x ≠ Path.here := by
  rcases mem_names_iff.mp hx with ⟨e, he⟩
  rcases h.named_of_find? he x (List.mem_append_right place (List.mem_singleton_self x)) with
    ⟨hpart, hup, _⟩
  exact ⟨hup, fun hdot => absurd (hdot ▸ hpart) (by decide)⟩

/-- An entry may be put where the names are such names. -/
theorem insert (h : t.IsSound) (hplace : ∀ x ∈ place, IsName x) (e : Entry) :
    (t.insert place e).IsSound := by
  have hkeys : (t.insert place e).entries.map (·.1) =
      place :: (t.entries.map (·.1)).filter (· != place) := by
    rw [Tree.insert, List.map_cons, List.filter_map]
    rfl
  constructor
  · rw [hkeys, List.nodup_cons, List.mem_filter, bne_self_eq_false]
    exact ⟨fun hmem => Bool.false_ne_true hmem.2, h.nodup.filter _⟩
  · rw [hkeys, List.forall_mem_cons]
    exact ⟨hplace, fun q hq => h.named q (List.mem_filter.mp hq).1⟩

theorem erase (h : t.IsSound) (place : Place) : (t.erase place).IsSound := by
  have hkeys : (t.erase place).entries.map (·.1) =
      (t.entries.map (·.1)).filter (· != place) := by
    rw [Tree.erase, List.filter_map]
    rfl
  constructor
  · rw [hkeys]
    exact h.nodup.filter _
  · rw [hkeys]
    exact fun q hq => h.named q (List.mem_filter.mp hq).1

end IsSound

end Tree

namespace Files

variable {f g : Files} {p q source : Path}

theorem isSound_write (hl : f.IsLinkless) (hsound : f.tree.IsSound)
    (hplace : ∀ x ∈ f.placeOf p, IsName x) {b : Bytes} (h : f.write p b = .ok g) :
    g.tree.IsSound := by
  rcases write_eq_withEntry hl h with ⟨_, _, rfl⟩
  exact hsound.insert hplace _

theorem isSound_rename (hl : f.IsLinkless) (hsound : f.tree.IsSound)
    (hplace : ∀ x ∈ f.placeOf q, IsName x) {b : Bytes}
    (hfile : f.tree.find? (f.placeOf p) = some (.file b)) (h : f.rename p q = .ok g) :
    g.tree.IsSound := by
  rcases rename_eq_ok hl hfile h with ⟨_, _, _, _, rfl⟩
  exact (hsound.erase _).insert hplace _

/-- The places of a unit have names that a directory can hold if that of its source has. -/
theorem isName_written (hs : source.IsSource) (hnamed : ∀ x ∈ f.placeOf source, IsName x) {e : Text}
    (he : e ∈ writtenEndings) :
    ∀ x ∈ f.placeOf (source.parent.child (source.name ++ e)), IsName x := by
  have hends : ∀ e ∈ writtenEndings, .char '/' ∉ e ∧ ∃ x ∈ e, x ≠ '.' := by decide
  rw [placeOf_source hs, List.forall_mem_append] at hnamed
  rw [placeOf_written he, List.forall_mem_append, List.forall_mem_singleton]
  exact ⟨hnamed.1, isName_append hs.noSlash (hends e he).1 (hends e he).2⟩

/-- Writing a file of a unit keeps the tree sound. -/
theorem isSound_writeAtomic (hl : f.IsLinkless) (hsound : f.tree.IsSound) (hs : source.IsSource)
    (hnamed : ∀ x ∈ f.placeOf source, IsName x) {e t : Text} {u : Unit}
    (he : e ∈ writtenEndings) (he' : e ++ ".tmp" ∈ writtenEndings)
    (h : writeAtomic (source.parent.child (source.name ++ e)) t f = .ok u g) :
    g.tree.IsSound := by
  rcases writeAtomic_eq_ok_iff.mp h with ⟨temporary, f₁, htemporary, hwrite, hrename⟩
  rw [temporaryFor_written htemporary] at hwrite
  rcases write_eq_ok hl hwrite with ⟨hput, hwritten⟩
  rw [temporaryFor_written htemporary] at hrename
  rw [← hput.placeOf_eq] at hwritten
  refine isSound_rename (hput.isLinkless hl)
    (isSound_write hl hsound (isName_written hs hnamed he') hwrite) ?_ hwritten hrename
  rw [hput.placeOf_eq]
  exact isName_written hs hnamed he

end Files

end DialectBuild
