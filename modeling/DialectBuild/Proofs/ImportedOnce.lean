import DialectBuild.Proofs.AlikeWalks
import DialectBuild.Proofs.Refusals
import DialectBuild.Proofs.SettledText

/-!
# Modules Are Imported Once

What expansion makes of a whole text. The lines are treated one after the other, and what is
handed on is the list of directories that have been named. Two ways to spell a directory are told
to be the same by its canonical place, which is what the list holds.

The canonical place is found without looking whether there is anything on the way, while a
directory is searched for headers by the path as written. Of the path `x/../lib` the place is that
of `lib`, whether or not there is a directory `x`, but without one the path leads nowhere. So a
marker may count as the first one for a directory that it finds nothing in, and the next one for
the same directory is then taken for a repetition. `Expansion.ImportsOnce` says that this is the
only way in which a directory is not imported at the first marker for it.

## Main definitions

* `Marker.naming?`: The marker that a line is, if it names a module.
* `Files.named?`: The canonical place of the directory that a line names.
* `Tree.ListsHeaders`: The names of the generated headers in a directory.
* `ExpandedLine.Includes`, `ExpandedLine.Contributes`: Headers stand in place of a marker.
* `Expansion.ImportsOnce`: What the lines of a text became.

## Theorems

* `Files.spot_child`: What a path leads to that goes one name further.
* `Files.listsHeaders_of_headersIn`: All headers in a directory are found, in order.
* `ExpandedLine.Becomes.of_naming_eq_none`, `ExpandedLine.Becomes.of_naming`: What becomes of a
  line that names no directory, and of one that does.
* `ExpandedLine.Becomes.mem_known_iff`: What a line adds to the directories that were named.
* `Expansion.becomes_of_getElem?`: What each line becomes, by the lines before it.
* `Expansion.importsOnce`: Modules are imported once.
* `Expansion.text_past_missing`: A directory that is not imported at all.
-/

namespace DialectBuild

/-- No name in the tree has a NUL in it. -/
def Tree.IsClear (t : Tree) : Prop :=
  ∀ place ∈ t.entries.map (·.1), ∀ x ∈ place, .char '\x00' ∉ x

instance (t : Tree) : Decidable t.IsClear :=
  inferInstanceAs (Decidable (∀ place ∈ t.entries.map (·.1), ∀ x ∈ place, .char '\x00' ∉ x))

/-- The names of the generated headers that are regular files directly in the directory at a
    place, in order and each once. -/
structure Tree.ListsHeaders (t : Tree) (place : Place) (names : List Text) : Prop where
  /-- Each name comes before the next one. -/
  increasing : names.Pairwise fun x y => Text.le x y = true ∧ x ≠ y
  /-- They are the names of headers. -/
  mem_iff : ∀ x, x ∈ names ↔
    x.endsWith headerEnding = true ∧ ∃ b, t.find? (place ++ [x]) = some (.file b)

theorem Tree.IsClear.of_find? {t : Tree} (h : t.IsClear) {place : Place} {x : Text} {e : Entry}
    (he : t.find? (place ++ [x]) = some e) : .char '\x00' ∉ x := by
  have hne : place ++ [x] ≠ [] := List.append_ne_nil_of_right_ne_nil _ (List.cons_ne_nil x [])
  exact h _ ((mem_entries_iff hne).mpr ⟨e, he⟩) x
    (List.mem_append_right _ (List.mem_singleton_self x))

namespace Files

section Walking

variable {t : Tree} {follow : Bool} {links : Nat} {here place : Place} {names : List Text}

/-- A walk that has come to a directory goes on from there. -/
theorem Walks.walk_concat (hlink : ∀ place target, t.find? place ≠ some (.link target))
    (h : Walks t follow links here names place) (hdir : t.find? place = some .dir) (x : Text) :
    walk t follow links here (names ++ [x]) = walk t follow links place [x] := by
  induction h with
  | stay _ => rw [List.nil_append]
  | up hhere _ ih => rw [List.cons_append, walk_up hhere, ih hdir]
  | dot hhere _ ih => rw [List.cons_append, walk_dot hhere, ih hdir]
  | free _ _ hfree =>
      rw [hfree] at hdir
      cases hdir
  | stop _ _ h _ => exact absurd h (hlink _ _)
  | along _ _ h _ _ _ => exact absurd h (hlink _ _)
  | into hhere hx he hnot _ ih => rw [List.cons_append, walk_into hhere hx he hnot, ih hdir]

end Walking

variable {f : Files} {dir : Path} {x : Text}

theorem resolve_eq_ok_iff (hl : f.IsLinkless) {place : Place} :
    f.resolve dir = .ok place ↔ dir.IsClear ∧ place = f.placeOf dir := by
  rw [resolve_of_isLinkless hl, Path.IsClear, ← List.contains_iff_mem]
  by_cases hnull : dir.text.contains (.char '\x00') = true
  · rw [if_pos hnull]
    exact iff_of_false (fun h => (by cases h)) fun h => h.1 hnull
  · rw [if_neg hnull, Except.ok.injEq, eq_comm]
    exact ⟨fun h => ⟨hnull, h⟩, fun h => h.2⟩

/-- The canonical place of a path that goes one name further. -/
theorem resolve_child (hl : f.IsLinkless) {place : Place} (h : f.resolve dir = .ok place)
    (hx : x ≠ Path.up ∧ x ≠ Path.here) (hclear : .char '\x00' ∉ x) :
    f.resolve (dir.child x) = .ok (place ++ [x]) := by
  rcases (resolve_eq_ok_iff hl).mp h with ⟨hdir, rfl⟩
  exact (resolve_eq_ok_iff hl).mpr ⟨hdir.child hclear, (placeOf_child hx f dir).symm⟩

/-- A path that goes one name further than to a directory leads to what is there, unless the name
    or the path is too long. -/
theorem spot_child (hl : f.IsLinkless) (hdir : f.isDir dir = .ok true)
    (hx : x ≠ Path.up ∧ x ≠ Path.here) (hclear : .char '\x00' ∉ x) :
    f.spot true (dir.child x) = .ok (f.tree.spotAt (f.placeOf dir ++ [x])) ∨
      f.spot true (dir.child x) = .error (refuse .nameTooLong (dir.child x)) := by
  rcases spot_eq_ok_iff.mp ((isDir_iff hl).mp hdir) with ⟨hnull, _, hspot⟩
  rcases walk_eq_ok_iff.mp hspot with ⟨place, hwalks, hplace⟩
  rcases Tree.spotAt_eq_present_iff.mp hplace.symm with ⟨rfl, hfind⟩
  have hchild : (dir.child x).IsClear := Path.IsClear.child
    (fun h => Bool.eq_false_iff.mp hnull (List.contains_iff_mem.mpr h)) hclear
  unfold spot
  rw [if_neg fun h => hchild (List.contains_iff_mem.mp h)]
  by_cases hlong : maxPath ≤ (dir.child x).text.byteLength
  · exact Or.inr (if_pos hlong)
  -- The walk to the directory goes on with one more name.
  have hwalk : walk f.tree true maxLinks (f.start (dir.child x)) (dir.child x).parts =
      walk f.tree true maxLinks (f.placeOf dir) [x] := hwalks.walk_concat hl hfind x
  rw [if_neg hlong, hwalk]
  by_cases hname : maxName < x.byteLength
  · rw [walk_long hfind hx hname]
    exact Or.inr rfl
  · rw [walk_last hfind ⟨hx.1, hx.2, Nat.le_of_not_lt hname⟩ (hl _)]
    exact Or.inl rfl

/-- A file in a directory is found if the question is answered. -/
theorem isFile_child (hl : f.IsLinkless) (hdir : f.isDir dir = .ok true)
    (hx : x ≠ Path.up ∧ x ≠ Path.here) (hclear : .char '\x00' ∉ x) {answer : Bool}
    (h : f.isFile (dir.child x) = .ok answer) :
    answer = true ↔ ∃ b, f.tree.find? (f.placeOf dir ++ [x]) = some (.file b) := by
  rw [isFile, ask] at h
  -- The path of the child leads to its place or is too long to be asked for.
  rcases spot_child hl hdir hx hclear with hspot | hspot
  · rw [hspot] at h
    rcases hfind : f.tree.find? (f.placeOf dir ++ [x]) with _ | e
    · rw [Tree.spotAt_of_none hfind] at h
      cases h
      simp only [Bool.false_eq_true, reduceCtorEq, exists_false]
    · rw [Tree.spotAt_of_some hfind] at h
      cases h
      cases e with
      | file b => exact iff_of_true rfl ⟨b, rfl⟩
      | dir =>
          simp only [isRegular, Bool.false_eq_true, Option.some.injEq, reduceCtorEq, exists_false]
      | link target => exact absurd hfind (hl _ target)
  · rw [hspot] at h
    cases h

/-- All headers in a directory are found, in order. -/
theorem listsHeaders_of_headersIn (hl : f.IsLinkless) (hsound : f.tree.IsSound)
    (hclear : f.tree.IsClear) (hdir : f.isDir dir = .ok true) {headers : List Path}
    (h : f.headersIn dir = .ok headers) :
    ∃ names, headers = names.map dir.child ∧ f.tree.ListsHeaders (f.placeOf dir) names := by
  rcases headersIn_eq_ok hl hsound h with ⟨names, rfl, hsorted, hnodup, hmem, hanswered⟩
  refine ⟨names, rfl, hsorted.and hnodup, fun x => ?_⟩
  -- A name in the directory is one that a question can be asked about.
  have hfile : x ∈ f.tree.names (f.placeOf dir) → (f.isFile (dir.child x) = .ok true ↔
      ∃ b, f.tree.find? (f.placeOf dir ++ [x]) = some (.file b)) := by
    intro hx
    rcases hanswered x hx with ⟨answer, hanswer⟩
    rcases Tree.mem_names_iff.mp hx with ⟨e, he⟩
    rw [hanswer, Except.ok.injEq]
    exact isFile_child hl hdir (hsound.plain_of_mem_names hx) (hclear.of_find? he) hanswer
  rw [hmem]
  constructor
  · rintro ⟨hx, hisFile, hends⟩
    exact ⟨hends, (hfile hx).mp hisFile⟩
  · rintro ⟨hends, b, hb⟩
    have hx := Tree.mem_names_iff.mpr ⟨_, hb⟩
    exact ⟨hx, (hfile hx).mpr ⟨b, hb⟩, hends⟩

end Files

/-- The directory that a module path names, seen from `base`. -/
def moduleAt (base : Path) (modulePath : Text) : Path :=
  base.join (Path.ofText modulePath)

/-- A module path that names nothing. -/
def IsBlankPath (modulePath : Text) : Prop :=
  modulePath.all Symbol.isBlank = true

/-- The headers of an import are different files in the directory that it names. -/
def Import.HasFiles (f : Files) (base : Path) (i : Import) : Prop :=
  ∃ (names : List Text) (place : Place),
    i.headers = names.map (moduleAt base i.modulePath).child ∧ names.Nodup ∧
    ∀ x ∈ names, ¬ IsBlankPath i.modulePath ∧
      f.resolve (moduleAt base i.modulePath) = .ok place ∧
      f.resolve ((moduleAt base i.modulePath).child x) = .ok (place ++ [x]) ∧
      ∃ b, f.tree.find? (place ++ [x]) = some (.file b)

/-- The marker that a line is, if it names a module. -/
def Marker.naming? (l : Text) : Option Marker :=
  (Marker.ofLine? l.splitEnding.1).filter fun m => !m.modulePath.all Symbol.isBlank

theorem Marker.naming?_eq_some_iff {l : Text} {m : Marker} : naming? l = some m ↔
    ofLine? l.splitEnding.1 = some m ∧ m.modulePath.all Symbol.isBlank = false := by
  rw [naming?, Option.filter_eq_some_iff, Bool.not_eq_true']

theorem Marker.naming?_of_none {l : Text} (h : ofLine? l.splitEnding.1 = none) :
    naming? l = none := by
  rw [naming?, h]
  rfl

theorem Marker.naming?_of_blank {l : Text} {m : Marker} (h : ofLine? l.splitEnding.1 = some m)
    (hb : m.modulePath.all Symbol.isBlank = true) : naming? l = none := by
  rw [naming?, h, Option.filter_some, hb]
  rfl

/-- The canonical place of the directory that a line names. -/
def Files.named? (f : Files) (base : Path) (l : Text) : Option Place :=
  (Marker.naming? l).bind fun m => (f.resolve (moduleAt base m.modulePath)).toOption

theorem Files.named?_of_resolve {f : Files} {base : Path} {l : Text} {m : Marker} {place : Place}
    (hm : Marker.naming? l = some m) (hp : f.resolve (moduleAt base m.modulePath) = .ok place) :
    f.named? base l = some place := by
  rw [named?, hm, Option.bind_some, hp]
  rfl

namespace ExpandedLine

variable {f : Files} {base : Path} {known : List Place} {n : Nat} {l : Text} {m : Marker}
  {place : Place} {y : ExpandedLine}

/-- The line has stayed what it was. -/
def IsKept (l : Text) (y : ExpandedLine) : Prop :=
  y.text = l ∧ y.request = none

/-- The marker has become a remark that it names nothing. -/
def ReportsBlank (n : Nat) (l : Text) (m : Marker) (y : ExpandedLine) : Prop :=
  y.text = remark m.indent [] "empty module path" ++ l.splitEnding.2 ∧
  y.request = some { modulePath := m.modulePath, line := n }

/-- The marker has become a remark that the directory was named before. -/
def ReportsAgain (l : Text) (m : Marker) (y : ExpandedLine) : Prop :=
  y.text = remark m.indent m.modulePath "already imported" ++ l.splitEnding.2 ∧ y.request = none

/-- The marker has become a remark that there is no directory. -/
def ReportsMissing (n : Nat) (l : Text) (m : Marker) (y : ExpandedLine) : Prop :=
  y.text = remark m.indent m.modulePath "directory not found" ++ l.splitEnding.2 ∧
  y.request = some { modulePath := m.modulePath, line := n }

/-- The headers with the given names stand where the marker `m` was on line `n`: an include line
    for each of them, or a remark if there is none. -/
structure Includes (base : Path) (n : Nat) (l : Text) (m : Marker) (names : List Text)
    (y : ExpandedLine) : Prop where
  /-- The import has these headers. -/
  request : y.request = some { modulePath := m.modulePath, line := n,
                               headers := names.map (moduleAt base m.modulePath).child }
  /-- There are include lines. -/
  lines : names ≠ [] → y.text = includeLines m.indent m.modulePath l.splitEnding.2
    (names.map (moduleAt base m.modulePath).child) ++ l.splitEnding.2
  /-- There is a remark. -/
  none : names = [] → ∃ reason ∈ (["directory not found", "no headers found"] : List Text),
    y.text = remark m.indent m.modulePath reason ++ l.splitEnding.2

/-- The headers of the directory at `place` stand where the marker was. -/
def Contributes (f : Files) (base : Path) (n : Nat) (l : Text) (m : Marker) (place : Place)
    (y : ExpandedLine) : Prop :=
  ∃ names, f.tree.ListsHeaders place names ∧ y.Includes base n l m names

/-- What becomes of a line that names no directory. -/
theorem Becomes.of_naming_eq_none (h : Becomes f base known n l y)
    (hm : Marker.naming? l = none) : y.directory = none ∧
      (Marker.ofLine? l.splitEnding.1 = none ∧ y.IsKept l ∨
        ∃ m, Marker.ofLine? l.splitEnding.1 = some m ∧ IsBlankPath m.modulePath ∧
          y.ReportsBlank n l m) := by
  have hnaming : ∀ {m}, Marker.ofLine? l.splitEnding.1 = some m →
      m.modulePath.all Symbol.isBlank ≠ false :=
    fun hm' hb => absurd (hm.symm.trans (Marker.naming?_eq_some_iff.mpr ⟨hm', hb⟩))
      (Option.some_ne_none _).symm
  cases h with
  | plain hm' => exact ⟨rfl, Or.inl ⟨hm', rfl, rfl⟩⟩
  | blank hm' hb => exact ⟨rfl, Or.inr ⟨_, hm', hb, rfl, rfl⟩⟩
  | again hm' hb => exact absurd hb (hnaming hm')
  | missing hm' hb => exact absurd hb (hnaming hm')
  | bare hm' hb => exact absurd hb (hnaming hm')
  | found hm' hb => exact absurd hb (hnaming hm')

/-- What becomes of a line that names a directory. -/
theorem Becomes.of_naming (h : Becomes f base known n l y) (hm : Marker.naming? l = some m) :
    ∃ place, f.resolve (moduleAt base m.modulePath) = .ok place ∧
      (place ∈ known ∧ y.directory = none ∧ y.ReportsAgain l m ∨
        place ∉ known ∧ y.directory = some place ∧
          (f.isDir (moduleAt base m.modulePath) = .ok false ∧ y.ReportsMissing n l m ∨
            f.isDir (moduleAt base m.modulePath) = .ok true ∧
              ∃ headers, f.headersIn (moduleAt base m.modulePath) = .ok headers ∧
                ∀ names, headers = names.map (moduleAt base m.modulePath).child →
                  y.Includes base n l m names)) := by
  rcases Marker.naming?_eq_some_iff.mp hm with ⟨hm, hb⟩
  -- The first two kinds are of lines that name no directory.
  cases h with
  | plain hm' => cases hm.symm.trans hm'
  | blank hm' hb' =>
      cases hm.symm.trans hm'
      cases hb.symm.trans hb'
  | again hm' _ hp hk =>
      cases hm.symm.trans hm'
      exact ⟨_, hp, Or.inl ⟨hk, rfl, rfl, rfl⟩⟩
  | missing hm' _ hp hk hd =>
      cases hm.symm.trans hm'
      exact ⟨_, hp, Or.inr ⟨hk, rfl, Or.inl ⟨hd, rfl, rfl⟩⟩⟩
  | bare hm' _ hp hk hd hh =>
      cases hm.symm.trans hm'
      refine ⟨_, hp, Or.inr ⟨hk, rfl, Or.inr ⟨hd, [], hh, fun names hnames => ?_⟩⟩⟩
      rw [List.map_eq_nil_iff.mp hnames.symm]
      refine ⟨rfl, fun hne => absurd rfl hne, fun _ => ⟨_, ?_, rfl⟩⟩
      exact List.mem_cons_of_mem _ List.mem_cons_self
  | found hm' _ hp hk hd hh hne =>
      cases hm.symm.trans hm'
      refine ⟨_, hp, Or.inr ⟨hk, rfl, Or.inr ⟨hd, _, hh, fun names hnames => ?_⟩⟩⟩
      cases hnames
      exact ⟨rfl, fun _ => rfl, fun hnil => absurd (List.map_eq_nil_iff.mpr hnil) hne⟩

/-- A line adds the directory that it names to those that were named. -/
theorem Becomes.mem_known_iff (h : Becomes f base known n l y) (p : Place) :
    p ∈ y.directory.toList ++ known ↔ p ∈ known ∨ f.named? base l = some p := by
  rcases hm : Marker.naming? l with _ | m
  · rw [(h.of_naming_eq_none hm).1, Files.named?, hm]
    simp only [Option.toList_none, List.nil_append, Option.bind_none, reduceCtorEq, or_false]
  · rcases h.of_naming hm with ⟨place, hp, ⟨hk, hdirectory, _⟩ | ⟨_, hdirectory, _⟩⟩
    · rw [hdirectory, Files.named?_of_resolve hm hp, Option.some.injEq]
      exact ⟨Or.inl, fun h => h.elim id fun hplace => hplace ▸ hk⟩
    · rw [hdirectory, Files.named?_of_resolve hm hp, Option.some.injEq, Option.toList_some,
        List.singleton_append, List.mem_cons, or_comm, eq_comm]

/-- The first marker for a directory is replaced by the headers there, if its path leads there. -/
theorem Becomes.of_not_mem_known (hl : f.IsLinkless) (hsound : f.tree.IsSound)
    (hclear : f.tree.IsClear) (h : Becomes f base known n l y) (hm : Marker.naming? l = some m)
    (hp : f.resolve (moduleAt base m.modulePath) = .ok place) (hk : place ∉ known) :
    f.isDir (moduleAt base m.modulePath) = .ok true ∧ y.Contributes f base n l m place ∨
      f.isDir (moduleAt base m.modulePath) = .ok false ∧ y.ReportsMissing n l m := by
  rcases h.of_naming hm with ⟨place', hp', ⟨hk', _⟩ | ⟨_, _, hcases⟩⟩
  · cases hp.symm.trans hp'
    exact absurd hk' hk
  rcases hcases with ⟨hdir, hmissing⟩ | ⟨hdir, headers, hheaders, hincludes⟩
  · exact Or.inr ⟨hdir, hmissing⟩
  · rcases Files.listsHeaders_of_headersIn hl hsound hclear hdir hheaders with
      ⟨names, hnames, hlists⟩
    rw [← ((Files.resolve_eq_ok_iff hl).mp hp).2] at hlists
    exact Or.inl ⟨hdir, names, hlists, hincludes names hnames⟩

/-- Without a directory at its path, a marker gives what is asked for only if that is nothing. -/
theorem ReportsMissing.contributes_iff (h : y.ReportsMissing n l m) :
    y.Contributes f base n l m place ↔ f.tree.ListsHeaders place [] := by
  rcases h with ⟨htext, hrequest⟩
  constructor
  · rintro ⟨names, hlists, hincludes⟩
    have himport := Option.some.inj (hrequest.symm.trans hincludes.request)
    rw [Import.mk.injEq] at himport
    rw [List.map_eq_nil_iff.mp himport.2.2.symm] at hlists
    exact hlists
  · intro hlists
    exact ⟨[], hlists, hrequest, fun hne => absurd rfl hne, fun _ => ⟨_, List.mem_cons_self, htext⟩⟩

/-- An import comes from a marker on its line that names nothing, or from the first one for its
    directory. -/
theorem Becomes.of_request (h : Becomes f base known n l y) {i : Import}
    (hi : y.request = some i) : i.line = n ∧
      (IsBlankPath i.modulePath ∧ i.headers = [] ∨
        ∃ m place, Marker.naming? l = some m ∧ m.modulePath = i.modulePath ∧
          f.resolve (moduleAt base i.modulePath) = .ok place ∧ place ∉ known) := by
  cases h with
  | plain hm => cases hi
  | blank hm hb =>
      cases hi
      exact ⟨rfl, Or.inl ⟨hb, rfl⟩⟩
  | again => cases hi
  | missing hm hb hp hk =>
      cases hi
      exact ⟨rfl, Or.inr ⟨_, _, Marker.naming?_eq_some_iff.mpr ⟨hm, hb⟩, rfl, hp, hk⟩⟩
  | bare hm hb hp hk =>
      cases hi
      exact ⟨rfl, Or.inr ⟨_, _, Marker.naming?_eq_some_iff.mpr ⟨hm, hb⟩, rfl, hp, hk⟩⟩
  | found hm hb hp hk =>
      cases hi
      exact ⟨rfl, Or.inr ⟨_, _, Marker.naming?_eq_some_iff.mpr ⟨hm, hb⟩, rfl, hp, hk⟩⟩

/-- An import that is made has files for headers. -/
theorem Becomes.hasFiles_of_request (hl : f.IsLinkless) (hsound : f.tree.IsSound)
    (hclear : f.tree.IsClear) (h : Becomes f base known n l y) {i : Import}
    (hi : y.request = some i) : i.HasFiles f base := by
  rcases (h.of_request hi).2 with ⟨_, hempty⟩ | ⟨m, place, hm, hpath, hp, hk⟩
  · exact ⟨[], [], hempty, List.nodup_nil, fun x hx => absurd hx List.not_mem_nil⟩
  rw [← hpath] at hp
  rw [Import.HasFiles, ← hpath]
  -- Only a module that is there gives headers, each of them a file of its directory.
  rcases h.of_not_mem_known hl hsound hclear hm hp hk with ⟨_, hgives⟩ | ⟨_, _, hrequest⟩
  · rcases hgives with ⟨names, hlists, hincludes⟩
    cases hi.symm.trans hincludes.request
    refine ⟨names, place, rfl, hlists.increasing.imp fun h => h.2, fun x hx => ?_⟩
    rcases (hlists.mem_iff x).mp hx with ⟨_, b, hb⟩
    have hplain := hsound.plain_of_mem_names (Tree.mem_names_iff.mpr ⟨_, hb⟩)
    refine ⟨?_, hp, Files.resolve_child hl hp hplain (hclear.of_find? hb), b, hb⟩
    rw [IsBlankPath, (Marker.naming?_eq_some_iff.mp hm).2]
    exact Bool.false_ne_true
  · cases hi.symm.trans hrequest
    exact ⟨[], [], rfl, List.nodup_nil, fun x hx => absurd hx List.not_mem_nil⟩

end ExpandedLine

namespace Expansion

variable {f : Files} {base : Path} {known : List Place} {n k : Nat} {lines : List Text} {l : Text}

/-- The first line becomes one of six things, and the others go on from there. -/
theorem lines_cons {source : Text} {rest : List Text}
    (h : (ofLines f base known n (source :: rest)).failure = none) :
    ∃ y, ExpandedLine.Becomes f base known n source y ∧
      (ofLines f base (y.directory.toList ++ known) (n + 1) rest).failure = none ∧
      (ofLines f base known n (source :: rest)).lines =
        y :: (ofLines f base (y.directory.toList ++ known) (n + 1) rest).lines := by
  rw [ofLines] at h ⊢
  rcases hline : ExpandedLine.ofLine f base known n source with e | y
  · rw [hline] at h
    cases h
  · rw [hline] at h
    exact ⟨y, ExpandedLine.becomes_of_ofLine hline, h, rfl⟩

theorem length_lines (h : (ofLines f base known n lines).failure = none) :
    (ofLines f base known n lines).lines.length = lines.length := by
  induction lines generalizing known n with
  | nil => rfl
  | cons source rest ih =>
      rcases lines_cons h with ⟨y, _, hrest, hlines⟩
      rw [hlines, List.length_cons, List.length_cons, ih hrest]

/-- Each line becomes what it does after the directories that the lines before it name. -/
theorem becomes_of_getElem? (h : (ofLines f base known n lines).failure = none)
    (hl : lines[k]? = some l) :
    ∃ y known', (ofLines f base known n lines).lines[k]? = some y ∧
      ExpandedLine.Becomes f base known' (n + k) l y ∧
      ∀ p, p ∈ known' ↔ p ∈ known ∨ ∃ l' ∈ lines.take k, f.named? base l' = some p := by
  -- `known` grows by what the line before has named.
  induction lines generalizing known n k with
  | nil => cases hl
  | cons source rest ih =>
      rcases lines_cons h with ⟨y, hbecomes, hrest, hlines⟩
      rw [hlines]
      cases k with
      | zero =>
          cases hl
          refine ⟨y, known, rfl, hbecomes, fun p => ?_⟩
          simp only [List.take_zero, List.not_mem_nil, false_and, exists_false, or_false]
      | succ k =>
          rcases ih hrest hl with ⟨y', known', hy', hbecomes', hmem⟩
          rw [show n + 1 + k = n + (k + 1) by omega] at hbecomes'
          refine ⟨y', known', hy', hbecomes', fun p => ?_⟩
          rw [hmem, hbecomes.mem_known_iff, List.take_succ_cons, or_assoc]
          simp only [List.mem_cons, exists_eq_or_imp]

/-- No line before line `k` names the directory that `l` names. -/
def IsFirst (f : Files) (base : Path) (lines : List Text) (k : Nat) (l : Text) : Prop :=
  ∀ l' ∈ lines.take k, f.named? base l' ≠ f.named? base l

/-- What the lines of a text became: modules are imported at the first marker for them, and
    nothing else is changed. The new text is that of these lines, one after the other. -/
structure ImportsOnce (f : Files) (base : Path) (lines : List Text) (x : Expansion) : Prop where
  /-- Every line has become something. -/
  length : x.lines.length = lines.length
  /-- A line that is no marker stays as it is. -/
  plain : ∀ (k : Nat) (l : Text) (y : ExpandedLine), lines[k]? = some l →
    x.lines[k]? = some y → Marker.ofLine? l.splitEnding.1 = none → y.IsKept l
  /-- A marker that names nothing is replaced by a remark. -/
  blank : ∀ (k : Nat) (l : Text) (y : ExpandedLine) (m : Marker), lines[k]? = some l →
    x.lines[k]? = some y → Marker.ofLine? l.splitEnding.1 = some m → IsBlankPath m.modulePath →
    y.ReportsBlank (k + 1) l m
  /-- The first marker for a directory is replaced by its headers exactly if the path leads there
      as it is written or there are none to be found. -/
  first : ∀ (k : Nat) (l : Text) (y : ExpandedLine) (m : Marker), lines[k]? = some l →
    x.lines[k]? = some y → Marker.naming? l = some m → IsFirst f base lines k l →
    ∃ place, f.named? base l = some place ∧
      (y.Contributes f base (k + 1) l m place ↔
        f.isDir (moduleAt base m.modulePath) = .ok true ∨ f.tree.ListsHeaders place []) ∧
      (f.isDir (moduleAt base m.modulePath) ≠ .ok true → y.ReportsMissing (k + 1) l m)
  /-- Any other marker for it is replaced by a remark. -/
  again : ∀ (k : Nat) (l : Text) (y : ExpandedLine) (m : Marker), lines[k]? = some l →
    x.lines[k]? = some y → Marker.naming? l = some m → ¬ IsFirst f base lines k l →
    y.ReportsAgain l m
  /-- Imports are those of the first markers, with their lines. -/
  requested : ∀ i ∈ x.imports, ¬ IsBlankPath i.modulePath →
    ∃ k l m, lines[k]? = some l ∧ Marker.naming? l = some m ∧ IsFirst f base lines k l ∧
      i.line = k + 1 ∧ i.modulePath = m.modulePath
  /-- They are in order and are all from different directories. -/
  distinct : x.imports.Pairwise fun i j => i.line < j.line ∧
    (¬ IsBlankPath i.modulePath → ¬ IsBlankPath j.modulePath →
      f.resolve (moduleAt base i.modulePath) ≠ f.resolve (moduleAt base j.modulePath))
  /-- Their headers are regular files, and none of them is included twice. -/
  headers : ((x.imports.flatMap Import.headers).map f.resolve).Nodup ∧
    ∀ h ∈ x.imports.flatMap Import.headers, ∃ place b,
      f.resolve h = .ok place ∧ f.tree.find? place = some (.file b)

section Text

variable {t : Text} {y : ExpandedLine} {i : Import}

/-- Each line of a text becomes what it does after the directories that were named before. -/
theorem becomes_of_ofText (h : (ofText f base t).failure = none)
    (hy : (ofText f base t).lines[k]? = some y) :
    ∃ l known', t.codeLines[k]? = some l ∧ ExpandedLine.Becomes f base known' (k + 1) l y ∧
      ∀ p, p ∈ known' ↔ ∃ l' ∈ t.codeLines.take k, f.named? base l' = some p := by
  have hk : k < t.codeLines.length := by
    rw [← length_lines h]
    exact (List.getElem?_eq_some_iff.mp hy).1
  have hl : t.codeLines[k]? = some t.codeLines[k] := List.getElem?_eq_getElem hk
  rcases becomes_of_getElem? h hl with ⟨y', known', hy', hbecomes, hmem⟩
  rw [ofText, hy'] at hy
  cases hy
  rw [Nat.add_comm] at hbecomes
  refine ⟨_, known', hl, hbecomes, fun p => ?_⟩
  rw [hmem]
  simp only [List.not_mem_nil, false_or]

/-- An import is that of a line. -/
theorem exists_line_of_mem_imports {x : Expansion} (hi : i ∈ x.imports) :
    ∃ (k : Nat) (y : ExpandedLine), x.lines[k]? = some y ∧ y.request = some i := by
  rcases List.mem_filterMap.mp hi with ⟨y, hmem, hrequest⟩
  rcases List.mem_iff_getElem?.mp hmem with ⟨k, hy⟩
  exact ⟨k, y, hy, hrequest⟩

/-- Imports are in order and are all from different directories: the later one of two would not
    have been made, as the line of the other one is before it. -/
theorem pairwise_imports (h : (ofText f base t).failure = none) :
    (ofText f base t).imports.Pairwise fun i j => i.line < j.line ∧
      (¬ IsBlankPath i.modulePath → ¬ IsBlankPath j.modulePath →
        f.resolve (moduleAt base i.modulePath) ≠ f.resolve (moduleAt base j.modulePath)) := by
  rw [imports, List.pairwise_filterMap, List.pairwise_iff_getElem]
  intro a b ha hb hab i hi j hj
  rcases becomes_of_ofText h (List.getElem?_eq_getElem ha) with ⟨l, _, hl, hbecomes, _⟩
  rcases becomes_of_ofText h (List.getElem?_eq_getElem hb) with ⟨_, known, _, hbecomes', hknown⟩
  rcases hbecomes.of_request hi with ⟨hline, hi⟩
  rcases hbecomes'.of_request hj with ⟨hline', hj⟩
  refine ⟨by omega, fun hblank hblank' heq => ?_⟩
  rcases hi with ⟨hi, _⟩ | ⟨m, place, hm, hpath, hp, _⟩
  · exact hblank hi
  rcases hj with ⟨hj, _⟩ | ⟨_, place', _, _, hp', hnew⟩
  · exact hblank' hj
  -- The later line would have found the place among the known ones.
  refine hnew ((hknown place').mpr ⟨l, ?_, ?_⟩)
  · exact List.mem_iff_getElem?.mpr ⟨a, by rw [List.getElem?_take_of_lt hab, hl]⟩
  · rw [← hpath] at heq
    exact Files.named?_of_resolve hm (heq.trans hp')

/-- The headers of all imports are different files. -/
theorem nodup_headers (hl : f.IsLinkless) (hsound : f.tree.IsSound) (hclear : f.tree.IsClear)
    (h : (ofText f base t).failure = none) :
    (((ofText f base t).imports.flatMap Import.headers).map f.resolve).Nodup ∧
    ∀ header ∈ (ofText f base t).imports.flatMap Import.headers, ∃ place b,
      f.resolve header = .ok place ∧ f.tree.find? place = some (.file b) := by
  have himport : ∀ i ∈ (ofText f base t).imports, i.HasFiles f base := by
    intro i hi
    rcases exists_line_of_mem_imports hi with ⟨k, y, hy, hrequest⟩
    rcases becomes_of_ofText h hy with ⟨l, known, _, hbecomes, _⟩
    exact hbecomes.hasFiles_of_request hl hsound hclear hrequest
  constructor
  · rw [List.map_flatMap, List.nodup_flatMap]
    refine ⟨fun i hi => ?_, (pairwise_imports h).imp_of_mem fun {i j} hi hj hij => ?_⟩
    · rcases himport i hi with ⟨names, place, hheaders, hnodup, hnames⟩
      rw [hheaders, List.map_map]
      refine hnodup.map_on fun x hx x' hx' heq => ?_
      rw [Function.comp_apply, Function.comp_apply, (hnames x hx).2.2.1, (hnames x' hx').2.2.1,
        Except.ok.injEq] at heq
      exact List.singleton_inj.mp (List.append_cancel_left heq)
    · -- A file in two directories would make them the same.
      rcases himport i hi with ⟨names, place, hheaders, _, hnames⟩
      rcases himport j hj with ⟨names', place', hheaders', _, hnames'⟩
      rw [Function.onFun, hheaders, hheaders', List.map_map, List.map_map]
      intro p hp hp'
      rcases List.mem_map.mp hp with ⟨x, hx, rfl⟩
      rcases List.mem_map.mp hp' with ⟨x', hx', heq⟩
      rcases hnames x hx with ⟨hblank, hdir, hfile, _⟩
      rcases hnames' x' hx' with ⟨hblank', hdir', hfile', _⟩
      rw [Function.comp_apply, Function.comp_apply, hfile, hfile', Except.ok.injEq] at heq
      refine hij.2 hblank hblank' ?_
      rw [hdir, hdir', (List.append_inj' heq rfl).1]
  · intro header hmem
    rcases List.mem_flatMap.mp hmem with ⟨i, hi, hheader⟩
    rcases himport i hi with ⟨names, place, hheaders, _, hnames⟩
    rw [hheaders] at hheader
    rcases List.mem_map.mp hheader with ⟨x, hx, rfl⟩
    rcases hnames x hx with ⟨_, _, hfile, b, hb⟩
    exact ⟨_, b, hfile, hb⟩

/-- Modules are imported once, unless the first path that names one leads nowhere as it is
    written. -/
theorem importsOnce (hl : f.IsLinkless) (hsound : f.tree.IsSound) (hclear : f.tree.IsClear)
    (h : (ofText f base t).failure = none) :
    ImportsOnce f base t.codeLines (ofText f base t) := by
  refine ⟨length_lines h, ?_, ?_, ?_, ?_, ?_, pairwise_imports h,
    nodup_headers hl hsound hclear h⟩
  · intro k l y hk hy hm
    rcases becomes_of_ofText h hy with ⟨_, _, hk', hbecomes, _⟩
    cases hk.symm.trans hk'
    rcases (hbecomes.of_naming_eq_none (Marker.naming?_of_none hm)).2 with ⟨_, hkept⟩ | ⟨m, hm', _⟩
    · exact hkept
    · cases hm.symm.trans hm'
  · intro k l y m hk hy hm hblank
    rcases becomes_of_ofText h hy with ⟨_, _, hk', hbecomes, _⟩
    cases hk.symm.trans hk'
    rcases (hbecomes.of_naming_eq_none (Marker.naming?_of_blank hm hblank)).2 with
      ⟨hm', _⟩ | ⟨m', hm', _, hreports⟩
    · cases hm.symm.trans hm'
    · cases hm.symm.trans hm'
      exact hreports
  · intro k l y m hk hy hm hfirst
    rcases becomes_of_ofText h hy with ⟨_, known, hk', hbecomes, hknown⟩
    cases hk.symm.trans hk'
    rcases hbecomes.of_naming hm with ⟨place, hp, _⟩
    have hnamed := Files.named?_of_resolve hm hp
    have hnew : place ∉ known := by
      intro hmem
      rcases (hknown place).mp hmem with ⟨l', hl', hnamed'⟩
      exact hfirst l' hl' (hnamed'.trans hnamed.symm)
    refine ⟨place, hnamed, ?_⟩
    rcases hbecomes.of_not_mem_known hl hsound hclear hm hp hnew with
      ⟨hdir, hgives⟩ | ⟨hdir, hmissing⟩
    · exact ⟨iff_of_true hgives (Or.inl hdir), fun hne => absurd hdir hne⟩
    · rw [hmissing.contributes_iff, hdir]
      exact ⟨⟨Or.inr, fun h => h.resolve_left fun hc => (by cases hc)⟩, fun _ => hmissing⟩
  · intro k l y m hk hy hm hfirst
    rcases becomes_of_ofText h hy with ⟨_, known, hk', hbecomes, hknown⟩
    cases hk.symm.trans hk'
    rcases hbecomes.of_naming hm with ⟨place, hp, ⟨_, _, hreports⟩ | ⟨hnew, _⟩⟩
    · exact hreports
    -- A place that is new is named by no line before.
    refine absurd (fun l' hl' heq => hnew ((hknown place).mpr ⟨l', hl', ?_⟩)) hfirst
    rw [heq, Files.named?_of_resolve hm hp]
  · intro i hi hblank
    rcases exists_line_of_mem_imports hi with ⟨k, y, hy, hrequest⟩
    rcases becomes_of_ofText h hy with ⟨l, known, hk, hbecomes, hknown⟩
    rcases hbecomes.of_request hrequest with ⟨hline, ⟨hb, _⟩ | ⟨m, place, hm, hpath, hp, hnew⟩⟩
    · exact absurd hb hblank
    refine ⟨k, l, m, hk, hm, fun l' hl' heq => ?_, hline, hpath.symm⟩
    rw [← hpath] at hp
    exact hnew ((hknown place).mpr ⟨l', hl', heq.trans (Files.named?_of_resolve hm hp)⟩)

/-- A directory with two headers. -/
def twoHeaders : Files :=
  ⟨{ entries :=
    [(["lib"], .dir), (["lib", "b.cz.h"], .file []), (["lib", "a.cz.h"], .file [])] }, []⟩

/-- A text that imports it twice. -/
def importingTwice : Text :=
  "#import \"lib\"\r\nint x;\n#import \"./lib/\""

theorem importsOnce_twoHeaders :
    ((ofText twoHeaders "." importingTwice).failure = none ∧
      (ofText twoHeaders "." importingTwice).text =
        "#include \"lib/a.cz.h\"\r\n#include \"lib/b.cz.h\"\r\nint x;\n" ++
          "/* czbuild: #import \"./lib/\" - already imported */") ∧
    ImportsOnce twoHeaders "." (Text.codeLines importingTwice)
      (ofText twoHeaders "." importingTwice) := by
  have hfailure : (ofText twoHeaders "." importingTwice).failure = none := by cbv
  exact ⟨⟨hfailure, by cbv⟩, importsOnce (Files.isLinkless_of_linkCount rfl)
    ⟨by decide, by decide⟩ (by decide) hfailure⟩

/-- A directory that is named first by a path through a missing one is not imported at all. -/
theorem text_past_missing :
    (ofText twoHeaders "." "#import \"x/../lib\"\n#import \"lib\"\n").failure = none ∧
    (ofText twoHeaders "." "#import \"x/../lib\"\n#import \"lib\"\n").text =
      "/* czbuild: #import \"x/../lib\" - directory not found */\n" ++
        "/* czbuild: #import \"lib\" - already imported */\n" ∧
    twoHeaders.named? "." "#import \"x/../lib\"\n" = some (["lib"] : Place) ∧
    twoHeaders.named? "." "#import \"lib\"\n" = some (["lib"] : Place) ∧
    twoHeaders.tree.ListsHeaders ["lib"] ["a.cz.h", "b.cz.h"] := by
  refine ⟨by cbv, by cbv, by cbv, by cbv, by decide +kernel, fun x => ?_⟩
  constructor
  · intro hx
    simp only [List.mem_cons, List.not_mem_nil, or_false] at hx
    rcases hx with rfl | rfl
    · exact ⟨by decide, [], by decide⟩
    · exact ⟨by decide, [], by decide⟩
  · rintro ⟨_, b, hb⟩
    have hplace := (Tree.mem_entries_iff (List.cons_ne_nil _ [x])).mpr ⟨_, hb⟩
    simp only [twoHeaders, List.map_cons, List.map_nil, List.mem_cons, List.cons.injEq,
      List.not_mem_nil, reduceCtorEq, true_and, and_true, and_false, false_or, or_false] at hplace
    exact List.mem_cons.mpr (hplace.symm.imp_right List.mem_singleton.mpr)

end Text

end Expansion

end DialectBuild
