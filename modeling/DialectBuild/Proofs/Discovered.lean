import DialectBuild.Proofs.ChildPaths
import DialectBuild.Proofs.ImportedOnce

/-!
# What Is Discovered

The sources below a directory, told from the tree alone. In a tree without links, as a file system
has it, discovery finds every file with the name of a source that is not in a hidden directory, and
nothing else. It gives them in the order of their paths below the root, each once, so that the order
in which directories list their entries does not matter.

Three things may come in between. A file is asked about by its path from the root as the root is
written, and a path can be too long for that even if the file is there. Then discovery fails. It
fails, too, if directories are nested too deep to be walked through. And what is in a directory that
may not be listed is passed over. Where all paths are short enough, all directories can be listed
and none is too deep, nothing else is needed.

## Main definitions

* `Files.IsOrdinary`: A tree without links, as a file system has it.
* `Files.IsWalkable`: What is below a root can be walked through.
* `Tree.HoldsSource`: There is a source below a place.
* `Path.Precedes`: The order of paths below a root.

## Theorems

* `Files.leadsTo_descend`: What is below a directory can be reached from there.
* `Files.sources_canonical`: Discovery is sound, complete and in order.
* `Files.sources_overlong`: Where it fails.
-/

namespace DialectBuild

/-- Below the place, names lead to a regular file that is a source by its name, and that is in no
    hidden directory. -/
structure Tree.HoldsSource (t : Tree) (place : Place) (above : List Text) (name : Text) : Prop where
  /-- There is a regular file. -/
  file : ∃ b, t.find? (place ++ (above ++ [name])) = some (.file b)
  /-- It has the ending of sources. -/
  ending : sourceEnding <:+ name
  /-- It has something before that. -/
  named : name ≠ sourceEnding
  /-- The names of the directories above it do not start with a dot. -/
  visible : ∀ x ∈ above, ¬ (".": Text) <+: x

theorem holdsSource_congr {t t' : Tree} (h : ∀ q, t'.find? q = t.find? q) {place : Place}
    {above : List Text} {name : Text} :
    t'.HoldsSource place above name ↔ t.HoldsSource place above name := by
  constructor
  · rintro ⟨⟨b, hb⟩, hends, hnamed, hvisible⟩
    exact ⟨⟨b, (h _).symm.trans hb⟩, hends, hnamed, hvisible⟩
  · rintro ⟨⟨b, hb⟩, hends, hnamed, hvisible⟩
    exact ⟨⟨b, (h _).trans hb⟩, hends, hnamed, hvisible⟩

/-- Below the root, the one path comes before the other one as a text. -/
def Path.Precedes (root p q : Path) : Prop :=
  ∃ a b, p.relativeTo? root = some a ∧ q.relativeTo? root = some b ∧ a.text.codes < b.text.codes

namespace Files

/-- A tree without links as a file system has it. -/
structure IsOrdinary (f : Files) : Prop where
  /-- There are no links. -/
  linkless : f.IsLinkless
  /-- No place is listed twice, and names are neither empty nor dots and hold no slash. -/
  sound : f.tree.IsSound
  /-- Names hold no NUL. -/
  clear : f.tree.IsClear
  /-- Names are not too long. -/
  short : ∀ place ∈ f.tree.entries.map (·.1), ∀ x ∈ place, x.byteLength ≤ maxName
  /-- Whatever there is, is in a directory. -/
  closed : ∀ place ∈ f.tree.entries.map (·.1), f.tree.find? place.dropLast = some .dir

section Reaching

variable {f : Files} {root : Path} {place : Place}

/-- An entry is in a directory, under a name that leads there. -/
theorem IsOrdinary.isStep (h : f.IsOrdinary) {x : Text} {e : Entry}
    (he : f.tree.find? (place ++ [x]) = some e) :
    f.tree.find? place = some .dir ∧ IsStep x := by
  have hmem : x ∈ place ++ [x] := List.mem_append_right place (List.mem_singleton_self x)
  have hlisted := (Tree.mem_entries_iff (List.ne_nil_of_mem hmem)).mpr ⟨e, he⟩
  rcases h.sound.named _ hlisted x hmem with ⟨hpart, hup, _⟩
  have hdir := h.closed _ hlisted
  rw [List.dropLast_concat] at hdir
  exact ⟨hdir, hup, fun hdot => absurd (hdot ▸ hpart) (by decide), h.short _ hlisted x hmem⟩

theorem descend_concat (root : Path) (names : List Text) (x : Text) :
    root.descend (names ++ [x]) = (root.descend names).child x := by
  rw [Path.descend, Path.descend, Path.child, List.append_assoc]

/-- What is below a directory can be reached from there, as long as the path is short enough. -/
theorem leadsTo_descend (hf : f.IsOrdinary) (hroot : f.LeadsTo true root place) :
    ∀ {names : List Text} {e : Entry}, f.tree.find? (place ++ names) = some e →
      (root.descend names).text.byteLength < maxPath →
      f.LeadsTo true (root.descend names) (place ++ names) := by
  -- The induction is on the names from the end, since every directory on the way is there.
  intro names
  induction names using List.reverseRecOn with
  | nil =>
      intro e _ _
      rw [Path.descend, List.append_nil, List.append_nil]
      exact hroot
  | append_singleton names x ih =>
      intro e he hlong
      rw [← List.append_assoc] at he ⊢
      rw [descend_concat] at hlong ⊢
      rcases hf.isStep he with ⟨hdir, hstep⟩
      exact (ih hdir (Path.byteLength_lt_of_child hlong)).child hdir hstep (hf.clear.of_find? he)
        hlong fun _ target => hf.linkless _ target

/-- Whatever there is, is in directories all the way down. -/
theorem IsOrdinary.dir_of_find? (hf : f.IsOrdinary) {x : Text} {more : List Text} {e : Entry}
    (he : f.tree.find? (place ++ x :: more) = some e) : f.tree.find? place = some .dir := by
  induction more using List.reverseRecOn generalizing e with
  | nil => exact (hf.isStep he).1
  | append_singleton more y ih =>
      rw [← List.cons_append, ← List.append_assoc] at he
      exact ih (hf.isStep he).1

/-- Whether there is a file is answered for everything below a directory. -/
theorem isFile_descend (hf : f.IsOrdinary) (hroot : f.LeadsTo true root place) {names : List Text}
    {e : Entry} (he : f.tree.find? (place ++ names) = some e)
    (hlong : (root.descend names).text.byteLength < maxPath) :
    f.isFile (root.descend names) = .ok (isRegular e) := by
  have hleads := leadsTo_descend hf hroot he hlong
  rw [LeadsTo, Tree.spotAt_of_some he] at hleads
  rw [isFile, ask, hleads]

end Reaching

section Discovering

variable {f g : Files} {root : Path} {place : Place}

/-- What is below a root can be walked through, if a walk can be in a number of directories at
    once. -/
structure IsWalkable (f : Files) (root : Path) (place : Place) (depth : Nat) : Prop where
  /-- Every path from the root to something below it is short enough. -/
  short : ∀ names e, f.tree.find? (place ++ names) = some e →
    (root.descend names).text.byteLength < maxPath
  /-- Every directory can be listed. -/
  listed : ∀ names, f.tree.find? (place ++ names) = some .dir →
    f.tree.isUnlisted (place ++ names) = false
  /-- None is too deep. -/
  shallow : ∀ names, f.tree.find? (place ++ names) = some .dir → names.length < depth

/-- It is enough to look at the entries of the tree. -/
theorem isWalkable_of_entries {depth : Nat} (hroot : f.LeadsTo true root place)
    (hlisted : f.tree.rights.unlisted = []) (hdepth : 0 < depth)
    (h : ∀ q ∈ f.tree.entries.map (·.1),
      (root.descend (q.drop place.length)).text.byteLength < maxPath ∧ q.length < depth) :
    f.IsWalkable root place depth := by
  have hentry : ∀ names e, names ≠ [] → f.tree.find? (place ++ names) = some e →
      (root.descend names).text.byteLength < maxPath ∧ names.length < depth := by
    intro names e hnames he
    have hne : place ++ names ≠ [] := List.append_ne_nil_of_right_ne_nil place hnames
    rcases h _ ((Tree.mem_entries_iff hne).mpr ⟨e, he⟩) with ⟨hshort, hshallow⟩
    rw [List.drop_left] at hshort
    rw [List.length_append] at hshallow
    exact ⟨hshort, by omega⟩
  refine ⟨fun names e he => ?_, fun names _ => ?_, fun names hdir => ?_⟩
  · by_cases hnames : names = []
    · rw [hnames, Path.descend, List.append_nil]
      exact (leadsTo_iff.mp hroot).2.1
    · exact (hentry names e hnames he).1
  · rw [Tree.isUnlisted, hlisted]
    rfl
  · by_cases hnames : names = []
    · rw [hnames]
      exact hdepth
    · exact (hentry names .dir hnames hdir).2

variable {depth : Nat}

/-- Every directory below the root can be opened. -/
theorem IsWalkable.openDir (hw : f.IsWalkable root place depth) (hf : f.IsOrdinary)
    (hroot : f.LeadsTo true root place) {names : List Text}
    (hdir : f.tree.find? (place ++ names) = some .dir) :
    f.openDir (root.descend names) = .ok (place ++ names) := by
  have hleads := leadsTo_descend hf hroot hdir (hw.short names _ hdir)
  rw [LeadsTo, Tree.spotAt_of_some hdir] at hleads
  exact openDir_eq_ok_iff.mpr ⟨hleads, hw.listed names hdir⟩

/-- A walk succeeds from any directory from which it can get to the end. -/
theorem IsWalkable.exists_collect (hw : f.IsWalkable root place depth) (hf : f.IsOrdinary)
    (hroot : f.LeadsTo true root place) {n : Nat} {names : List Text}
    (hdir : f.tree.find? (place ++ names) = some .dir)
    (hn : ∀ more, f.tree.find? (place ++ (names ++ more)) = some .dir → more.length < n) :
    ∃ found, Discovery.collect f root n names = .ok found := by
  induction n generalizing names with
  | zero =>
      refine absurd (hn [] ?_) (Nat.not_lt_zero 0)
      rw [List.append_nil]
      exact hdir
  | succ n ih =>
      have hown : ∃ own, Discovery.filesAmong f root (((f.tree.names (place ++ names)).mergeSort
          Text.le).map fun x => names ++ [x]) = .ok own := by
        refine ⟨_, Outcome.filterM_eq_ok_iff.mpr
          ⟨fun ns => (f.isFile (root.descend ns)).toOption.getD false, fun ns hns => ?_, rfl⟩⟩
        rcases List.mem_map.mp (List.mem_filter.mp hns).1 with ⟨x, hx, rfl⟩
        rcases Tree.mem_names_iff.mp (List.mem_mergeSort.mp hx) with ⟨e, he⟩
        rw [List.append_assoc] at he
        dsimp only
        rw [isFile_descend hf hroot he (hw.short _ e he)]
        rfl
      have hvisit : ∀ x ∈ (f.tree.names (place ++ names)).mergeSort Text.le, ∃ ds,
          Discovery.visit f root (Discovery.collect f root n) (names ++ [x])
            (f.tree.find? (place ++ names ++ [x])) = .ok ds := by
        intro x _
        rcases hfind : f.tree.find? (place ++ names ++ [x]) with _ | ⟨b | _ | target⟩
        · exact ⟨[], rfl⟩
        · exact ⟨[], rfl⟩
        · -- One directory fewer can be entered from here, and none is that deep.
          rw [List.append_assoc] at hfind
          refine ih hfind fun more hmore => ?_
          rw [List.append_assoc, List.singleton_append] at hmore
          exact Nat.lt_of_succ_lt_succ (hn (x :: more) hmore)
        · exact absurd hfind (hf.linkless _ target)
      rcases hown with ⟨own, hown⟩
      rcases Outcome.exists_map_eq_of_forall hvisit with ⟨deeper, hdeeper⟩
      refine ⟨own ++ deeper.flatten, ?_⟩
      rw [Discovery.collect, hw.openDir hf hroot hdir]
      simp only [Outcome.bind_eq_ok_iff, Outcome.pure_eq_ok_iff, Outcome.mapM_eq_ok_iff]
      exact ⟨own, hown, deeper, hdeeper, rfl⟩

/-- Discovery succeeds if everything can be walked through. -/
theorem exists_sources (hf : f.IsOrdinary) (hroot : f.LeadsTo true root place)
    (hdir : f.tree.find? place = some .dir) (hw : f.IsWalkable root place depth) :
    ∃ sources, f.sources root depth = .ok sources := by
  have hstart : f.tree.find? (place ++ []) = some .dir := by
    rw [List.append_nil]
    exact hdir
  rcases hw.exists_collect hf hroot hstart hw.shallow with ⟨found, hfound⟩
  exact ⟨_, sources_eq_ok_iff.mpr
    ⟨isDir_eq_true_iff.mpr ⟨place, hroot, hdir⟩, found, hfound, rfl⟩⟩

/-- A walk visits every directory below the one where it is. -/
theorem IsWalkable.visits (hw : f.IsWalkable root place depth) (hf : f.IsOrdinary)
    (hroot : f.LeadsTo true root place) {names more : List Text}
    (hdir : f.tree.find? (place ++ (names ++ more)) = some .dir) :
    f.Visits root names (names ++ more) (place ++ (names ++ more)) := by
  induction more generalizing names with
  | nil =>
      rw [List.append_nil] at hdir ⊢
      exact .here (hw.openDir hf hroot hdir)
  | cons x more ih =>
      have hnext : names ++ x :: more = names ++ [x] ++ more := by
        rw [List.append_assoc, List.singleton_append]
      have hhere : f.tree.find? (place ++ names) = some .dir := by
        rw [← List.append_assoc] at hdir
        exact hf.dir_of_find? hdir
      rw [hnext] at hdir ⊢
      refine .into (hw.openDir hf hroot hhere) ?_ (ih hdir)
      rw [List.append_assoc]
      cases more with
      | nil =>
          rw [List.append_nil] at hdir
          exact hdir
      | cons y more =>
          rw [← List.append_assoc] at hdir
          exact hf.dir_of_find? hdir

/-- A directory that is visited is where its names lead from the root. -/
theorem Visits.place_eq {names above : List Text} {place' : Place} (hf : f.IsOrdinary)
    (hroot : f.LeadsTo true root place) (hw : f.IsWalkable root place depth)
    (h : f.Visits root names above place') (hplace : f.tree.find? (place ++ names) = some .dir) :
    place' = place ++ above := by
  induction h with
  | here hopen =>
      rw [hw.openDir hf hroot hplace, Except.ok.injEq] at hopen
      exact hopen.symm
  | into hopen hdir _ ih =>
      rw [hw.openDir hf hroot hplace, Except.ok.injEq] at hopen
      rw [← hopen, List.append_assoc] at hdir
      exact ih hdir

/-- A walk from the root comes by everything that is below it. -/
theorem lists_iff (hf : f.IsOrdinary) (hroot : f.LeadsTo true root place)
    (hdir : f.tree.find? place = some .dir) (hw : f.IsWalkable root place depth)
    {names : List Text} :
    f.Lists root [] names ↔ names ≠ [] ∧ ∃ e, f.tree.find? (place ++ names) = some e := by
  have hstart : f.tree.find? (place ++ []) = some .dir := by
    rw [List.append_nil]
    exact hdir
  constructor
  · rintro ⟨above, place', x, hvisits, hx, rfl⟩
    rw [hvisits.place_eq hf hroot hw hstart, Tree.mem_names_iff, List.append_assoc] at hx
    exact ⟨List.append_ne_nil_of_right_ne_nil above (List.cons_ne_nil x []), hx⟩
  · rintro ⟨hne, e, he⟩
    rw [← List.dropLast_concat_getLast hne, ← List.append_assoc] at he
    have hvisits : f.Visits root [] ([] ++ names.dropLast) (place ++ ([] ++ names.dropLast)) :=
      hw.visits hf hroot (hf.isStep he).1
    exact ⟨_, _, names.getLast hne, hvisits, Tree.mem_names_iff.mpr ⟨e, he⟩,
      (List.dropLast_concat_getLast hne).symm⟩

/-- The names that are found are those of the sources in the tree. -/
theorem isFound_iff (hf : f.IsOrdinary) (hroot : f.LeadsTo true root place)
    (hdir : f.tree.find? place = some .dir) (hw : f.IsWalkable root place depth)
    {names : List Text} : f.IsFound root names ↔
      ∃ above name, names = above ++ [name] ∧ f.tree.HoldsSource place above name := by
  -- The last name makes a candidate, and it is accepted if the names above are visible, too.
  have hcandidate : ∀ above name, Discovery.isCandidate (above ++ [name]) = true ↔
      sourceEnding <:+ name := by
    intro above name
    rw [Discovery.isCandidate, List.getLast?_concat, Option.any_some, Text.endsWith,
      List.isSuffixOf_iff_suffix]
  have haccepted : ∀ above name, Discovery.isAccepted (above ++ [name]) = true ↔
      name ≠ sourceEnding ∧ ∀ x ∈ above, ¬ (".": Text) <+: x := by
    intro above name
    rw [Discovery.isAccepted, Discovery.isHidden, List.getLast?_concat, List.dropLast_concat,
      Bool.and_eq_true, bne_iff_ne, Option.some_inj.ne, Bool.not_eq_true', List.any_eq_false]
    refine and_congr_right fun _ => forall₂_congr fun x _ => ?_
    rw [Text.startsWith, List.isPrefixOf_iff_prefix]
  constructor
  · rintro ⟨hlisted, hends, hfile, hkept⟩
    rcases (lists_iff hf hroot hdir hw).mp hlisted with ⟨hne, e, he⟩
    rw [isFile_descend hf hroot he (hw.short names e he), Except.ok.injEq] at hfile
    have hregular : ∃ b, e = .file b := by
      cases e with
      | file b => exact ⟨b, rfl⟩
      | dir => cases hfile
      | link target => cases hfile
    rcases hregular with ⟨b, rfl⟩
    rw [← List.dropLast_concat_getLast hne] at hends hkept he ⊢
    rcases (haccepted _ _).mp hkept with ⟨hnamed, hvisible⟩
    exact ⟨_, _, rfl, ⟨b, he⟩, (hcandidate _ _).mp hends, hnamed, hvisible⟩
  · rintro ⟨above, name, rfl, ⟨b, he⟩, hends, hnamed, hvisible⟩
    have hne : above ++ [name] ≠ [] :=
      List.append_ne_nil_of_right_ne_nil above (List.cons_ne_nil name [])
    exact ⟨(lists_iff hf hroot hdir hw).mpr ⟨hne, _, he⟩, (hcandidate _ _).mpr hends,
      isFile_descend hf hroot he (hw.short _ _ he), (haccepted _ _).mpr ⟨hnamed, hvisible⟩⟩

/-- Names below the root are what remains of the path that they make. -/
theorem relativeTo?_descend (root : Path) (names : List Text) :
    (root.descend names).relativeTo? root = some ⟨.relative, names⟩ := by
  rw [Path.relativeTo?, if_pos ⟨rfl, List.isPrefixOf_iff_prefix.mpr (List.prefix_append _ _)⟩,
    Path.descend, List.drop_left]

/-- Sorted names that differ make paths of which each comes before the next. -/
theorem pairwise_precedes (root : Path) {found : List (List Text)} (hnodup : found.Nodup)
    (hnamed : ∀ names ∈ found, ∀ x ∈ names, Path.isPart x = true ∧ .char '/' ∉ x) :
    ((found.mergeSort Discovery.le).map root.descend).Pairwise root.Precedes := by
  have hsorted := Discovery.pairwise_mergeSort found
  have hnodup' := (List.mergeSort_perm found Discovery.le).nodup_iff.mpr hnodup
  refine List.pairwise_map.mpr ((hsorted.and hnodup').imp_of_mem fun {a b} ha hb hab => ?_)
  refine ⟨_, _, relativeTo?_descend root a, relativeTo?_descend root b, ?_⟩
  refine lt_of_le_of_ne (Text.le_iff.mp hab.1) fun hcodes => hab.2 ?_
  exact Discovery.pathText_injective (hnamed a (List.mem_mergeSort.mp ha))
    (hnamed b (List.mem_mergeSort.mp hb)) (Text.codes_injective hcodes)

/-- In a sound tree, what is at a place is what is listed for it, the root apart. -/
theorem find?_eq_some_iff {t : Tree} (h : t.IsSound) {q : Place} (hq : q ≠ []) {e : Entry} :
    t.find? q = some e ↔ (q, e) ∈ t.entries := by
  rw [Tree.find?, if_neg hq, List.lookup_eq_some_iff]
  constructor
  · rintro ⟨before, after, hentries, _⟩
    rw [hentries]
    exact List.mem_append_right before List.mem_cons_self
  · intro hmem
    rcases List.append_of_mem hmem with ⟨before, after, hentries⟩
    refine ⟨before, after, hentries, fun a ha => bne_iff_ne.mpr fun heq => ?_⟩
    -- The place would be listed before.
    have hnodup := h.nodup
    rw [hentries, List.map_append, List.map_cons, List.nodup_append] at hnodup
    exact hnodup.2.2 a.1 (List.mem_map_of_mem ha) q List.mem_cons_self heq.symm

/-- What is in a tree does not depend on the order of its entries. -/
theorem find?_of_perm {t t' : Tree} (h : t.IsSound) (h' : t'.IsSound)
    (hperm : t'.entries.Perm t.entries) (q : Place) : t'.find? q = t.find? q := by
  by_cases hq : q = []
  · rw [Tree.find?, Tree.find?, if_pos hq, if_pos hq]
  · refine Option.ext fun e => ?_
    rw [find?_eq_some_iff h' hq, find?_eq_some_iff h hq, hperm.mem_iff]

/-- Nor does it matter for whether a file system has such a tree. -/
theorem IsOrdinary.of_perm (h : f.IsOrdinary) (hperm : g.tree.entries.Perm f.tree.entries) :
    g.IsOrdinary := by
  have hplaces := hperm.map (·.1)
  have hsound : g.tree.IsSound :=
    ⟨hplaces.nodup_iff.mpr h.sound.nodup, fun q hq => h.sound.named q (hplaces.mem_iff.mp hq)⟩
  have hfind := find?_of_perm h.sound hsound hperm
  refine ⟨fun q target => ?_, hsound, fun q hq => h.clear q (hplaces.mem_iff.mp hq),
    fun q hq => h.short q (hplaces.mem_iff.mp hq), fun q hq => ?_⟩
  · rw [hfind]
    exact h.linkless q target
  · rw [hfind]
    exact h.closed q (hplaces.mem_iff.mp hq)

/-- Discovery gives the names of the sources that the tree holds, in order. -/
theorem exists_found (hf : f.IsOrdinary) (hroot : f.LeadsTo true root place)
    (hdir : f.tree.find? place = some .dir) (hw : f.IsWalkable root place depth) :
    ∃ found : List (List Text),
      f.sources root depth = .ok ((found.mergeSort Discovery.le).map root.descend) ∧
      found.Nodup ∧ ∀ names, names ∈ found ↔
        ∃ above name, names = above ++ [name] ∧ f.tree.HoldsSource place above name := by
  rcases exists_sources hf hroot hdir hw with ⟨sources, hsources⟩
  rcases sources_eq_ok hf.sound hsources with ⟨found, _, rfl, hnodup, hfound⟩
  exact ⟨found, hsources, hnodup, fun names => by rw [hfound, isFound_iff hf hroot hdir hw]⟩

/-- Discovery is sound, complete and in order. In a tree without links as a file system has it, and
    from any directory below which everything can be walked through, it finds exactly the sources
    that the tree holds, each before the next, whatever the order of the entries. -/
theorem sources_canonical (hf : f.IsOrdinary) (hroot : f.LeadsTo true root place)
    (hdir : f.tree.find? place = some .dir) (hw : f.IsWalkable root place depth) :
    ∃ sources, f.sources root depth = .ok sources ∧
      (∀ p, p ∈ sources ↔ ∃ above name, p = root.descend (above ++ [name]) ∧
        f.tree.HoldsSource place above name) ∧
      sources.Pairwise root.Precedes ∧
      ∀ g : Files, g.home = f.home → g.tree.rights = f.tree.rights →
        g.tree.entries.Perm f.tree.entries → g.sources root depth = .ok sources := by
  rcases exists_found hf hroot hdir hw with ⟨found, hsources, hnodup, hfound⟩
  have hnamed : ∀ names ∈ found, ∀ x ∈ names, Path.isPart x = true ∧ .char '/' ∉ x := by
    intro names hnames x hx
    rcases (hfound names).mp hnames with ⟨above, name, rfl, ⟨b, hb⟩, _⟩
    have hname := hf.sound.named_of_find? hb x (List.mem_append_right place hx)
    exact ⟨hname.1, hname.2.2⟩
  refine ⟨_, hsources, fun p => ?_, pairwise_precedes root hnodup hnamed,
    fun g hhome hrights hperm => ?_⟩
  · rw [List.mem_map]
    constructor
    · rintro ⟨names, hnames, rfl⟩
      rcases (hfound names).mp (List.mem_mergeSort.mp hnames) with ⟨above, name, rfl, hholds⟩
      exact ⟨above, name, rfl, hholds⟩
    · rintro ⟨above, name, rfl, hholds⟩
      exact ⟨_, List.mem_mergeSort.mpr ((hfound _).mpr ⟨above, name, rfl, hholds⟩), rfl⟩
  · -- The other tree has the same at every place, so that it holds the same sources.
    have hg := hf.of_perm hperm
    have hfind := find?_of_perm hf.sound hg.sound hperm
    have hroot' : g.LeadsTo true root place := by
      refine hroot.of_differsPlainly hhome (fun q => Or.inl (hfind q)) fun hnone => ?_
      rw [hfind] at hnone
      exact hnone
    have hw' : g.IsWalkable root place depth := by
      refine ⟨fun names e he => hw.short names e (hfind _ ▸ he), fun names hthere => ?_,
        fun names hthere => hw.shallow names (hfind _ ▸ hthere)⟩
      rw [Tree.isUnlisted_congr hrights]
      exact hw.listed names (hfind _ ▸ hthere)
    rcases exists_found hg hroot' ((hfind place).trans hdir) hw' with
      ⟨found', hsources', hnodup', hfound'⟩
    have hsame : ∀ names, names ∈ found ↔ names ∈ found' := by
      intro names
      rw [hfound, hfound']
      exact exists₂_congr fun above name => and_congr_right fun _ => (holdsSource_congr hfind).symm
    rw [hsources', Discovery.mergeSort_eq hnodup hnodup' hsame hnamed]

end Discovering

/-- Sources in directories, among them one with a hidden name, and others that are not found: in a
    hidden directory, without a name of its own, and a directory with the name of a source. -/
def nestedFiles : Files :=
  ⟨{ entries :=
    [(["p"], .dir), (["p", "b"], .dir), (["p", "b", "z.cz"], .file []), (["p", "b.cz"], .file []),
      (["p", ".git"], .dir), (["p", ".git", "x.cz"], .file []), (["p", ".h.cz"], .file []),
      (["p", "b-c.cz"], .file []), (["p", ".cz"], .file []), (["p", "d.cz"], .dir)] }, []⟩

/-- Its sources, in order. -/
def nestedSources : List Path :=
  ["p/.h.cz", "p/b-c.cz", "p/b.cz", "p/b/z.cz"]

theorem sources_canonical_nested :
    nestedFiles.sources "p" = .ok nestedSources ∧ nestedSources.Pairwise (Path.Precedes "p") ∧
    Files.sources ⟨{ entries := nestedFiles.tree.entries.reverse }, []⟩ "p" =
      .ok nestedSources := by
  have hsources : nestedFiles.sources "p" = .ok nestedSources := by cbv
  have hroot : nestedFiles.LeadsTo true "p" ["p"] := by
    unfold LeadsTo
    cbv
  have hordinary : nestedFiles.IsOrdinary :=
    ⟨isLinkless_of_linkCount (by decide +kernel), ⟨by decide +kernel, by decide +kernel⟩,
      by decide +kernel, by decide +kernel, by decide +kernel⟩
  have hwalkable : nestedFiles.IsWalkable "p" ["p"] Discovery.maxDepth :=
    isWalkable_of_entries hroot rfl (by decide) (by decide +kernel)
  rcases sources_canonical hordinary hroot (by decide +kernel) hwalkable with
    ⟨sources, h, _, hordered, hperm⟩
  rw [hsources, Except.ok.injEq] at h
  subst h
  exact ⟨hsources, hordered, hperm _ rfl rfl (List.reverse_perm _)⟩

/-- What is in a directory that may not be listed is passed over. -/
example : Files.sources ⟨{ nestedFiles.tree with rights := { unlisted := [["p", "b"]] } }, []⟩ "p" =
    .ok ["p/.h.cz", "p/b-c.cz", "p/b.cz"] := by
  cbv

/-- A walk fails if a question about a file does. -/
theorem collect_of_filesAmong {f : Files} {root : Path} {names : List Text} {place : Place}
    {e : Failure} (hopen : f.openDir (root.descend names) = .ok place)
    (hown : Discovery.filesAmong f root
      (((f.tree.names place).mergeSort Text.le).map fun x => names ++ [x]) = .error e) (n : Nat) :
    Discovery.collect f root (n + 1) names = .error e := by
  rw [Discovery.collect, hopen]
  dsimp only
  rw [hown]
  rfl

/-- The longest name of a directory. -/
def longName : Text :=
  List.replicate 255 (.char 'd')

/-- A long name of a source. -/
def longSource : Text :=
  (List.replicate 250 (.char 'n') : Text) ++ ".cz"

/-- A directory with a source in it, both of which have long names. -/
def longFiles : Files :=
  ⟨{ entries := [([longName], .dir), ([longName, longSource], .file [])] }, []⟩

/-- The directory, by a path that goes into it and out again several times. -/
def longRoot : Path :=
  ⟨.relative, (List.replicate 14 [longName, Path.up]).flatten ++ [longName]⟩

theorem isOrdinary_longFiles : longFiles.IsOrdinary where
  linkless := isLinkless_of_linkCount (by decide +kernel)
  sound := ⟨by decide +kernel, by decide +kernel⟩
  clear := by decide +kernel
  short := by decide +kernel
  closed := by decide +kernel

/-- A way into a directory and out again may be taken any number of times. -/
theorem Walks.of_replicate {t : Tree} {links : Nat} {here place : Place} {names : List Text}
    {x : Text} (h : Walks t true links here names place) (hhere : t.find? here = some .dir)
    (hdir : t.find? (here ++ [x]) = some .dir) (hx : IsStep x) (n : Nat) :
    Walks t true links here ((List.replicate n [x, Path.up]).flatten ++ names) place := by
  induction n with
  | zero => exact h
  | succ n ih =>
      rw [List.replicate_succ, List.flatten_cons, List.append_assoc]
      refine .into hhere hx hdir (fun target => Entry.noConfusion) (.up hdir ?_)
      rw [List.dropLast_concat]
      exact ih

theorem byteLength_longRoot : longRoot.text.byteLength = 3881 ∧
    (longRoot.descend [longSource]).text.byteLength = 4135 := by decide +kernel

theorem leadsTo_longRoot : longFiles.LeadsTo true longRoot [longName] := by
  have hdir : longFiles.tree.find? [longName] = some .dir := by decide +kernel
  have hstep : IsStep longName := by
    unfold IsStep
    decide +kernel
  refine leadsTo_iff.mpr ⟨by decide +kernel, ?_, ?_⟩
  · rw [byteLength_longRoot.1]
    decide
  have htop : longFiles.tree.find? [] = some .dir := if_pos rfl
  have hwalks : Walks longFiles.tree true maxLinks [] [longName] [longName] :=
    .into htop hstep hdir (fun target => Entry.noConfusion) (.stay hdir)
  exact hwalks.of_replicate htop hdir hstep 14

/-- If the path to a source is too long, discovery fails, although the source is there. -/
theorem sources_overlong :
    longFiles.IsOrdinary ∧ longFiles.isDir longRoot = .ok true ∧
    longFiles.LeadsTo true longRoot [longName] ∧
    longFiles.tree.HoldsSource [longName] [] longSource ∧
    longFiles.sources longRoot =
      .error (refuse .nameTooLong (longRoot.descend [longSource])) := by
  have hholds : longFiles.tree.HoldsSource [longName] [] longSource :=
    ⟨⟨[], by decide +kernel⟩, List.suffix_append _ _, by decide +kernel,
      fun x hx => absurd hx List.not_mem_nil⟩
  have hspot : longFiles.spot true (longRoot.descend [longSource]) =
      .error (refuse .nameTooLong (longRoot.descend [longSource])) := by
    rw [spot, if_neg (by decide +kernel), byteLength_longRoot.2]
    exact if_pos (by decide)
  have hfile : longFiles.isFile (longRoot.descend [longSource]) =
      .error (refuse .nameTooLong (longRoot.descend [longSource])) := by
    rw [isFile, ask, hspot]
    rfl
  have hdir : longFiles.tree.find? [longName] = some .dir := by decide +kernel
  have hopen : longFiles.openDir (longRoot.descend []) = .ok [longName] := by
    have hleads := leadsTo_longRoot
    rw [LeadsTo, Tree.spotAt_of_some hdir] at hleads
    rw [Path.descend, List.append_nil]
    exact openDir_eq_ok_iff.mpr ⟨hleads, rfl⟩
  have hnames : ((longFiles.tree.names [longName]).mergeSort Text.le).map (fun x => [] ++ [x]) =
      [[longSource]] := by decide +kernel
  have hown : Discovery.filesAmong longFiles longRoot (((longFiles.tree.names [longName]).mergeSort
      Text.le).map fun x => [] ++ [x]) =
        .error (refuse .nameTooLong (longRoot.descend [longSource])) := by
    have hcandidate : [[longSource]].filter Discovery.isCandidate = [[longSource]] := by
      decide +kernel
    rw [hnames, Discovery.filesAmong, hcandidate, List.filterM, List.filterAuxM, hfile]
    rfl
  have hroot : longFiles.isDir longRoot = .ok true :=
    isDir_eq_true_iff.mpr ⟨_, leadsTo_longRoot, hdir⟩
  have hcollect : Discovery.collect longFiles longRoot Discovery.maxDepth [] = _ :=
    collect_of_filesAmong hopen hown 979
  refine ⟨isOrdinary_longFiles, hroot, leadsTo_longRoot, hholds, ?_⟩
  rw [Files.sources, hroot, hcollect]
  rfl

end Files

end DialectBuild
