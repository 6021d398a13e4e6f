import DialectBuild.Proofs.SoundTree

/-!
# The Walk of Discovery

What discovery comes by on its walk through the directories below a root. `Visits` says it step by
step and without the ways in which a walk can fail: from a directory that can be listed into one of
its directories. A walk that succeeds has listed every name of each directory it enters, and has
asked about those that may be names of sources, so its result is known from these steps.

Sources as they are discovered lead to different places. Their paths differ in the names below
the root, and these names are followed as they are.

## Main definitions

* `Files.Visits`: The directories that a walk comes into.
* `Files.Lists`: Names that a walk comes by.
* `Files.IsFound`: Names that lead to a source.

## Theorems

* `Files.collect_eq_ok`: What a walk that succeeds does in one directory.
* `Files.mem_collect_iff`: What a walk that succeeds gives.
* `Files.sources_eq_ok`: How sources are discovered.
* `Files.apart_of_sources`: Discovered sources are apart.
* `Files.named_of_sources`: The places of discovered sources have sound names.
-/

namespace DialectBuild

namespace Files

open Discovery

variable {f : Files} {root p : Path} {depth : Nat} {names ns above : List Text}
  {found : List (List Text)} {place : Place} {x : Text}

/-- A directory can be opened exactly if the path leads to one and its names may be listed. -/
theorem openDir_eq_ok_iff : f.openDir p = .ok place ↔
    f.spot true p = .ok (.present place .dir) ∧ f.tree.isUnlisted place = false := by
  rw [openDir, Outcome.bind_eq_ok_iff]
  constructor
  · rintro ⟨s, hspot, h⟩
    split at h
    next place' =>
      split at h
      next => cases h
      next hlisted =>
        rw [Except.ok.injEq] at h
        subst h
        exact ⟨hspot, Bool.eq_false_iff.mpr hlisted⟩
    next => cases h
    next => cases h
  · rintro ⟨hspot, hlisted⟩
    refine ⟨_, hspot, ?_⟩
    dsimp only
    rw [hlisted]
    rfl

/-- Nothing that a path leads through is denied. -/
theorem walk_ne_permission {t : Tree} {follow : Bool} {links : Nat} {here : Place} :
    walk t follow links here names ≠ .error .permission := by
  fun_induction walk t follow links here names with
  | case4 links here rest hdir ih => exact ih
  | case5 links here rest hdir hup ih => exact ih
  | case11 here x rest hdir hup hdot hlong target htarget hend links ih => exact ih
  | case12 links here x rest hdir hup hdot hlong e hnot he ih => exact ih
  | _ => simp only [ne_eq, reduceCtorEq, not_false_eq_true, Except.error.injEq]

/-- A directory is denied exactly if the path leads to one whose names may not be listed. -/
theorem openDir_denied_iff : (∃ e, f.openDir p = .error e ∧ isDenied e = true) ↔
    ∃ place, f.spot true p = .ok (.present place .dir) ∧ f.tree.isUnlisted place = true := by
  constructor
  · rintro ⟨e, h, hdenied⟩
    rw [openDir] at h
    rcases hspot : f.spot true p with e' | s
    · -- A path that cannot be followed is refused for another reason.
      rw [hspot] at h
      cases h
      unfold spot at hspot
      split at hspot
      next => cases hspot; cases hdenied
      split at hspot
      next => cases hspot; cases hdenied
      next =>
        rcases hwalk : walk f.tree true maxLinks (f.start p) p.parts with errno | s
        · rw [hwalk] at hspot
          cases hspot
          have hpermission : errno = .permission := of_decide_eq_true hdenied
          exact absurd (hpermission ▸ hwalk) walk_ne_permission
        · rw [hwalk] at hspot
          cases hspot
    · rw [hspot] at h
      rcases s with ⟨place, _ | _ | _⟩ | place
      · cases h
        cases hdenied
      · by_cases hlisted : f.tree.isUnlisted place = true
        · exact ⟨place, rfl, hlisted⟩
        · cases (if_neg hlisted).symm.trans h
      · cases h
        cases hdenied
      · cases h
        cases hdenied
  · rintro ⟨place, hspot, hlisted⟩
    refine ⟨refuse .permission p, ?_, rfl⟩
    rw [openDir, hspot]
    exact if_pos hlisted

/-- Among files without links, a directory is opened at the place that the path spells. -/
theorem openDir_iff (hl : f.IsLinkless) : f.openDir p = .ok place ↔
    f.isDir p = .ok true ∧ place = f.placeOf p ∧ f.tree.isUnlisted place = false := by
  rw [openDir_eq_ok_iff, isDir_iff hl]
  constructor
  · rintro ⟨hspot, hlisted⟩
    have hplace := (Tree.spotAt_eq_present_iff.mp (spot_of_isLinkless hl hspot).symm).1
    exact ⟨hplace ▸ hspot, hplace.symm, hlisted⟩
  · rintro ⟨hspot, rfl, hlisted⟩
    exact ⟨hspot, hlisted⟩

/-- From the directory that some names lead to from the root, a walk comes to the one that more
    names lead to, at a place. Each directory on the way can be listed. -/
inductive Visits (f : Files) (root : Path) : List Text → List Text → Place → Prop where
  | here {names : List Text} {place : Place}
      (hopen : f.openDir (root.descend names) = .ok place) : Visits f root names names place
  | into {names ns : List Text} {place place' : Place} {x : Text}
      (hopen : f.openDir (root.descend names) = .ok place)
      (hdir : f.tree.find? (place ++ [x]) = some .dir)
      (h : Visits f root (names ++ [x]) ns place') : Visits f root names ns place'

/-- On a walk from the directory that some names lead to, there is an entry with these names. -/
def Lists (f : Files) (root : Path) (names ns : List Text) : Prop :=
  ∃ above place x, f.Visits root names above place ∧ x ∈ f.tree.names place ∧ ns = above ++ [x]

/-- What is added to a walk by an entry: what is in it if it is a directory, and else nothing. -/
theorem visit_eq_ok {enter : List Text → Except Failure (List (List Text))} {e : Option Entry}
    (h : visit f root enter names e = .ok found) :
    e = some .dir ∧ enter names = .ok found ∨ e ≠ some .dir ∧ found = [] := by
  unfold visit at h
  split at h
  next => exact Or.inl ⟨rfl, h⟩
  next =>
    rcases Outcome.bind_eq_ok_iff.mp h with ⟨_, _, h⟩
    refine Or.inr ⟨?_, (Outcome.pure_eq_ok_iff.mp h).symm⟩
    simp only [ne_eq, Option.some.injEq, reduceCtorEq, not_false_eq_true]
  next hdir _ => exact Or.inr ⟨hdir, (Except.ok.inj h).symm⟩

/-- A walk that succeeds either may not list the first directory, and finds nothing, or it asks
    about its names and goes on in its directories. -/
theorem collect_eq_ok (h : collect f root depth names = .ok found) :
    (found = [] ∧ ∃ e, f.openDir (root.descend names) = .error e ∧ isDenied e = true) ∨
    ∃ n place own deeper, depth = n + 1 ∧ f.openDir (root.descend names) = .ok place ∧
      filesAmong f root (((f.tree.names place).mergeSort Text.le).map fun x => names ++ [x]) =
        .ok own ∧
      ((f.tree.names place).mergeSort Text.le).mapM (fun x => visit f root (collect f root n)
        (names ++ [x]) (f.tree.find? (place ++ [x]))) = .ok deeper ∧
      found = own ++ deeper.flatten := by
  cases depth with
  | zero => cases h
  | succ n =>
      unfold collect at h
      rcases hopen : f.openDir (root.descend names) with e | place
      · rw [hopen] at h
        dsimp only at h
        split at h
        next hdenied => exact Or.inl ⟨(Except.ok.inj h).symm, e, rfl, hdenied⟩
        next => cases h
      · rw [hopen] at h
        simp only [Outcome.bind_eq_ok_iff, Outcome.pure_eq_ok_iff] at h
        rcases h with ⟨own, hown, deeper, hdeeper, hfound⟩
        exact Or.inr ⟨n, place, own, deeper, rfl, rfl, hown, hdeeper, hfound.symm⟩

/-- The files among some names are those that may be sources and are files. -/
theorem mem_filesAmong_iff {listed own : List (List Text)}
    (h : filesAmong f root listed = .ok own) : ns ∈ own ↔
      ns ∈ listed ∧ isCandidate ns = true ∧ f.isFile (root.descend ns) = .ok true := by
  rcases Outcome.filterM_eq_ok_iff.mp h with ⟨q, hq, rfl⟩
  rw [List.mem_filter, List.mem_filter, and_assoc]
  refine and_congr_right fun hlisted => and_congr_right fun hcandidate => ?_
  rw [hq ns (List.mem_filter.mpr ⟨hlisted, hcandidate⟩), Except.ok.injEq]

theorem nodup_filesAmong {listed own : List (List Text)} (hlisted : listed.Nodup)
    (h : filesAmong f root listed = .ok own) : own.Nodup := by
  rcases Outcome.filterM_eq_ok_iff.mp h with ⟨q, _, rfl⟩
  exact (hlisted.filter _).filter _

/-- A walk that succeeds gives the names of all files it comes by that may be sources. -/
theorem mem_collect_iff (h : collect f root depth names = .ok found) : ns ∈ found ↔
    f.Lists root names ns ∧ isCandidate ns = true ∧ f.isFile (root.descend ns) = .ok true := by
  -- The induction is on the number of directories that can be entered, as the walk goes.
  induction depth generalizing names found ns with
  | zero => cases h
  | succ n ih =>
      rcases collect_eq_ok h with ⟨rfl, e, hopen, _⟩ |
        ⟨n', place, own, deeper, hn, hopen, hown, hdeeper, rfl⟩
      · -- What cannot be listed is not entered.
        refine iff_of_false List.not_mem_nil ?_
        rintro ⟨⟨above, place, x, hthere, _⟩, _⟩
        cases hthere with
        | here hopen' | into hopen' =>
            rw [hopen] at hopen'
            cases hopen'
      cases hn
      rw [Outcome.mapM_eq_ok_iff] at hdeeper
      have hmem : ∀ {ds : List (List Text)}, ds ∈ deeper ↔ ∃ x ∈ f.tree.names place,
          visit f root (collect f root n) (names ++ [x]) (f.tree.find? (place ++ [x])) =
            .ok ds := by
        intro ds
        rw [Outcome.mem_iff_of_map_eq hdeeper]
        simp only [List.mem_mergeSort]
      rw [List.mem_append, List.mem_flatten, mem_filesAmong_iff hown, List.mem_map]
      constructor
      · rintro (⟨⟨x, hx, rfl⟩, hfile⟩ | ⟨ds, hds, hns⟩)
        · exact ⟨⟨names, place, x, .here hopen, List.mem_mergeSort.mp hx, rfl⟩, hfile⟩
        · rcases hmem.mp hds with ⟨x, hx, hvisit⟩
          rcases visit_eq_ok hvisit with ⟨hdir, hcollect⟩ | ⟨_, rfl⟩
          · rcases (ih hcollect).mp hns with ⟨⟨above, place', y, hthere, hy, rfl⟩, hfile⟩
            exact ⟨⟨above, place', y, .into hopen hdir hthere, hy, rfl⟩, hfile⟩
          · exact absurd hns List.not_mem_nil
      · rintro ⟨⟨above, place', y, hthere, hy, rfl⟩, hfile⟩
        cases hthere with
        | here hopen' =>
            rw [hopen, Except.ok.injEq] at hopen'
            subst hopen'
            exact Or.inl ⟨⟨y, List.mem_mergeSort.mpr hy, rfl⟩, hfile⟩
        | @into _ _ place₁ _ x hopen' hdir hthere =>
            rw [hopen, Except.ok.injEq] at hopen'
            subst hopen'
            have hx := Tree.mem_names_iff.mpr ⟨_, hdir⟩
            -- The directory was visited, as all names are.
            rcases Outcome.exists_ok_of_map_eq hdeeper x (List.mem_mergeSort.mpr hx) with
              ⟨ds, hvisit⟩
            refine Or.inr ⟨ds, hmem.mpr ⟨x, hx, hvisit⟩, ?_⟩
            rcases visit_eq_ok hvisit with ⟨_, hcollect⟩ | ⟨hnot, _⟩
            · exact (ih hcollect).mpr ⟨⟨above, place', y, hthere, hy, rfl⟩, hfile⟩
            · exact absurd hdir hnot

/-- The names of a directory that is entered start with those of the first one, and the others are
    names that a directory can hold. -/
theorem Visits.exists_append (hsound : f.tree.IsSound) (h : f.Visits root names above place) :
    ∃ more, above = names ++ more ∧ ∀ x ∈ more, IsName x := by
  induction h with
  | @here names place _ =>
      exact ⟨[], (List.append_nil names).symm, fun x hx => absurd hx List.not_mem_nil⟩
  | @into names ns place place' x _ hdir _ ih =>
      rcases ih with ⟨more, rfl, hmore⟩
      refine ⟨x :: more, by rw [List.append_assoc, List.singleton_append], ?_⟩
      have hx := hsound.named_of_find? hdir x
        (List.mem_append_right place (List.mem_singleton_self x))
      exact List.forall_mem_cons.mpr ⟨hx, hmore⟩

/-- Names that a walk comes by start with those of the first directory, and the others, of which
    there is one at least, are names that a directory can hold. -/
theorem Lists.exists_append (hsound : f.tree.IsSound) (h : f.Lists root names ns) :
    ∃ x more, ns = names ++ x :: more ∧ ∀ y ∈ x :: more, IsName y := by
  rcases h with ⟨above, place, y, hthere, hy, rfl⟩
  rcases hthere.exists_append hsound with ⟨more, rfl, hmore⟩
  rcases Tree.mem_names_iff.mp hy with ⟨e, he⟩
  have hname := hsound.named_of_find? he y (List.mem_append_right place (List.mem_singleton_self y))
  rw [List.append_assoc]
  cases more with
  | nil => exact ⟨y, [], rfl, List.forall_mem_singleton.mpr hname⟩
  | cons x more =>
      refine ⟨x, more ++ [y], rfl, ?_⟩
      rw [← List.cons_append, List.forall_mem_append, List.forall_mem_singleton]
      exact ⟨hmore, hname⟩

/-- No file is found twice. -/
theorem nodup_collect (hsound : f.tree.IsSound) (h : collect f root depth names = .ok found) :
    found.Nodup := by
  induction depth generalizing names found with
  | zero => cases h
  | succ n ih =>
      rcases collect_eq_ok h with ⟨rfl, _⟩ | ⟨n', place, own, deeper, hn, _, hown, hdeeper, rfl⟩
      · exact List.nodup_nil
      cases hn
      have hlisted : ((f.tree.names place).mergeSort Text.le).Nodup :=
        (List.mergeSort_perm _ _).nodup_iff.mpr (hsound.nodup_names place)
      rw [Outcome.mapM_eq_ok_iff] at hdeeper
      -- What comes from one name has that name in it, and another one after it.
      have hbelow : ∀ {x : Text} {ds : List (List Text)}, visit f root (collect f root n)
          (names ++ [x]) (f.tree.find? (place ++ [x])) = .ok ds →
          ds.Nodup ∧ ∀ ns ∈ ds, ∃ y more, ns = names ++ x :: y :: more := by
        intro x ds hvisit
        rcases visit_eq_ok hvisit with ⟨_, hcollect⟩ | ⟨_, rfl⟩
        · refine ⟨ih hcollect, fun ns hns => ?_⟩
          rcases ((mem_collect_iff hcollect).mp hns).1.exists_append hsound with ⟨y, more, rfl, _⟩
          exact ⟨y, more, by rw [List.append_assoc, List.singleton_append]⟩
        · exact ⟨List.nodup_nil, fun ns hns => absurd hns List.not_mem_nil⟩
      refine List.nodup_append.mpr ⟨?_, ?_, ?_⟩
      · refine nodup_filesAmong (hlisted.map fun x y hxy => ?_) hown
        exact List.singleton_inj.mp (List.append_cancel_left hxy)
      · refine List.nodup_flatten.mpr ⟨fun ds hds => ?_, ?_⟩
        · rcases (Outcome.mem_iff_of_map_eq hdeeper).mp hds with ⟨x, _, hvisit⟩
          exact (hbelow hvisit).1
        · -- Two of them differ in the name after the first ones.
          have hpairwise : (deeper.map Except.ok).Pairwise fun a b : Except Failure _ =>
              ∀ ds ds', a = .ok ds → b = .ok ds' → List.Disjoint ds ds' := by
            rw [← hdeeper, List.pairwise_map]
            refine hlisted.imp fun {x x'} hne ds ds' hds hds' ns hns hns' => hne ?_
            rcases (hbelow hds).2 ns hns with ⟨y, more, rfl⟩
            rcases (hbelow hds').2 _ hns' with ⟨y', more', heq⟩
            exact (List.cons.inj (List.append_cancel_left heq)).1
          exact (List.pairwise_map.mp hpairwise).imp fun h => h _ _ rfl rfl
      · intro ns hown' ns' hdeeper' heq
        rcases List.mem_map.mp ((mem_filesAmong_iff hown).mp hown').1 with ⟨x, _, rfl⟩
        rcases List.mem_flatten.mp hdeeper' with ⟨ds, hds, hns⟩
        rcases (Outcome.mem_iff_of_map_eq hdeeper).mp hds with ⟨z, _, hvisit⟩
        rcases (hbelow hvisit).2 ns' hns with ⟨y, more, rfl⟩
        have htail := List.append_cancel_left heq
        cases htail

/-- Names below `root` that lead to a source. -/
structure IsFound (f : Files) (root : Path) (names : List Text) : Prop where
  /-- A walk comes by them. -/
  listed : f.Lists root [] names
  /-- The last one is the name of a source. -/
  candidate : isCandidate names = true
  /-- There is a file. -/
  file : f.isFile (root.descend names) = .ok true
  /-- It has a name of its own and is not hidden. -/
  accepted : isAccepted names = true

/-- Sources are discovered by a walk from a directory. -/
theorem sources_eq_ok_iff {sources : List Path} : f.sources root depth = .ok sources ↔
    f.isDir root = .ok true ∧ ∃ found, collect f root depth [] = .ok found ∧
      sources = ((found.filter isAccepted).mergeSort Discovery.le).map root.descend := by
  rw [Files.sources, Outcome.bind_eq_ok_iff]
  constructor
  · -- A root that is no directory is an error.
    rintro ⟨_ | _, hdir, h⟩
    · cases h
    · rcases Outcome.bind_eq_ok_iff.mp h with ⟨found, hfound, h⟩
      exact ⟨hdir, found, hfound, (Outcome.pure_eq_ok_iff.mp h).symm⟩
  · rintro ⟨hdir, found, hfound, rfl⟩
    exact ⟨true, hdir, Outcome.bind_eq_ok_iff.mpr ⟨found, hfound, rfl⟩⟩

/-- How sources are discovered: all names that lead to one, in order. -/
theorem sources_eq_ok (hsound : f.tree.IsSound) {sources : List Path}
    (h : f.sources root depth = .ok sources) :
    ∃ found : List (List Text), f.isDir root = .ok true ∧
      sources = (found.mergeSort Discovery.le).map root.descend ∧ found.Nodup ∧
      ∀ names, names ∈ found ↔ f.IsFound root names := by
  rcases sources_eq_ok_iff.mp h with ⟨hdir, found, hfound, rfl⟩
  refine ⟨found.filter isAccepted, hdir, rfl, (nodup_collect hsound hfound).filter _,
    fun names => ?_⟩
  rw [List.mem_filter, mem_collect_iff hfound]
  constructor
  · rintro ⟨⟨hlisted, hcandidate, hfile⟩, haccepted⟩
    exact ⟨hlisted, hcandidate, hfile, haccepted⟩
  · rintro ⟨hlisted, hcandidate, hfile, haccepted⟩
    exact ⟨⟨hlisted, hcandidate, hfile⟩, haccepted⟩

/-- Names that are listed are names that a directory can hold. -/
theorem IsFound.named (hsound : f.tree.IsSound) (h : f.IsFound root names) :
    ∀ x ∈ names, IsName x := by
  rcases h.listed.exists_append hsound with ⟨x, more, rfl, hnamed⟩
  exact hnamed

/-- Discovered sources lead to different places. -/
theorem apart_of_sources (hsound : f.tree.IsSound) {sources : List Path}
    (h : f.sources root depth = .ok sources) : f.Apart sources := by
  rcases sources_eq_ok hsound h with ⟨found, _, rfl, hnodup, hfound⟩
  have hmem : ∀ names ∈ found.mergeSort Discovery.le, f.IsFound root names :=
    fun names hnames => (hfound names).mp (List.mem_mergeSort.mp hnames)
  have hnodup' := (List.mergeSort_perm found Discovery.le).nodup_iff.mpr hnodup
  generalize found.mergeSort Discovery.le = found at hmem hnodup'
  -- Below one root, places differ as the names do.
  have hinj : ∀ names ∈ found, ∀ names' ∈ found,
      f.placeOf (root.descend names) = f.placeOf (root.descend names') → names = names' := by
    intro names hnames names' hnames' heq
    rw [placeOf_descend f root ((hmem names hnames).named hsound),
      placeOf_descend f root ((hmem names' hnames').named hsound)] at heq
    exact List.append_cancel_left heq
  refine ⟨?_, ?_, ?_⟩
  · rw [List.forall_mem_map]
    intro names hnames
    exact isSource_descend (hmem names hnames).candidate
      fun x hx => ((hmem names hnames).named hsound x hx).2.2
  · rw [List.forall_mem_map]
    intro names hnames
    rw [List.forall_mem_map]
    intro names' hnames' hne heq
    exact hne (congrArg root.descend (hinj names hnames names' hnames' heq))
  · refine List.pairwise_map.mpr (hnodup'.imp_of_mem (fun {names names'} hn hn' hne heq => hne ?_))
    exact hinj names hn names' hn' (congrArg f.placeOf heq)

/-- Discovered sources are files. -/
theorem isFile_of_sources (hsound : f.tree.IsSound) {sources : List Path}
    (h : f.sources root depth = .ok sources) : ∀ s ∈ sources, f.isFile s = .ok true := by
  rcases sources_eq_ok hsound h with ⟨found, _, rfl, _, hfound⟩
  intro s hs
  rcases List.mem_map.mp hs with ⟨names, hnames, rfl⟩
  exact ((hfound names).mp (List.mem_mergeSort.mp hnames)).file

/-- The places of discovered sources have names that a directory can hold. -/
theorem named_of_sources (hl : f.IsLinkless) (hsound : f.tree.IsSound) {sources : List Path}
    (h : f.sources root depth = .ok sources) : ∀ s ∈ sources, ∀ x ∈ f.placeOf s, IsName x := by
  intro s hs
  rcases (isFile_iff hl).mp (isFile_of_sources hsound h s hs) with ⟨b, hspot⟩
  exact hsound.named_of_find? (find?_of_spot hl hspot)

end Files

end DialectBuild
