import DialectBuild.Proofs.AlikeFiles

/-!
# Paths Among Files That Are Alike

Where a path leads depends on the directories on the way and on what is at its end. Files that
have the same directories therefore agree on which paths lead somewhere, if these end in a name.
A path that leads nowhere may fail differently, for there may be nothing in its way in the one and
a file in the other, but a question about it is answered with no in both.

So what could be done at a path among the one files can be tried among the others, and what could
be discovered can be discovered.

## Main definitions

* `Path.EndsPlain`: A path that ends in a name.

## Theorems

* `Files.walk_cases_of_sameDirs`: A walk among the same directories.
* `Files.Alike.spot_cases`: A path leads somewhere in both or in neither.
* `Files.Alike.exists_ask`: A question that is answered in the one is answered in the other.
* `Files.Alike.exists_sources`: Discovery that succeeds in the one succeeds in the other.
-/

namespace DialectBuild

/-- The path ends in a name, and not in dots. -/
def Path.EndsPlain (p : Path) : Prop :=
  ∃ (q : Path) (x : Text), p = q.child x ∧ x ≠ Path.up ∧ x ≠ Path.here

theorem Path.endsPlain_child {q : Path} {e x : Text} (he : ∃ y ∈ e, y ≠ '.') (h : e <:+ x) :
    (q.child x).EndsPlain :=
  ⟨q, x, rfl, plain_of_suffix he h⟩

namespace Files

/-- The reasons for which a path leads nowhere. -/
def leadsNowhere : List Errno :=
  [.noEntry, .notDirectory]

section Walking

variable {t t' : Tree} {follow follow' : Bool} {links links' : Nat} {here : Place} {x : Text}
  {rest : List Text}

/-- A name that leads into no directory leads nowhere if more names follow. -/
theorem walk_past (hlink : ∀ place target, t.find? place ≠ some (.link target))
    (hdir : t.find? here = some .dir) (hx : IsStep x)
    (hnext : t.find? (here ++ [x]) ≠ some .dir) (hne : rest ≠ []) :
    ∃ e ∈ leadsNowhere, walk t follow links here (x :: rest) = .error e := by
  rcases hfind : t.find? (here ++ [x]) with _ | e
  · exact ⟨.noEntry, by decide, walk_missing hdir hx hfind hne⟩
  · rcases List.exists_cons_of_ne_nil hne with ⟨y, more, rfl⟩
    rw [walk_into hdir hx hfind fun target he => hlink _ target (he ▸ hfind)]
    exact ⟨.notDirectory, by decide, walk_of_not_dir hnext⟩

/-- A walk to a name among the same directories ends at the same place in both trees, or it fails
    in both. -/
theorem walk_cases_of_sameDirs (hlink : ∀ place target, t.find? place ≠ some (.link target))
    (hlink' : ∀ place target, t'.find? place ≠ some (.link target))
    (hdirs : ∀ place, t.find? place = some .dir ↔ t'.find? place = some .dir)
    (hx : x ≠ Path.up ∧ x ≠ Path.here) (here : Place) (names : List Text) :
    (walk t follow links here (names ++ [x]) = .ok (t.spotAt (extendPlace here (names ++ [x]))) ∧
      walk t' follow' links' here (names ++ [x]) =
        .ok (t'.spotAt (extendPlace here (names ++ [x])))) ∨
    ∃ e e', walk t follow links here (names ++ [x]) = .error e ∧
      walk t' follow' links' here (names ++ [x]) = .error e' ∧
      (e' = e ∨ e ∈ leadsNowhere ∧ e' ∈ leadsNowhere) := by
  induction names generalizing here with
  | nil =>
      rw [List.nil_append, extendPlace_name hx.1 hx.2]
      by_cases hdir : t.find? here = some .dir
      · have hdir' := (hdirs here).mp hdir
        by_cases hlong : maxName < x.byteLength
        · exact Or.inr ⟨_, _, walk_long hdir hx hlong, walk_long hdir' hx hlong, Or.inl rfl⟩
        · have hstep : IsStep x := ⟨hx.1, hx.2, Nat.le_of_not_lt hlong⟩
          exact Or.inl ⟨walk_last hdir hstep (hlink _), walk_last hdir' hstep (hlink' _)⟩
      · have hdir' := fun h => hdir ((hdirs here).mpr h)
        exact Or.inr ⟨_, _, walk_of_not_dir hdir, walk_of_not_dir hdir', Or.inl rfl⟩
  | cons y names ih =>
      rw [List.cons_append]
      by_cases hdir : t.find? here = some .dir
      · have hdir' := (hdirs here).mp hdir
        by_cases hup : y = Path.up
        · rw [hup, walk_up hdir, walk_up hdir', extendPlace_up]
          exact ih here.dropLast
        by_cases hdot : y = Path.here
        · rw [hdot, walk_dot hdir, walk_dot hdir', extendPlace_dot]
          exact ih here
        rw [extendPlace_name hup hdot]
        by_cases hlong : maxName < y.byteLength
        · exact Or.inr ⟨_, _, walk_long hdir ⟨hup, hdot⟩ hlong,
            walk_long hdir' ⟨hup, hdot⟩ hlong, Or.inl rfl⟩
        have hstep : IsStep y := ⟨hup, hdot, Nat.le_of_not_lt hlong⟩
        by_cases hnext : t.find? (here ++ [y]) = some .dir
        · have hnot : ∀ target, Entry.dir ≠ .link target := fun target h => (by cases h)
          rw [walk_into hdir hstep hnext hnot, walk_into hdir' hstep ((hdirs _).mp hnext) hnot]
          exact ih (here ++ [y])
        · -- There may be nothing in the way in one tree, and a file in the other.
          have hnext' := fun h => hnext ((hdirs _).mpr h)
          have hne : names ++ [x] ≠ [] :=
            List.append_ne_nil_of_right_ne_nil _ (List.cons_ne_nil _ _)
          rcases walk_past hlink hdir hstep hnext hne with ⟨e, he, hwalk⟩
          rcases walk_past hlink' hdir' hstep hnext' hne with ⟨e', he', hwalk'⟩
          exact Or.inr ⟨e, e', hwalk, hwalk', Or.inr ⟨he, he'⟩⟩
      · have hdir' := fun h => hdir ((hdirs here).mpr h)
        exact Or.inr ⟨_, _, walk_of_not_dir hdir, walk_of_not_dir hdir', Or.inl rfl⟩

end Walking

namespace Alike

variable {f g : Files} {p root : Path} {follow follow' : Bool}

/-- A path that ends in a name leads to its place in both, or it leads nowhere in both. -/
theorem spot_cases (h : Alike f g) (hp : p.EndsPlain) :
    (f.spot follow p = .ok (f.tree.spotAt (f.placeOf p)) ∧
      g.spot follow' p = .ok (g.tree.spotAt (f.placeOf p))) ∨
    ∃ e e', f.spot follow p = .error e ∧ g.spot follow' p = .error e' ∧
      (e' = e ∨ meansNo e = true ∧ meansNo e' = true) := by
  have hstart : g.start p = f.start p := by
    rw [start, start, h.home]
  unfold Files.spot
  by_cases hnull : p.text.contains (.char '\x00') = true
  · exact Or.inr ⟨_, _, if_pos hnull, if_pos hnull, Or.inl rfl⟩
  rw [if_neg hnull, if_neg hnull]
  by_cases hlong : maxPath ≤ p.text.byteLength
  · exact Or.inr ⟨_, _, if_pos hlong, if_pos hlong, Or.inl rfl⟩
  rw [if_neg hlong, if_neg hlong, hstart, placeOf]
  rcases hp with ⟨q, x, hpq, hx⟩
  have hparts : p.parts = q.parts ++ [x] := hpq ▸ rfl
  rw [hparts]
  -- The reasons may differ where both walks fail, but then both of them mean no.
  rcases walk_cases_of_sameDirs h.left h.right h.dirs hx (f.start p) q.parts with
    ⟨hwalk, hwalk'⟩ | ⟨e, e', hwalk, hwalk', hsame⟩
  · rw [hwalk, hwalk']
    exact Or.inl ⟨rfl, rfl⟩
  · rw [hwalk, hwalk']
    have hno : ∀ e ∈ leadsNowhere, meansNo (refuse e p) = true := by
      rw [leadsNowhere, List.forall_mem_cons, List.forall_mem_singleton]
      exact ⟨rfl, rfl⟩
    refine Or.inr ⟨_, _, rfl, rfl, ?_⟩
    rcases hsame with rfl | ⟨he, he'⟩
    · exact Or.inl rfl
    · exact Or.inr ⟨hno e he, hno e' he'⟩

/-- A path that leads somewhere in the one leads there in the other. -/
theorem spot_of_ok (h : Alike f g) (hp : p.EndsPlain) {s : Spot} (hspot : f.spot follow p = .ok s) :
    g.spot follow' p = .ok (g.tree.spotAt (f.placeOf p)) := by
  rcases h.spot_cases hp with ⟨_, hspot'⟩ | ⟨e, _, he, _⟩
  · exact hspot'
  · rw [hspot] at he
    cases he

/-- A question that is answered in the one is answered in the other. -/
theorem exists_ask (h : Alike f g) (hp : p.EndsPlain) {question : Entry → Bool} {b : Bool}
    (hb : f.ask p question = .ok b) : ∃ b', g.ask p question = .ok b' := by
  rw [ask] at hb ⊢
  rcases h.spot_cases hp with ⟨_, hspot'⟩ | ⟨e, e', hspot, hspot', hsame⟩
  · rw [hspot']
    rcases g.tree.spotAt (f.placeOf p) with ⟨place, e⟩ | place
    · exact ⟨_, rfl⟩
    · exact ⟨_, rfl⟩
  · rw [hspot] at hb
    rw [hspot']
    dsimp only at hb ⊢
    rcases hsame with rfl | ⟨_, hno⟩
    · exact ⟨b, hb⟩
    · exact ⟨false, if_pos hno⟩

/-- The path of a candidate ends in a name. -/
theorem endsPlain_descend {names : List Text} (h : Discovery.isCandidate names = true) :
    (root.descend names).EndsPlain := by
  rcases (Option.any_eq_true _ _).mp h with ⟨x, hlast, hends⟩
  rcases List.getLast?_eq_some_iff.mp hlast with ⟨before, rfl⟩
  have hchild : root.descend (before ++ [x]) = (root.descend before).child x := by
    rw [Path.descend, Path.descend, Path.child, List.append_assoc]
  rw [hchild]
  exact Path.endsPlain_child (by decide : ∃ y ∈ sourceEnding, y ≠ '.')
    (List.isSuffixOf_iff_suffix.mp hends)

/-- A directory that is denied in the one is denied in the other. -/
theorem openDir_denied (h : Alike f g)
    (hdenied : ∃ e, f.openDir p = .error e ∧ Discovery.isDenied e = true) :
    ∃ e, g.openDir p = .error e ∧ Discovery.isDenied e = true := by
  rw [openDir_denied_iff] at hdenied ⊢
  rcases hdenied with ⟨place, hspot, hlisted⟩
  refine ⟨_, h.spot hspot ((h.dirs _).mp (find?_of_spot h.left hspot)), ?_⟩
  have hplace := (Tree.spotAt_eq_present_iff.mp (spot_of_isLinkless h.left hspot).symm).1
  rw [Tree.isUnlisted_congr h.rights, hplace]
  exact hlisted

/-- Names about which it could be asked in the one can be asked about in the other. -/
theorem exists_filesAmong (h : Alike f g) {listed listed' own : List (List Text)}
    (hsub : ∀ names ∈ listed', Discovery.isCandidate names = true → names ∈ listed)
    (hown : Discovery.filesAmong f root listed = .ok own) :
    ∃ own', Discovery.filesAmong g root listed' = .ok own' := by
  rcases Outcome.filterM_eq_ok_iff.mp hown with ⟨q, hq, _⟩
  have hasked : ∀ names ∈ listed'.filter Discovery.isCandidate,
      ∃ b, g.isFile (root.descend names) = .ok b := by
    intro names hnames
    rcases List.mem_filter.mp hnames with ⟨hlisted, hcandidate⟩
    exact h.exists_ask (endsPlain_descend hcandidate)
      (hq names (List.mem_filter.mpr ⟨hsub names hlisted hcandidate, hcandidate⟩))
  choose! answer hanswer using hasked
  exact ⟨_, Outcome.filterM_eq_ok_iff.mpr ⟨answer, hanswer, rfl⟩⟩

/-- A walk that succeeds in the one succeeds in the other, if they have the same at all names of
    sources. -/
theorem exists_collect (h : Alike f g)
    (hsame : ∀ place x, x.endsWith sourceEnding = true →
      g.tree.find? (place ++ [x]) = f.tree.find? (place ++ [x])) {depth : Nat}
    {names : List Text} {found : List (List Text)}
    (hfound : Discovery.collect f root depth names = .ok found) :
    ∃ found', Discovery.collect g root depth names = .ok found' := by
  induction depth generalizing names found with
  | zero => cases hfound
  | succ n ih =>
      rcases collect_eq_ok hfound with ⟨_, hdenied⟩ |
        ⟨n', place, own, deeper, hn, hopen, hown, hdeeper, _⟩
      · rcases h.openDir_denied hdenied with ⟨e, hopen, he⟩
        refine ⟨[], ?_⟩
        rw [Discovery.collect, hopen]
        exact if_pos he
      cases hn
      rw [Outcome.mapM_eq_ok_iff] at hdeeper
      -- All candidates in the second were candidates in the first, and asked about there.
      have hown' : ∃ own', Discovery.filesAmong g root
          (((g.tree.names place).mergeSort Text.le).map fun x => names ++ [x]) = .ok own' := by
        refine h.exists_filesAmong (fun ns hns hcandidate => ?_) hown
        rw [List.mem_map] at hns ⊢
        rcases hns with ⟨x, hx, rfl⟩
        rw [List.mem_mergeSort, Tree.mem_names_iff, hsame place x ?_, ← Tree.mem_names_iff] at hx
        · exact ⟨x, List.mem_mergeSort.mpr hx, rfl⟩
        · rw [Discovery.isCandidate, List.getLast?_concat] at hcandidate
          exact hcandidate
      have hvisit : ∀ x ∈ (g.tree.names place).mergeSort Text.le, ∃ ds,
          Discovery.visit g root (Discovery.collect g root n) (names ++ [x])
            (g.tree.find? (place ++ [x])) = .ok ds := by
        intro x hx
        rcases hfind : g.tree.find? (place ++ [x]) with _ | ⟨b | _ | target⟩
        · exact ⟨[], rfl⟩
        · exact ⟨[], rfl⟩
        · have hdir := (h.dirs _).mpr hfind
          rcases Outcome.exists_ok_of_map_eq hdeeper x
            (List.mem_mergeSort.mpr (Tree.mem_names_iff.mpr ⟨_, hdir⟩)) with ⟨ds, hds⟩
          rcases visit_eq_ok hds with ⟨_, hcollect⟩ | ⟨hnot, _⟩
          · exact ih hcollect
          · exact absurd hdir hnot
        · exact absurd hfind (h.right _ target)
      rcases hown' with ⟨own', hown'⟩
      rcases Outcome.exists_map_eq_of_forall hvisit with ⟨deeper', hdeeper'⟩
      refine ⟨own' ++ deeper'.flatten, ?_⟩
      rw [Discovery.collect, h.openDir hopen]
      simp only [Outcome.bind_eq_ok_iff, Outcome.pure_eq_ok_iff, Outcome.mapM_eq_ok_iff]
      exact ⟨own', hown', deeper', hdeeper', rfl⟩

/-- Discovery that succeeds in the one succeeds in the other, if they have the same at all names
    of sources. -/
theorem exists_sources (h : Alike f g)
    (hsame : ∀ place x, x.endsWith sourceEnding = true →
      g.tree.find? (place ++ [x]) = f.tree.find? (place ++ [x])) {depth : Nat}
    {sources : List Path} (hsources : f.sources root depth = .ok sources) :
    ∃ sources', g.sources root depth = .ok sources' := by
  rcases sources_eq_ok_iff.mp hsources with ⟨hdir, found, hfound, _⟩
  rcases h.exists_collect hsame hfound with ⟨found', hfound'⟩
  exact ⟨_, sources_eq_ok_iff.mpr ⟨h.isDir_of_isDir hdir, found', hfound', rfl⟩⟩

end Alike

end Files

end DialectBuild
