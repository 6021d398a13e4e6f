import DialectBuild.Proofs.Injecting
import DialectBuild.Proofs.NameOrder
import DialectBuild.Proofs.SourceWalk

/-!
# Files That Look the Same to a Build

What a build sees of the files it starts with. Apart from the sources it reads, it asks where
paths lead, which of them are directories, and which sources and generated headers there are.
Files that agree in this give the same units, the same imports and the same includes, whatever
else is among them and in whatever order a directory lists its entries.

Where an answer may also be an error, as for a name that is too long, only answers are compared:
two questions that are both answered are answered alike.

## Main definitions

* `Files.ImportAlike`: Files among which imports find the same headers.

## Theorems

* `Files.Alike.isDir_eq`, `Files.Alike.isFile_of_isFile`: Questions in files that are alike.
* `Files.Alike.injection_eq`: Includes are added alike.
* `Files.ImportAlike.headersIn_eq`: The same headers are found in a directory.
* `Files.ImportAlike.expansion_eq`: Imports are expanded alike.
* `Files.Alike.sources_eq`: The same sources are discovered.
-/

namespace DialectBuild

namespace Files

variable {f g : Files} {p dir root : Path}

namespace Alike

theorem isDir_of_isDir (h : Alike f g) (hdir : f.isDir p = .ok true) : g.isDir p = .ok true := by
  have hspot := (isDir_iff h.left).mp hdir
  rw [isDir_iff h.right, h.placeOf_eq]
  exact h.spot hspot ((h.dirs _).mp (find?_of_spot h.left hspot))

/-- Two answers whether there is a directory are the same. -/
theorem isDir_eq (h : Alike f g) {b b' : Bool} (hb : f.isDir p = .ok b) (hb' : g.isDir p = .ok b') :
    b = b' := by
  cases b with
  | true => exact Except.ok.inj ((h.isDir_of_isDir hb).symm.trans hb')
  | false =>
      cases b' with
      | true => exact Except.ok.inj (hb.symm.trans (h.symm.isDir_of_isDir hb'))
      | false => rfl

/-- A file that is found in the one is found in the other if there is one. -/
theorem isFile_of_isFile (h : Alike f g) (hfile : f.isFile p = .ok true) {b : Bytes}
    (hb : g.tree.find? (f.placeOf p) = some (.file b)) : g.isFile p = .ok true := by
  rcases (isFile_iff h.left).mp hfile with ⟨_, hspot⟩
  rw [isFile_iff h.right, h.placeOf_eq]
  exact ⟨b, h.spot hspot hb⟩

theorem target_eq (h : Alike f g) (base : Path) (l : Text) :
    Include.target g base l = Include.target f base l := by
  rw [Include.target, Include.target]
  cases includePath? l with
  | none => rfl
  | some path => simp only [h.resolve_eq]

/-- Includes are added alike. -/
theorem injection_eq (h : Alike f g) (base own : Path) (siblings : List Path) (t : Text) :
    Injection.ofText g base own siblings t = Injection.ofText f base own siblings t := by
  have htargets : Include.targets g base t.codeLines = Include.targets f base t.codeLines := by
    rw [Include.targets, Include.targets, funext (h.target_eq base)]
  simp only [Injection.ofText, h.resolve_eq, htargets]

end Alike

/-- The names of the headers in a directory. It is known of everything there whether it is a
    file. -/
theorem headersIn_eq_ok (hl : f.IsLinkless) (hsound : f.tree.IsSound) {headers : List Path}
    (h : f.headersIn dir = .ok headers) :
    ∃ names : List Text, headers = names.map dir.child ∧ names.Pairwise (Text.le · · = true) ∧
      names.Nodup ∧ (∀ x, x ∈ names ↔ x ∈ f.tree.names (f.placeOf dir) ∧
        f.isFile (dir.child x) = .ok true ∧ x.endsWith headerEnding = true) ∧
      ∀ x ∈ f.tree.names (f.placeOf dir), ∃ b, f.isFile (dir.child x) = .ok b := by
  simp only [headersIn, Outcome.bind_eq_ok_iff, Outcome.filterM_eq_ok_iff,
    Outcome.pure_eq_ok_iff] at h
  rcases h with ⟨listed, hlist, _, ⟨q, hq, rfl⟩, rfl⟩
  -- Only a directory is listed, and its names come in order.
  have hlisted : listed = (f.tree.names (f.placeOf dir)).mergeSort Text.le := by
    simp only [list, Outcome.bind_eq_ok_iff, Outcome.pure_eq_ok_iff] at hlist
    rcases hlist with ⟨place, hopen, rfl⟩
    rw [((openDir_iff hl).mp hopen).2.1]
  have hperm : listed.Perm (f.tree.names (f.placeOf dir)) := by
    rw [hlisted]
    exact List.mergeSort_perm _ _
  have hsorted : listed.Pairwise (Text.le · · = true) := by
    rw [hlisted]
    exact Text.pairwise_mergeSort _
  refine ⟨_, rfl, (hsorted.filter _).filter _,
    ((hperm.nodup_iff.mpr (hsound.nodup_names _)).filter _).filter _, fun x => ?_, fun x hx => ?_⟩
  · rw [List.mem_filter, List.mem_filter, hperm.mem_iff, and_assoc]
    refine and_congr_right fun hx => ?_
    rw [hq x (hperm.mem_iff.mpr hx), Except.ok.injEq]
  · exact ⟨_, hq x (hperm.mem_iff.mpr hx)⟩

/-- Files among which imports find the same headers. -/
structure ImportAlike (f g : Files) : Prop extends Alike f g where
  /-- The first tree is one that a file system has. -/
  soundLeft : f.tree.IsSound
  /-- The second one is, too. -/
  soundRight : g.tree.IsSound
  /-- There are generated headers at the same places. -/
  headers : ∀ place x, x.endsWith headerEnding = true →
    ((∃ b, f.tree.find? (place ++ [x]) = some (.file b)) ↔
      ∃ b, g.tree.find? (place ++ [x]) = some (.file b))

namespace ImportAlike

theorem symm (h : ImportAlike f g) : ImportAlike g f :=
  ⟨h.toAlike.symm, h.soundRight, h.soundLeft, fun place x hx => (h.headers place x hx).symm⟩

/-- A header that is listed in the one is listed in the other. -/
theorem header_of_header (h : ImportAlike f g) {x : Text}
    (hx : x ∈ f.tree.names (f.placeOf dir) ∧ f.isFile (dir.child x) = .ok true ∧
      x.endsWith headerEnding = true) :
    x ∈ g.tree.names (g.placeOf dir) ∧ g.isFile (dir.child x) = .ok true ∧
      x.endsWith headerEnding = true := by
  rcases hx with ⟨hnames, hfile, hends⟩
  have hplace := placeOf_child (h.soundLeft.plain_of_mem_names hnames) f dir
  rcases (isFile_iff h.left).mp hfile with ⟨b, hspot⟩
  have hfind := find?_of_spot h.left hspot
  rw [hplace] at hfind
  rcases (h.headers _ x hends).mp ⟨b, hfind⟩ with ⟨b', hfind'⟩
  refine ⟨?_, h.isFile_of_isFile hfile (hplace ▸ hfind'), hends⟩
  rw [h.placeOf_eq, Tree.mem_names_iff]
  exact ⟨_, hfind'⟩

/-- The same headers are found in a directory. -/
theorem headersIn_eq (h : ImportAlike f g) {headers headers' : List Path}
    (hf : f.headersIn dir = .ok headers) (hg : g.headersIn dir = .ok headers') :
    headers = headers' := by
  rcases headersIn_eq_ok h.left h.soundLeft hf with
    ⟨names, rfl, hsorted, hnodup, hmem, _⟩
  rcases headersIn_eq_ok h.right h.soundRight hg with
    ⟨names', rfl, hsorted', hnodup', hmem', _⟩
  have hnames : names = names' := by
    refine eq_of_pairwise_of_mem_iff hsorted hsorted' hnodup hnodup' (fun x => ?_)
      fun _ _ _ _ => Text.le_antisymm
    rw [hmem, hmem']
    exact ⟨h.header_of_header, h.symm.header_of_header⟩
  rw [hnames]

theorem expand_eq (h : ImportAlike f g) {base : Path} {m : Marker} {n : Nat} {ending : Text}
    {x x' : ExpandedLine} (hf : Marker.expand f base m n ending = .ok x)
    (hg : Marker.expand g base m n ending = .ok x') : x = x' := by
  unfold Marker.expand at hf hg
  dsimp only at hf hg
  rw [Outcome.bind_eq_ok_iff] at hf hg
  rcases hf with ⟨b, hb, hf⟩
  rcases hg with ⟨b', hb', hg⟩
  have heq := h.isDir_eq hb hb'
  subst heq
  cases b with
  -- No module there: the line that stands for it does not read the files.
  | false => exact Except.ok.inj (hf.symm.trans hg)
  | true =>
      -- A module there: its headers are the only other thing that is asked of the files.
      rw [Bool.not_true, if_neg Bool.false_ne_true, Outcome.bind_eq_ok_iff] at hf hg
      rcases hf with ⟨headers, hheaders, hf⟩
      rcases hg with ⟨headers', hheaders', hg⟩
      have heq := h.headersIn_eq hheaders hheaders'
      subst heq
      exact Except.ok.inj (hf.symm.trans hg)

theorem ofLine_eq (h : ImportAlike f g) {base : Path} {known : List Place} {n : Nat}
    {source : Text} {x x' : ExpandedLine}
    (hf : ExpandedLine.ofLine f base known n source = .ok x)
    (hg : ExpandedLine.ofLine g base known n source = .ok x') : x = x' := by
  unfold ExpandedLine.ofLine at hf hg
  dsimp only at hf hg
  rcases hm : Marker.ofLine? source.splitEnding.1 with _ | m
  · rw [hm] at hf hg
    exact Except.ok.inj (hf.symm.trans hg)
  · rw [hm] at hf hg
    dsimp only at hf hg
    by_cases hblank : m.modulePath.all Symbol.isBlank = true
    · rw [if_pos hblank] at hf hg
      exact Except.ok.inj (hf.symm.trans hg)
    · rw [if_neg hblank, Outcome.bind_eq_ok_iff] at hf hg
      rcases hf with ⟨place, hplace, hf⟩
      rcases hg with ⟨place', hplace', hg⟩
      -- Both agree on the place that is named, and so on whether it is known.
      have heq : place = place' :=
        Except.ok.inj (hplace.symm.trans ((h.resolve_eq _).symm.trans hplace'))
      subst heq
      by_cases hknown : known.contains place = true
      · rw [if_pos hknown] at hf hg
        exact Except.ok.inj (hf.symm.trans hg)
      · rw [if_neg hknown, Outcome.bind_eq_ok_iff] at hf hg
        rcases hf with ⟨y, hy, hf⟩
        rcases hg with ⟨y', hy', hg⟩
        have heq := h.expand_eq hy hy'
        subst heq
        exact Except.ok.inj (hf.symm.trans hg)

/-- Lines that are expanded without failure in both are expanded alike. -/
theorem ofLines_eq (h : ImportAlike f g) {base : Path} {known : List Place} {n : Nat}
    {ls : List Text} (hf : (Expansion.ofLines f base known n ls).failure = none)
    (hg : (Expansion.ofLines g base known n ls).failure = none) :
    Expansion.ofLines g base known n ls = Expansion.ofLines f base known n ls := by
  induction ls generalizing known n with
  | nil => rfl
  | cons source ls ih =>
      rw [Expansion.ofLines] at hf hg ⊢
      rw [Expansion.ofLines]
      rcases hline : ExpandedLine.ofLine f base known n source with e | x
      · rw [hline] at hf
        cases hf
      rcases hline' : ExpandedLine.ofLine g base known n source with e | x'
      · rw [hline'] at hg
        cases hg
      -- The first lines agree, and with them what the rest takes as known.
      have heq := h.ofLine_eq hline hline'
      subst heq
      rw [hline] at hf
      rw [hline'] at hg
      dsimp only at hf hg ⊢
      rw [ih hf hg]

/-- Imports are expanded alike. -/
theorem expansion_eq (h : ImportAlike f g) {base : Path} {t : Text}
    (hf : (Expansion.ofText f base t).failure = none)
    (hg : (Expansion.ofText g base t).failure = none) :
    Expansion.ofText g base t = Expansion.ofText f base t :=
  h.ofLines_eq hf hg

end ImportAlike

/-- A directory that can be opened in the one can be opened in the other. -/
theorem Alike.openDir (h : Alike f g) {place : Place} (hopen : f.openDir p = .ok place) :
    g.openDir p = .ok place := by
  rw [openDir_iff h.left] at hopen
  rw [openDir_iff h.right, h.placeOf_eq, Tree.isUnlisted_congr h.rights]
  exact ⟨h.isDir_of_isDir hopen.1, hopen.2⟩

/-- A walk enters the same directories. -/
theorem Alike.visits (h : Alike f g) {names above : List Text} {place : Place}
    (hthere : f.Visits root names above place) : g.Visits root names above place := by
  induction hthere with
  | here hopen => exact .here (h.openDir hopen)
  | into hopen hdir _ ih => exact .into (h.openDir hopen) ((h.dirs _).mp hdir) ih

/-- Names that lead to a source in the one lead to it in the other. -/
theorem Alike.isFound_of_isFound (h : Alike f g) (hsound : f.tree.IsSound)
    (hsame : ∀ place x, x.endsWith sourceEnding = true →
      g.tree.find? (place ++ [x]) = f.tree.find? (place ++ [x])) {names : List Text}
    (hnames : f.IsFound root names) : g.IsFound root names := by
  have hplace := placeOf_descend f root (hnames.named hsound)
  rcases hnames with ⟨⟨above, place, x, hthere, hx, rfl⟩, hcandidate, hfile, haccepted⟩
  rcases (isFile_iff h.left).mp hfile with ⟨b, hspot⟩
  have hfind := find?_of_spot h.left hspot
  have hends : x.endsWith sourceEnding = true := by
    rw [Discovery.isCandidate, List.getLast?_concat] at hcandidate
    exact hcandidate
  -- The last name is that of a source, so the other files have the same entry there.
  refine ⟨⟨above, place, x, h.visits hthere, ?_, rfl⟩, hcandidate, ?_, haccepted⟩
  · rw [Tree.mem_names_iff] at hx ⊢
    rw [hsame place x hends]
    exact hx
  · refine h.isFile_of_isFile hfile (b := b) ?_
    rw [hplace, ← List.append_assoc] at hfind ⊢
    rw [hsame _ _ hends]
    exact hfind

/-- The same sources are discovered. -/
theorem Alike.sources_eq (h : Alike f g) (hsound : f.tree.IsSound) (hsound' : g.tree.IsSound)
    (hsame : ∀ place x, x.endsWith sourceEnding = true →
      g.tree.find? (place ++ [x]) = f.tree.find? (place ++ [x])) {depth depth' : Nat}
    {sources sources' : List Path} (hf : f.sources root depth = .ok sources)
    (hg : g.sources root depth' = .ok sources') : sources = sources' := by
  rcases sources_eq_ok hsound hf with ⟨found, _, rfl, hnodup, hfound⟩
  rcases sources_eq_ok hsound' hg with ⟨found', _, rfl, hnodup', hfound'⟩
  -- The two lists have the same members; sorting makes them the same list.
  have hmem : ∀ names, names ∈ found ↔ names ∈ found' := by
    intro names
    rw [hfound, hfound']
    exact ⟨h.isFound_of_isFound hsound hsame,
      h.symm.isFound_of_isFound hsound' fun place x hx => (hsame place x hx).symm⟩
  rw [Discovery.mergeSort_eq hnodup hnodup' hmem fun names hnames x hx =>
    ⟨(((hfound names).mp hnames).named hsound x hx).1,
      (((hfound names).mp hnames).named hsound x hx).2.2⟩]

end Files

end DialectBuild
