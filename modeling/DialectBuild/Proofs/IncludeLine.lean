import DialectBuild.Include.Injection
import DialectBuild.Proofs.Naming
import DialectBuild.Proofs.SettledText

/-!
# What an Include Line Names

The lines that are read as includes, and where they lead. A line names a path exactly if it
starts with a certain opening, which goes up to the closing quote and has no line end in it.
What follows the opening does not matter, so a line names the same path when it is given a
line end.

An include line that is written for a header in some directory is read back as that header:
its name is taken as a path seen from the directory, and leads to where the header is.

## Main definitions

* `Include.IsOpening`: The part of an include line up to the closing quote.
* `Include.IsListed`: A header that an include line in some directory can name.
* `Include.Reaches`: A header that one of some lines leads to.
* `Text.IsEnding`: A line end of code.

## Theorems

* `includePath?_eq_some_iff`: The lines that name a path.
* `Include.target_append`: A line end does not change where a line leads.
* `Include.target_line`: A written include line leads to its header.
* `Include.isListed_of_headersBeside`: Include lines can name the headers of a directory.
-/

namespace DialectBuild

namespace Text

/-- A line end of code: a line feed, with or without a carriage return before it. -/
def IsEnding (e : Text) : Prop :=
  e = "\n" ∨ e = "\r\n"

theorem IsEnding.isLineEnd {e : Text} (h : IsEnding e) : ∀ x ∈ e, x.isLineEnd = true := by
  rcases h with rfl | rfl
  · decide
  · decide

theorem IsEnding.noFeed_dropLast {e : Text} (h : IsEnding e) : .char '\n' ∉ e.dropLast := by
  rcases h with rfl | rfl
  · decide
  · decide

theorem IsEnding.isEnded_append {e : Text} (h : IsEnding e) (t : Text) : IsEnded (t ++ e) := by
  rcases h with rfl | rfl
  · exact (isEnded_append_iff (List.cons_ne_nil _ _)).mpr rfl
  · exact (isEnded_append_iff (List.cons_ne_nil _ _)).mpr rfl

theorem isEnding_endingInUse (lines : List Text) : IsEnding (endingInUse lines) := by
  rw [endingInUse]
  split
  · split
    · exact Or.inr rfl
    · exact Or.inl rfl
  · exact Or.inl rfl

theorem endsWith_feed_iff {t : Text} : t.endsWith "\n" = true ↔ IsEnded t := by
  rw [endsWith, List.isSuffixOf_iff_suffix, IsEnded]
  constructor
  · rintro ⟨s, rfl⟩
    exact List.getLast?_concat
  · intro h
    rcases List.getLast?_eq_some_iff.mp h with ⟨s, rfl⟩
    exact List.suffix_append s _

end Text

open Text

/-- The part of an include line up to the closing quote. -/
def Include.IsOpening (path opening : Text) : Prop :=
  path ≠ [] ∧ (∀ x ∈ path, Marker.isPathSymbol x = true) ∧
    ∃ indent gap between : Text, IsBlankRun indent ∧ IsBlankRun gap ∧ between ≠ [] ∧
      IsBlankRun between ∧
      opening = indent ++ ("#" ++ (gap ++ ("include" ++ (between ++ ("\"" ++ (path ++ "\""))))))

theorem Include.IsOpening.noLineEnd {path opening : Text} (h : Include.IsOpening path opening) :
    NoLineEnd opening := by
  rcases h with ⟨_, hpath, indent, gap, between, hi, hg, _, hb, rfl⟩
  simp only [noLineEnd_append]
  exact ⟨noLineEnd_of_isBlankRun hi, by decide, noLineEnd_of_isBlankRun hg, by decide,
    noLineEnd_of_isBlankRun hb, by decide, Marker.noLineEnd_of_isPathSymbol hpath, by decide⟩

/-- The symbols of a path end at the closing quote. -/
theorem takeWhile_isPathSymbol {path : Text} (hpath : ∀ x ∈ path, Marker.isPathSymbol x = true)
    (r : Text) :
    (path ++ ("\"" ++ r)).takeWhile Marker.isPathSymbol = path ∧
      (path ++ ("\"" ++ r)).dropWhile Marker.isPathSymbol = "\"" ++ r := by
  have hquote : ¬ Marker.isPathSymbol (.char '\x22') = true := by decide
  constructor
  · rw [List.takeWhile_append_of_pos hpath]
    exact List.append_right_eq_self.mpr (List.takeWhile_cons_of_neg hquote)
  · rw [List.dropWhile_append_of_pos hpath]
    exact List.dropWhile_cons_of_neg hquote

/-- A line names a path exactly if it starts with an opening for it. -/
theorem includePath?_eq_some_iff {line path : Text} :
    includePath? line = some path ↔ ∃ opening r, Include.IsOpening path opening ∧
      line = opening ++ r := by
  constructor
  -- Reading a line cuts it into the parts of an opening.
  · intro h
    simp only [includePath?, bind, Option.bind_eq_some_iff, skip?_eq_some_iff,
      skipSomeBlanks?_eq_some_iff, pure, Option.some.injEq] at h
    rcases h with ⟨t, ht, t', ht', u, ⟨_, between, hbne, hb, hbetween⟩, v, hv, r, hr, _, hne, hpath⟩
    rcases exists_skipBlanks line with ⟨indent, hi, hline⟩
    rcases exists_skipBlanks t with ⟨gap, hg, hgap⟩
    have hsplit : v = path ++ ("\"" ++ r) := by
      rw [← hpath, ← hr, List.takeWhile_append_dropWhile]
    refine ⟨_, r, ⟨?_, ?_, indent, gap, between, hi, hg, hbne, hb, rfl⟩, ?_⟩
    · intro hempty
      rw [hpath, hempty] at hne
      cases hne
    · rw [← hpath]
      exact List.all_eq_true.mp List.all_takeWhile
    · rw [hline, ht, hgap, ht', hbetween, hv, hsplit]
      simp only [List.append_assoc]
  -- An opening is read part by part, and no part can swallow the start of the next.
  · rintro ⟨_, r, ⟨hne, hpath, indent, gap, between, hi, hg, hbne, hb, rfl⟩, rfl⟩
    rcases takeWhile_isPathSymbol hpath r with ⟨htake, hdrop⟩
    have hsign : ∀ t, StartsDark ("#" ++ t) := fun _ => startsDark_cons.mpr rfl
    have hword : ∀ t, StartsDark ("include" ++ t) := fun _ => startsDark_cons.mpr rfl
    have hquote : ∀ t, StartsDark ("\"" ++ t) := fun _ => startsDark_cons.mpr rfl
    simp only [List.append_assoc]
    rw [includePath?, skipBlanks_append hi (hsign _), skip?_append]
    dsimp only [bind, Option.bind]
    rw [skipBlanks_append hg (hword _), skip?_append]
    dsimp only
    rw [skipSomeBlanks?_eq_some_iff.mpr ⟨hquote _, between, hbne, hb, rfl⟩]
    dsimp only
    rw [skip?_append]
    dsimp only
    rw [hdrop, htake, skip?_append]
    dsimp only
    rw [List.isEmpty_eq_false_iff.mpr hne]
    rfl

/-- A line names the same path when it is given line ends, which no opening has. -/
theorem includePath?_append (line : Text) {e : Text} (he : ∀ x ∈ e, x.isLineEnd = true) :
    includePath? (line ++ e) = includePath? line := by
  have hiff : ∀ path, includePath? (line ++ e) = some path ↔ includePath? line = some path := by
    intro path
    rw [includePath?_eq_some_iff, includePath?_eq_some_iff]
    constructor
    · rintro ⟨opening, r, hopening, heq⟩
      -- The opening does not reach into the line ends, since it has none.
      rcases List.append_eq_append_iff.mp heq with ⟨a, ha, hae⟩ | ⟨a, ha, _⟩
      · have hnil : a = [] := by
          refine List.eq_nil_iff_forall_not_mem.mpr (fun x hx => ?_)
          have hend := he x (hae ▸ List.mem_append_left r hx)
          rw [hopening.noLineEnd x (ha ▸ List.mem_append_right line hx)] at hend
          cases hend
        rw [hnil, List.append_nil] at ha
        exact ⟨opening, [], hopening, by rw [List.append_nil, ha]⟩
      · exact ⟨opening, a, hopening, ha⟩
    · rintro ⟨opening, r, hopening, rfl⟩
      exact ⟨opening, r ++ e, hopening, List.append_assoc opening r e⟩
  exact Option.ext hiff

namespace Include

/-- A header that an include line in the directory `base` can name. -/
structure IsListed (base header : Path) : Prop where
  /-- It is in the directory. -/
  inside : base.child header.name = header
  /-- Its name is kept when it is read as a path. -/
  part : Path.isPart header.name = true
  /-- Its name is one part. -/
  noSlash : .char '/' ∉ header.name
  /-- Its name can stand between quotes. -/
  quotable : header.IsQuotable

/-- One of the lines leads to where the header is. -/
def Reaches (f : Files) (base : Path) (lines : List Text) (header : Path) : Prop :=
  ∃ place, f.resolve header = .ok place ∧ ∃ l ∈ lines, target f base l = .ok (some place)

theorem target_append (f : Files) (base : Path) (l : Text) {e : Text}
    (he : ∀ x ∈ e, x.isLineEnd = true) : target f base (l ++ e) = target f base l := by
  rw [target, target, includePath?_append l he]

theorem includePath?_line {header : Path} (hq : header.IsQuotable) (hne : header.name ≠ [])
    (ending : Text) : includePath? (line header ending) = some header.name := by
  refine includePath?_eq_some_iff.mpr ⟨_, ending,
    ⟨hne, Path.isPathSymbol_of_isQuotable hq, [], [], " ", ?_, ?_, by decide, ?_, rfl⟩, ?_⟩
  · exact fun x hx => absurd hx List.not_mem_nil
  · exact fun x hx => absurd hx List.not_mem_nil
  · exact fun x hx => List.mem_singleton.mp hx ▸ rfl
  · simp only [line, List.append_assoc]
    rfl

/-- A written include line leads to its header. -/
theorem target_line {f : Files} {base header : Path} (h : IsListed base header) {place : Place}
    (hplace : f.resolve header = .ok place) (ending : Text) :
    target f base (line header ending) = .ok (some place) := by
  have hne : header.name ≠ [] := by
    intro hempty
    have hpart := h.part
    rw [hempty] at hpart
    cases hpart
  rw [target, includePath?_line h.quotable hne]
  dsimp only
  rw [Path.join_ofText base h.part h.noSlash, h.inside, hplace]
  rfl

theorem isWritten_line {header : Path} (hname : NoLineEnd header.name) :
    NoLineEnd ("#include \"" ++ header.name ++ "\"") ∧
      IsWritten ("#include \"" ++ header.name ++ "\"") := by
  constructor
  · simp only [noLineEnd_append]
    exact ⟨⟨by decide, hname⟩, by decide⟩
  · refine ⟨[], "#include", " \"" ++ header.name ++ "\"", ?_, Or.inl rfl, ?_⟩
    · exact fun x hx => absurd hx List.not_mem_nil
    · simp only [List.append_assoc]
      rfl

/-- A written include line is one line, ended and settled. -/
theorem isSettled_line {header : Path} (hname : NoLineEnd header.name) {ending : Text}
    (he : IsEnding ending) : IsSettled (line header ending) :=
  isSettled_append_lineEnds (isWritten_line hname).1 (isWritten_line hname).2 he.isLineEnd
    he.noFeed_dropLast

/-- An include line in a directory can name the header of a unit there. -/
theorem isListed_header (base : Path) {source : Path} (hslash : .char '/' ∉ source.name)
    (hq : source.IsQuotable) : IsListed base (base.child (source.name ++ ".h")) := by
  have hname := Path.name_child base (source.name ++ ".h")
  refine ⟨by rw [hname], ?_, ?_, ?_⟩
  · rw [hname]
    exact isPart_append_header source.name
  · rw [hname, List.mem_append, not_or]
    exact ⟨hslash, by decide⟩
  · rw [Path.IsQuotable, hname, List.forall_mem_append]
    exact ⟨hq, by decide⟩

/-- The own header of a unit and those beside it can be named by include lines. -/
theorem isListed_of_headersBeside {source : Path} {sources siblings : List Path} {a : Artifacts}
    (hs : headersBeside source sources = .ok siblings) (ha : Artifacts.ofSource source = .ok a)
    (hslash : ∀ s ∈ source :: sources, .char '/' ∉ s.name)
    (hq : ∀ s ∈ source :: sources, s.IsQuotable) :
    ∀ h ∈ a.header :: siblings, IsListed source.parent h := by
  rcases List.forall_mem_cons.mp hslash with ⟨hslash, hslashes⟩
  rcases List.forall_mem_cons.mp hq with ⟨hq, hqs⟩
  rcases Artifacts.ofSource_eq_ok_iff.mp ha with ⟨_, rfl⟩
  refine List.forall_mem_cons.mpr ⟨isListed_header _ hslash hq, ?_⟩
  intro h hh
  rcases (mem_headersBeside_iff hs).mp hh with ⟨s, hmem, _, _, _, rfl⟩
  exact isListed_header _ (hslashes s hmem) (hqs s hmem)

end Include

end DialectBuild
