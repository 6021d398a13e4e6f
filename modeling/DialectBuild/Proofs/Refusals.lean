import DialectBuild.Proofs.BuildPhases
import DialectBuild.Proofs.Leftovers

/-!
# What the File System Refuses

A path can fail in two ways. The file system may refuse it, which is an error that every stage of
a build knows how to report. Or the path makes no sense: it has a NUL in it, or it goes round in
circles through links. Nothing reports that.

The second way is rare. A path without a NUL is at worst refused, by every question and every
change except one: the question for its canonical place also fails at links that lead back to
themselves. That question is asked for the paths in import and include lines, so these lines are
where a build can meet a path that makes no sense. The files of a discovered unit never are such
paths, since its source has been found on disk.

## Main definitions

* `Failure.IsRefusal`: An error of the file system.
* `Path.IsClear`: A path without a NUL.
* `TranslationUnit.Mentions`: The paths whose canonical places a unit asks for.

## Theorems

* `FileAction.ensures_mkdirs_refusal`, `ensures_writeAtomic_refusal`: Changes that are refused.
* `Path.IsClear.beside`: The artifacts of a source have paths as clear as its own.
* `TranslationUnit.mentions_of_expansion`, `TranslationUnit.mentions_of_injection`: Imports and
  includes fail otherwise only at a path that the unit mentions.
* `Files.isClear_of_sources`: The paths of discovered sources are clear.
-/

namespace DialectBuild

/-- The failure is an error of the file system. -/
def Failure.IsRefusal (e : Failure) : Prop :=
  ∃ o, e = .os o

theorem Failure.isRefusal_os (o : OsError) : (Failure.os o).IsRefusal :=
  ⟨o, rfl⟩

/-- The path has no NUL in it. -/
def Path.IsClear (p : Path) : Prop :=
  .char '\x00' ∉ p.text

namespace Path

variable {p : Path}

theorem isClear_iff : p.IsClear ↔ ∀ x ∈ p.parts, .char '\x00' ∉ x := by
  rw [IsClear, null_mem_text_iff]
  constructor
  · exact fun h x hx hnull => h ⟨x, hx, hnull⟩
  · rintro h ⟨x, hx, hnull⟩
    exact h x hx hnull

theorem IsClear.parent (h : p.IsClear) : p.parent.IsClear :=
  isClear_iff.mpr fun x hx => isClear_iff.mp h x (List.mem_of_mem_dropLast hx)

theorem IsClear.child (h : p.IsClear) {x : Text} (hx : .char '\x00' ∉ x) :
    (p.child x).IsClear := by
  refine isClear_iff.mpr fun y hy => ?_
  rcases List.mem_append.mp hy with hy | hy
  · exact isClear_iff.mp h y hy
  · rw [List.mem_singleton.mp hy]
    exact hx

theorem IsClear.name (h : p.IsClear) : .char '\x00' ∉ p.name := by
  intro hnull
  rw [Path.name, name?] at hnull
  rcases hlast : p.parts.getLast? with _ | x
  · rw [hlast] at hnull
    exact List.not_mem_nil hnull
  · rw [hlast] at hnull
    exact isClear_iff.mp h x (List.mem_of_getLast? hlast) hnull

/-- The artifacts of a source have paths as clear as its own. -/
theorem IsClear.beside (h : p.IsClear) : ∀ q ∈ (Artifacts.beside p).toList, q.IsClear := by
  have hadd : ∀ {n e : Text}, .char '\x00' ∉ n → .char '\x00' ∉ e → .char '\x00' ∉ n ++ e :=
    fun hn he hnull => (List.mem_append.mp hnull).elim hn he
  have hstem : .char '\x00' ∉ stem p := fun hnull => h.name (List.mem_of_mem_take hnull)
  simp only [Artifacts.toList, Artifacts.beside, List.forall_mem_cons]
  exact ⟨h.parent.child (hadd h.name (by decide)), h.parent.child (hadd h.name (by decide)),
    h.parent.child (hadd hstem (by decide)), fun q hq => absurd hq List.not_mem_nil⟩

theorem IsClear.temporary (h : p.IsClear) : p.temporary.IsClear := by
  refine h.parent.child fun hnull => ?_
  rcases List.mem_append.mp hnull with hnull | hnull
  · exact h.name hnull
  · exact absurd hnull (by decide)

end Path

open Outcome Failure

namespace Files

variable {f : Files} {p : Path}

/-- A path that leads anywhere is clear. -/
theorem isClear_of_spot {follow : Bool} {s : Spot} (h : f.spot follow p = .ok s) : p.IsClear := by
  intro hnull
  rw [spot, if_pos (List.contains_iff_mem.mpr hnull)] at h
  cases h

theorem isClear_of_ask {question : Entry → Bool} (h : f.ask p question = .ok true) :
    p.IsClear := by
  rw [ask] at h
  rcases hspot : f.spot true p with e | s
  · rw [hspot] at h
    dsimp only at h
    split at h
    · cases h
    · cases h
  · exact isClear_of_spot hspot

/-- A path with a canonical place is clear. -/
theorem isClear_of_resolve {place : Place} (h : f.resolve p = .ok place) : p.IsClear := by
  intro hnull
  rw [resolve, if_pos (List.contains_iff_mem.mpr hnull)] at h
  cases h

/-- A question about a path is answered or refused, whatever the path. -/
theorem ask_refusal {question : Entry → Bool} : FailsWith IsRefusal (f.ask p question) := by
  unfold ask
  rcases hspot : f.spot true p with e | s
  · dsimp only
    by_cases hno : meansNo e = true
    · rw [if_pos hno]
      exact .of_ok false
    · rw [if_neg hno]
      refine .of_error (spot_failsOs (fun hnull => hno ?_) e hspot)
      rw [spot, if_pos (List.contains_iff_mem.mpr hnull)] at hspot
      cases hspot
      rfl
  · cases s with
    | present place entry => exact .of_ok _
    | absent place => exact .of_ok _

theorem openRead_refusal (h : p.IsClear) : FailsWith IsRefusal (f.openRead p) :=
  openRead_failsWith isRefusal_os (spot_failsOs h)

theorem text_refusal (h : p.IsClear) : FailsWith IsRefusal (f.text p) :=
  text_failsWith (openRead_refusal h)

theorem write_refusal (h : p.IsClear) {content : Bytes} :
    FailsWith IsRefusal (f.write p content) :=
  write_failsWith isRefusal_os (spot_failsOs h)

theorem unlinkIfPresent_refusal (h : p.IsClear) : FailsWith IsRefusal (f.unlinkIfPresent p) :=
  unlinkIfPresent_failsWith (unlink_failsWith isRefusal_os (spot_failsOs h))

theorem headersIn_refusal (h : p.IsClear) : FailsWith IsRefusal (f.headersIn p) := by
  unfold headersIn
  refine FailsWith.bind ?_ fun _ =>
    (FailsWith.filterM fun _ _ => ask_refusal).bind fun _ => .of_ok _
  exact (openDir_failsWith isRefusal_os (spot_failsOs h)).bind fun _ => .of_ok _

/-- The path of a discovered source is clear, and it has a name. -/
theorem isClear_of_sources {root : Path} {depth : Nat} {sources : List Path}
    (h : f.sources root depth = .ok sources) : ∀ s ∈ sources, s.IsClear ∧ s.parts ≠ [] := by
  rcases sources_eq_ok_iff.mp h with ⟨_, found, hfound, rfl⟩
  rw [List.forall_mem_map]
  intro names hnames
  rcases List.mem_filter.mp (List.mem_mergeSort.mp hnames) with ⟨hnames, _⟩
  rcases (mem_collect_iff hfound).mp hnames with ⟨⟨above, _, x, _, _, rfl⟩, _, hfile⟩
  refine ⟨isClear_of_ask hfile, ?_⟩
  -- Whatever is listed has a last name.
  exact List.append_ne_nil_of_right_ne_nil _
    (List.append_ne_nil_of_right_ne_nil _ (List.cons_ne_nil x []))

end Files

namespace FileAction

variable {p : Path}

/-- Creating a directory and those above it is refused at worst. -/
theorem ensures_mkdirs_refusal (h : p.IsClear) :
    Action.Ensures (fun _ => True) (mkdirs p) (fun _ _ => True) fun e _ => e.IsRefusal :=
  ensures_mkdirs_failsWith isRefusal_os Path.IsClear (fun _ => Path.IsClear.parent)
    (fun _ _ => Files.spot_failsOs) (fun _ _ _ => Files.ask_refusal) h

/-- A path that makes no sense is refused before anything is done. -/
theorem mkdirs_of_not_clear (f : Files) (h : ¬ p.IsClear) :
    mkdirs p f = .error .embeddedNull f := by
  have hmkdir : f.mkdir p = .error .embeddedNull := by
    rw [Files.mkdir, Files.spot, if_pos (List.contains_iff_mem.mpr (Classical.not_not.mp h))]
    rfl
  rw [mkdirs]
  cases p.parts.length with
  | zero =>
      refine change_of_error ?_
      rw [Files.mkdirUnlessDir, hmkdir]
  | succ n =>
      have hfirst := change_of_error (c := (·.mkdir p)) hmkdir
      rw [mkdirsFrom, Action.onOsError, Action.tryCatch_of_error hfirst]
      rfl

end FileAction

/-- Writing a file is refused at worst. -/
theorem ensures_writeAtomic_refusal {p : Path} {t : Text} (h : p.IsClear) (hname : p.parts ≠ []) :
    Action.Ensures (fun _ => True) (writeAtomic p t) (fun _ _ => True) fun e _ => e.IsRefusal := by
  refine .bind (q := fun t _ => True ∧ t = p.temporary) (.of_except ?_ ?_) fun t => .given ?_
  · exact fun t ht _ _ => ⟨trivial, (temporaryFor_eq_ok_iff.mp ht).2⟩
  · intro e he
    rw [temporaryFor_eq_ok_iff.mpr ⟨hname, rfl⟩] at he
    cases he
  rintro rfl
  -- The write and the renaming are refused by the system alone, and so is clearing up after them.
  refine .onOsError ?_ (fun o => ?_) fun e _ _ he => he
  · exact .followed (FileAction.ensures_change_failsWith fun _ => Files.write_refusal h.temporary)
      fun _ => FileAction.ensures_change_failsWith fun _ => Files.rename_failsOs h.temporary h
  · exact .bind ((FileAction.ensures_change_failsWith fun _ =>
      Files.unlinkIfPresent_refusal h.temporary).mono (fun _ _ => trivial) (fun _ _ => id)
      fun _ _ => id) fun _ => .of_throw fun _ _ => ⟨o, rfl⟩

/-- The paths whose canonical places a unit asks for: those in import and include lines of its text,
    seen from its directory, and those of its own header and the headers beside it. -/
inductive TranslationUnit.Mentions (u : TranslationUnit) : Path → Prop where
  | marker {l : Text} {m : Marker} (hl : l ∈ u.text.codeLines)
      (hm : Marker.ofLine? l.splitEnding.1 = some m) :
      Mentions u (u.directory.join (Path.ofText m.modulePath))
  | line {l path : Text} (hl : l ∈ u.text.codeLines) (hpath : includePath? l = some path) :
      Mentions u (u.directory.join (Path.ofText path))
  | header {h : Path} (hh : h ∈ (Artifacts.beside u.source).header :: u.siblings) : Mentions u h

/-- A line cannot be expanded because something is refused, or because it names a path that makes
    no sense. -/
theorem ExpandedLine.ofLine_failsWith {f : Files} {base : Path} {known : List Place} {n : Nat}
    {l : Text} : FailsWith (fun e => e.IsRefusal ∨ ∃ m, Marker.ofLine? l.splitEnding.1 = some m ∧
      f.resolve (base.join (Path.ofText m.modulePath)) = .error e) (ofLine f base known n l) := by
  unfold ofLine
  dsimp only
  rcases Marker.ofLine? l.splitEnding.1 with _ | m
  · exact .of_ok _
  · dsimp only
    split
    · exact .of_ok _
    · rcases hresolve : f.resolve (base.join (Path.ofText m.modulePath)) with e | place
      · exact .of_error (Or.inr ⟨m, rfl, hresolve⟩)
      -- From here on the path is known to be clear.
      · have hclear := Files.isClear_of_resolve hresolve
        have hexpand : ∀ ending, FailsWith IsRefusal (m.expand f base n ending) := by
          intro ending
          refine Files.ask_refusal.bind fun b => ?_
          cases b with
          | false => exact .of_ok _
          | true =>
              refine (Files.headersIn_refusal hclear).bind fun headers => ?_
              dsimp only
              split
              · exact .of_ok _
              · exact .of_ok _
        dsimp only [bind, Except.bind]
        split
        · exact .of_ok _
        · refine FailsWith.mono ?_ fun e => Or.inl
          exact (hexpand _).bind fun _ => .of_ok _

namespace TranslationUnit

variable {u : TranslationUnit} {f : Files} {e : Failure}

/-- Expanding the text of a unit fails because something is refused, or at a path that the unit
    mentions. -/
theorem mentions_of_expansion (h : (Expansion.ofText f u.directory u.text).failure = some e) :
    e.IsRefusal ∨ ∃ p, u.Mentions p ∧ f.resolve p = .error e := by
  rcases Expansion.exists_of_failure h with ⟨l, hl, known, n, hline⟩
  rcases ExpandedLine.ofLine_failsWith e hline with hrefusal | ⟨m, hm, hresolve⟩
  · exact Or.inl hrefusal
  · exact Or.inr ⟨_, .marker hl hm, hresolve⟩

/-- Adding includes to the text of a unit fails at a path that the unit mentions. -/
theorem mentions_of_injection (h : Injection.ofText f u.directory
    (Artifacts.beside u.source).header u.siblings u.text = .error e) :
    ∃ p, u.Mentions p ∧ f.resolve p = .error e := by
  refine Injection.ofText_failsWith (P := fun e => ∃ p, u.Mentions p ∧ f.resolve p = .error e)
    (fun s hs e he => ⟨s, .header hs, he⟩) (fun l hl => ?_) e h
  unfold Include.target
  rcases hpath : includePath? l with _ | path
  · exact .of_ok none
  · exact FailsWith.bind (fun e he => ⟨_, .line hl hpath, he⟩) fun _ => .of_ok _

end TranslationUnit

end DialectBuild
