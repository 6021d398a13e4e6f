import DialectBuild.Include.Injection
import DialectBuild.Proofs.EveryOutcome

/-!
# Failures That Are Not the Build's Own

Where the failures come from that a build reports. Questions about files and changes of files
fail for reasons of the file system, or because a path makes no sense, and never with a build
error. A build error is made where a stage gives its own wording to such a failure, and so it
tells the stage.

## Main definitions

* `Failure.IsForeign`: A failure that is no build error.
* `Outcome.FailsWith`: All failures that can come of something have a property.

## Theorems

* `Outcome.FailsWith.bind`, `Outcome.FailsWith.mapM`, `Outcome.FailsWith.filterM`: Failures of
  what is put together.
* `Files.write_foreign`, `Files.rename_foreign`: Changes of files.
* `FileAction.ensures_mkdirs_failsWith`: Creating a directory and those above it.
* `Expansion.exists_of_failure`, `Injection.ofText_failsWith`: Where imports and includes fail.
* `Expansion.foreign_of_failure`, `Injection.ofText_foreign`: Imports and includes.
* `Files.sources_failsWith`: Discovery fails with errors of its own kind.
-/

namespace DialectBuild

/-- A failure that is no build error. -/
def Failure.IsForeign (e : Failure) : Prop :=
  ∀ b, e ≠ .build b

theorem Failure.isForeign_os (o : OsError) : (Failure.os o).IsForeign := by
  intro b
  simp only [ne_eq, reduceCtorEq, not_false_eq_true]

theorem Failure.isForeign_embeddedNull : Failure.embeddedNull.IsForeign := by
  intro b
  simp only [ne_eq, reduceCtorEq, not_false_eq_true]

namespace Outcome

variable {α β : Type} {P : Failure → Prop}

/-- Whatever makes this fail has the property `P`. -/
def FailsWith (P : Failure → Prop) (x : Except Failure α) : Prop :=
  ∀ e, x = .error e → P e

namespace FailsWith

theorem of_ok (a : α) : FailsWith P (.ok a) :=
  fun e h => (by cases h)

theorem of_error {e : Failure} (he : P e) : FailsWith P (.error e : Except Failure α) := by
  intro e' h
  cases h
  exact he

theorem bind {x : Except Failure α} {f : α → Except Failure β} (hx : FailsWith P x)
    (hf : ∀ a, FailsWith P (f a)) : FailsWith P (x >>= f) := by
  cases x with
  | error e => exact fun e' h => hx e' (by cases h; rfl)
  | ok a => exact hf a

theorem mono {Q : Failure → Prop} {x : Except Failure α} (hx : FailsWith P x)
    (h : ∀ e, P e → Q e) : FailsWith Q x :=
  fun e he => h e (hx e he)

theorem mapM {f : α → Except Failure β} {l : List α} (hf : ∀ a ∈ l, FailsWith P (f a)) :
    FailsWith P (l.mapM f) := by
  induction l with
  | nil =>
      rw [List.mapM_nil]
      exact of_ok []
  | cons a l ih =>
      rcases List.forall_mem_cons.mp hf with ⟨ha, hl⟩
      rw [List.mapM_cons]
      exact ha.bind fun b => (ih hl).bind fun bs => of_ok (b :: bs)

theorem filterM {p : α → Except Failure Bool} {l : List α} (hp : ∀ a ∈ l, FailsWith P (p a)) :
    FailsWith P (l.filterM p) := by
  have hloop : ∀ acc : List α, FailsWith P (l.filterAuxM p acc) := by
    induction l with
    | nil => exact fun acc => of_ok acc
    | cons a l ih =>
        rcases List.forall_mem_cons.mp hp with ⟨ha, hl⟩
        exact fun acc => ha.bind fun b => ih hl _
  exact (hloop []).bind fun r => of_ok r.reverse

end FailsWith

end Outcome

open Outcome Failure

namespace Files

variable {f : Files} {p q : Path} {follow : Bool}

theorem refuse_foreign (errno : Errno) (p : Path) : (refuse errno p).IsForeign :=
  isForeign_os _

theorem spot_foreign : FailsWith IsForeign (f.spot follow p) := by
  unfold spot
  split
  · exact .of_error isForeign_embeddedNull
  · split
    · exact .of_error (refuse_foreign _ _)
    · rcases walk f.tree follow maxLinks (f.start p) p.parts with e | s
      · exact .of_error (refuse_foreign _ _)
      · exact .of_ok s

theorem ask_foreign {question : Entry → Bool} : FailsWith IsForeign (f.ask p question) := by
  unfold ask
  rcases hspot : f.spot true p with e | ⟨place, entry⟩ | place
  · dsimp only
    split
    · exact .of_ok false
    · exact .of_error (spot_foreign e hspot)
  · exact .of_ok _
  · exact .of_ok _

/-- Opening a file is refused at worst, if there is a way to it. -/
theorem openRead_failsWith {P : Failure → Prop} (hos : ∀ o, P (.os o))
    (hspot : FailsWith P (f.spot true p)) : FailsWith P (f.openRead p) := by
  unfold openRead
  refine hspot.bind fun s => ?_
  split
  · exact .of_ok _
  · exact .of_error (hos _)
  · exact .of_error (hos _)

theorem text_failsWith {P : Failure → Prop} (hopen : FailsWith P (f.openRead p)) :
    FailsWith P (f.text p) :=
  (hopen.bind fun _ => .of_ok _).bind fun _ => .of_ok _

theorem text_foreign : FailsWith IsForeign (f.text p) :=
  text_failsWith (openRead_failsWith isForeign_os spot_foreign)

/-- A new entry is refused at worst. -/
theorem create_failsWith {P : Failure → Prop} (hos : ∀ o, P (.os o)) {place : Place} {e : Entry} :
    FailsWith P (f.create p place e) := by
  unfold create
  split
  · exact .of_error (hos _)
  · exact .of_ok _

/-- Writing a file is refused at worst, if there is a way to it. -/
theorem write_failsWith {P : Failure → Prop} (hos : ∀ o, P (.os o))
    (hspot : FailsWith P (f.spot true p)) {content : Bytes} : FailsWith P (f.write p content) := by
  unfold write
  refine hspot.bind fun s => ?_
  split
  · exact .of_ok _
  · exact .of_error (hos _)
  · exact create_failsWith hos

theorem write_foreign {content : Bytes} : FailsWith IsForeign (f.write p content) :=
  write_failsWith isForeign_os spot_foreign

/-- A removal is refused at worst, if there is a way to what is to be removed. -/
theorem unlink_failsWith {P : Failure → Prop} (hos : ∀ o, P (.os o))
    (hspot : FailsWith P (f.spot false p)) : FailsWith P (f.unlink p) := by
  unfold unlink
  refine hspot.bind fun s => ?_
  split
  · exact .of_error (hos _)
  · split_ifs with hlocked hdir
    · exact .of_error (hos _)
    · exact .of_error (hos _)
    · exact .of_ok _

theorem unlinkIfPresent_failsWith {P : Failure → Prop} (hunlink : FailsWith P (f.unlink p)) :
    FailsWith P (f.unlinkIfPresent p) := by
  unfold unlinkIfPresent
  rcases hremoved : f.unlink p with e | g
  · dsimp only
    split
    · exact .of_ok _
    · exact .of_error (hunlink e hremoved)
  · exact .of_ok g

theorem unlinkIfPresent_foreign : FailsWith IsForeign (f.unlinkIfPresent p) :=
  unlinkIfPresent_failsWith (unlink_failsWith isForeign_os spot_foreign)

/-- A move is refused at worst, if there is a way to both places. -/
theorem rename_failsWith {P : Failure → Prop} (hos : ∀ o, P (.os o))
    (hp : FailsWith P (f.spot false p)) (hq : FailsWith P (f.spot false q)) :
    FailsWith P (f.rename p q) := by
  -- Both paths are looked up in the same way, with the same rewriting of the error.
  have hmove : ∀ {r : Path}, FailsWith P (f.spot false r) →
      FailsWith P ((f.spot false r).mapError (asMove p q)) := by
    intro r hr
    rcases hspot : f.spot false r with e | s
    · refine .of_error ?_
      cases e with
      | os o => exact hos _
      | _ => exact hr _ hspot
    · exact .of_ok s
  unfold rename
  refine (hmove hp).bind fun s => (hmove hq).bind fun t => ?_
  by_cases hname : (!endsInName p || !endsInName q) = true
  · rw [if_pos hname]
    exact .of_error (hos _)
  rw [if_neg hname]
  cases s with
  | absent place => exact .of_error (hos _)
  | present place e =>
      rcases herror : moveError? f.tree place e t with _ | errno
      · dsimp only
        rw [herror]
        exact .of_ok _
      · dsimp only
        rw [herror]
        exact .of_error (hos _)

theorem rename_foreign : FailsWith IsForeign (f.rename p q) :=
  rename_failsWith isForeign_os spot_foreign spot_foreign

/-- A directory is refused at worst, if there is a way to its place. -/
theorem mkdir_failsWith {P : Failure → Prop} (hos : ∀ o, P (.os o))
    (hspot : FailsWith P (f.spot false p)) : FailsWith P (f.mkdir p) := by
  unfold mkdir
  refine hspot.bind fun s => ?_
  split
  · exact .of_error (hos _)
  · exact create_failsWith hos

theorem mkdirUnlessDir_failsWith {P : Failure → Prop} (hos : ∀ o, P (.os o))
    (hask : FailsWith P (f.isDir p)) (hmkdir : FailsWith P (f.mkdir p)) :
    FailsWith P (f.mkdirUnlessDir p) := by
  unfold mkdirUnlessDir
  split
  next e _ =>
    split
    · exact .of_error (hos e)
    · refine hask.bind fun b => ?_
      split
      · exact .of_ok _
      · exact .of_error (hos e)
  next => exact hmkdir

theorem resolve_foreign : FailsWith IsForeign (f.resolve p) := by
  unfold resolve
  by_cases hnull : p.text.contains (.char '\x00') = true
  · rw [if_pos hnull]
    exact .of_error isForeign_embeddedNull
  · rw [if_neg hnull]
    rcases resolveNames f.tree [] (f.tree.linkCount + 1) (f.start p) p.parts with place | place
    all_goals
      dsimp only
      split
      · exact .of_error fun b => by simp only [ne_eq, reduceCtorEq, not_false_eq_true]
      · exact .of_ok place

/-- Opening a directory is refused at worst, if there is a way to it. -/
theorem openDir_failsWith {P : Failure → Prop} (hos : ∀ o, P (.os o))
    (hspot : FailsWith P (f.spot true p)) : FailsWith P (f.openDir p) := by
  unfold openDir
  refine hspot.bind fun s => ?_
  split
  · split
    · exact .of_error (hos _)
    · exact .of_ok _
  · exact .of_error (hos _)
  · exact .of_error (hos _)

theorem list_foreign : FailsWith IsForeign (f.list p) :=
  (openDir_failsWith isForeign_os spot_foreign).bind fun _ => .of_ok _

theorem headersIn_foreign : FailsWith IsForeign (f.headersIn p) := by
  unfold headersIn
  exact list_foreign.bind fun _ => (FailsWith.filterM fun _ _ => ask_foreign).bind fun _ => .of_ok _

/-- A walk fails for no reason of the build. -/
theorem collect_foreign (depth : Nat) (names : List Text) :
    FailsWith IsForeign (Discovery.collect f p depth names) := by
  induction depth generalizing names with
  | zero => exact .of_error fun b => by simp only [ne_eq, reduceCtorEq, not_false_eq_true]
  | succ depth ih =>
      unfold Discovery.collect
      rcases hopen : f.openDir (p.descend names) with e | place
      · dsimp only
        split
        · exact .of_ok []
        · exact .of_error (openDir_failsWith isForeign_os spot_foreign e hopen)
      · refine (FailsWith.filterM fun _ _ => ask_foreign).bind fun own => ?_
        refine (FailsWith.mapM fun x _ => ?_).bind fun deeper => .of_ok _
        unfold Discovery.visit
        split
        · exact ih _
        · exact ask_foreign.bind fun _ => .of_ok _
        · exact .of_ok _

/-- Whatever error discovery reports is one of discovery. -/
theorem sources_failsWith {depth : Nat} :
    FailsWith (fun e => e.IsForeign ∨ ∃ message, e = Discovery.error message)
      (f.sources p depth) := by
  refine (ask_foreign.mono fun _ => Or.inl).bind fun b => ?_
  cases b with
  | false => exact .of_error (Or.inr ⟨_, rfl⟩)
  | true => exact ((collect_foreign depth []).mono fun _ => Or.inl).bind fun _ => .of_ok _

theorem sources_fails {depth : Nat} : FailsWith (fun e => ∀ b, e = .build b → b.kind = .noSources)
    (f.sources p depth) := by
  intro e he b hb
  rcases sources_failsWith e he with hforeign | ⟨message, rfl⟩
  · exact absurd hb (hforeign b)
  · cases hb
    rfl

end Files

namespace FileAction

variable {P : Failure → Prop} {p : Path}

/-- A change fails only as it does for some files. -/
theorem ensures_change_failsWith {c : Files → Except Failure Files} (h : ∀ f, FailsWith P (c f)) :
    Action.Ensures (fun _ => True) (change c) (fun _ _ => True) fun e _ => P e :=
  .of_each fun f _ => (ensures_change f).mono (fun _ => id) (fun _ _ _ => trivial)
    fun e _ he => h f e he.1

/-- Creating a directory and those above it is refused at worst, if there is a way to each. -/
theorem ensures_mkdirs_failsWith (hos : ∀ o, P (.os o)) (sensible : Path → Prop)
    (hparent : ∀ q, sensible q → sensible q.parent)
    (hspot : ∀ f q, sensible q → FailsWith P (Files.spot f false q))
    (hask : ∀ f q, sensible q → FailsWith P (Files.isDir f q)) (hp : sensible p) :
    Action.Ensures (fun _ => True) (mkdirs p) (fun _ _ => True) fun e _ => P e := by
  have hmkdir : ∀ q, sensible q → ∀ f, FailsWith P (Files.mkdir f q) := fun q hq f =>
    Files.mkdir_failsWith hos (hspot f q hq)
  have hunless : ∀ q, sensible q → Action.Ensures (fun _ => True)
      (change (·.mkdirUnlessDir q)) (fun _ _ => True) fun e _ => P e := fun q hq =>
    ensures_change_failsWith fun f => Files.mkdirUnlessDir_failsWith hos (hask f q hq)
      (hmkdir q hq f)
  unfold mkdirs
  generalize p.parts.length = n
  -- By induction on the number of parts that may be dropped: each is tried before it is dropped.
  induction n generalizing p with
  | zero => exact hunless p hp
  | succ n ih =>
      unfold mkdirsFrom
      refine (ensures_change_failsWith (hmkdir p hp)).onOsError (fun o => ?_) fun e _ _ he => he
      split
      · exact .bind ((ih (hparent p hp)).mono (fun _ _ => trivial) (fun _ _ => id)
          fun _ _ => id) fun _ => hunless p hp
      · exact (hunless p hp).mono (fun _ _ => trivial) (fun _ _ => id) fun _ _ => id

theorem ensures_mkdirs_foreign : Action.Ensures (fun _ => True) (mkdirs p) (fun _ _ => True)
    fun e _ => e.IsForeign :=
  ensures_mkdirs_failsWith isForeign_os (fun _ => True) (fun _ => id)
    (fun _ _ _ => Files.spot_foreign) (fun _ _ _ => Files.ask_foreign) trivial

end FileAction

theorem sibling_foreign {p : Path} {name : Text} : FailsWith IsForeign (sibling p name) := by
  unfold sibling
  split
  · exact .of_ok _
  · exact .of_error fun b => by simp only [ne_eq, reduceCtorEq, not_false_eq_true]

theorem Artifacts.ofSource_foreign {source : Path} : FailsWith IsForeign (ofSource source) :=
  sibling_foreign.bind fun _ => sibling_foreign.bind fun _ => sibling_foreign.bind fun _ => .of_ok _

theorem headersBeside_foreign {source : Path} {sources : List Path} :
    FailsWith IsForeign (headersBeside source sources) :=
  (FailsWith.mapM fun _ _ => sibling_foreign).bind fun _ => .of_ok _

section Lines

variable {f : Files} {base : Path}

theorem Marker.expand_foreign {m : Marker} {n : Nat} {ending : Text} :
    FailsWith IsForeign (m.expand f base n ending) := by
  refine Files.ask_foreign.bind fun b => ?_
  cases b with
  | false => exact .of_ok _
  | true =>
      refine Files.headersIn_foreign.bind fun headers => ?_
      dsimp only
      split
      · exact .of_ok _
      · exact .of_ok _

theorem ExpandedLine.ofLine_foreign {known : List Place} {n : Nat} {source : Text} :
    FailsWith IsForeign (ofLine f base known n source) := by
  unfold ofLine
  rcases source.splitEnding with ⟨body, ending⟩
  dsimp only
  rcases Marker.ofLine? body with _ | m
  · exact .of_ok _
  · dsimp only
    split
    · exact .of_ok _
    · refine Files.resolve_foreign.bind fun place => ?_
      split
      · exact .of_ok _
      · exact Marker.expand_foreign.bind fun _ => .of_ok _

/-- What ends an expansion is a line that cannot be expanded. -/
theorem Expansion.exists_of_failure {t : Text} {e : Failure}
    (h : (ofText f base t).failure = some e) :
    ∃ l ∈ t.codeLines, ∃ known n, ExpandedLine.ofLine f base known n l = .error e := by
  unfold ofText at h
  generalize t.codeLines = lines, ([] : List Place) = known, 1 = n at h ⊢
  induction lines generalizing known n with
  | nil => cases h
  | cons line lines ih =>
      rw [ofLines] at h
      rcases hline : ExpandedLine.ofLine f base known n line with e' | l
      · rw [hline] at h
        cases h
        exact ⟨line, List.mem_cons_self, known, n, hline⟩
      · rw [hline] at h
        rcases ih _ _ h with ⟨l', hl', hfails⟩
        exact ⟨l', List.mem_cons_of_mem line hl', hfails⟩

/-- Whatever ends an expansion is no build error. -/
theorem Expansion.foreign_of_failure {t : Text} {e : Failure}
    (h : (ofText f base t).failure = some e) : e.IsForeign := by
  rcases exists_of_failure h with ⟨l, _, known, n, hline⟩
  exact ExpandedLine.ofLine_foreign e hline

/-- An injection fails only where it is asked where a header is or where a line leads. -/
theorem Injection.ofText_failsWith {P : Failure → Prop} {own : Path} {siblings : List Path}
    {t : Text} (hheaders : ∀ h ∈ own :: siblings, FailsWith P (f.resolve h))
    (hlines : ∀ l ∈ t.codeLines, FailsWith P (Include.target f base l)) :
    FailsWith P (ofText f base own siblings t) := by
  rcases List.forall_mem_cons.mp hheaders with ⟨hown, hsiblings⟩
  refine hown.bind fun place => (FailsWith.mapM hlines).bind fun targets =>
    (FailsWith.filterM fun h hh => (hsiblings h hh).bind fun _ => .of_ok _).bind fun missing => ?_
  rcases targets.findIdx? (· == some place) with _ | i
  · exact .of_ok _
  · dsimp only
    split
    · exact .of_ok _
    · exact .of_ok _

theorem Injection.ofText_foreign {own : Path} {siblings : List Path} {t : Text} :
    FailsWith IsForeign (ofText f base own siblings t) := by
  refine ofText_failsWith (fun _ _ => Files.resolve_foreign) fun line _ => ?_
  unfold Include.target
  split
  · exact .of_ok none
  · exact Files.resolve_foreign.bind fun _ => .of_ok _

end Lines

end DialectBuild
