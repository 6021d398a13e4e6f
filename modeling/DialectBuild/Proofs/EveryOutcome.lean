import DialectBuild.Build.Run
import DialectBuild.Proofs.Outcome

/-!
# Steps, However They End

A step that fails keeps what it has done so far, so what a build leaves behind can only be known
by following its failures as well as its successes. `Action.Ensures` says both at once: from any
state with some property, a step that succeeds leaves one property and a step that fails leaves
another, which may speak of the failure.

There is one rule for each way in which steps are put together. A chain hands the state of one
step on to the next and fails where one of them does. A handler takes over the failures it is made
for and lets the others pass. A step that works on a part of the state leaves the other parts
alone, and a pass over units goes from one unit to the next until one of them fails.

If nothing can fail, `Ensures` says that the step succeeds.

## Main definitions

* `Action.Ensures`: What holds after a step, however it ends.

## Theorems

* `Action.Ensures.bind`, `Action.Ensures.tryCatch`: Chains and handlers.
* `Action.Ensures.onOsError`, `Action.Ensures.onBuildError`: The two handlers of a build.
* `Action.Ensures.forIn`, `Action.Ensures.mapM`: Loops.
* `Action.bind_eq_error_iff`: Where a chain fails.
* `Action.Ensures.exists_ok`: A step that cannot fail succeeds.
* `FileAction.ensures_query`, `FileAction.ensures_change`: Questions about files and changes.
* `Workspace.ensures_liftM`, `Desk.ensures_liftM`, `Project.ensures_liftM`: Steps on a part.
* `Project.ensures_eachUnit`: A pass over the units of a project.
* `Project.ensures_phase`: Showing a phase on the console changes nothing else.
-/

namespace DialectBuild

namespace Action

variable {σ α β : Type}

/-- What holds after a step that starts in a state of `pre`: `post` of its value and of the state
    then if it succeeds, `fail` of the failure and of the state then if it fails. -/
def Ensures (pre : σ → Prop) (a : Action σ α) (post : α → σ → Prop)
    (fail : Failure → σ → Prop) : Prop :=
  ∀ s, pre s → match a s with
    | .ok x s' => post x s'
    | .error e s' => fail e s'

namespace Ensures

variable {pre pre' : σ → Prop} {post post' : α → σ → Prop} {fail fail' : Failure → σ → Prop}
  {a : Action σ α} {s s' : σ}

theorem ok (h : Ensures pre a post fail) (hs : pre s) {x : α} (ha : a s = .ok x s') :
    post x s' := by
  have hend := h s hs
  rw [ha] at hend
  exact hend

theorem error (h : Ensures pre a post fail) (hs : pre s) {e : Failure} (ha : a s = .error e s') :
    fail e s' := by
  have hend := h s hs
  rw [ha] at hend
  exact hend

theorem intro (hok : ∀ s x s', pre s → a s = .ok x s' → post x s')
    (herror : ∀ s e s', pre s → a s = .error e s' → fail e s') : Ensures pre a post fail := by
  intro s hs
  rcases ha : a s with ⟨x, s'⟩ | ⟨e, s'⟩
  · exact hok s x s' hs ha
  · exact herror s e s' hs ha

/-- A step that cannot fail succeeds. -/
theorem exists_ok (h : Ensures pre a post fun _ _ => False) (hs : pre s) :
    ∃ x s', a s = .ok x s' ∧ post x s' := by
  rcases ha : a s with ⟨x, s'⟩ | ⟨e, s'⟩
  · exact ⟨x, s', rfl, h.ok hs ha⟩
  · exact (h.error hs ha).elim

/-- More may be known before a step, and less may be asked after it. -/
theorem mono (h : Ensures pre a post fail) (hpre : ∀ s, pre' s → pre s)
    (hpost : ∀ x s, post x s → post' x s) (hfail : ∀ e s, fail e s → fail' e s) :
    Ensures pre' a post' fail' :=
  .intro (fun s x s' hs ha => hpost x s' (h.ok (hpre s hs) ha))
    fun s e s' hs ha => hfail e s' (h.error (hpre s hs) ha)

/-- A step may be followed from each state by itself. -/
theorem of_each (h : ∀ s, pre s → Ensures (· = s) a post fail) : Ensures pre a post fail :=
  fun s hs => h s hs s rfl

/-- A step whose outcome is known. -/
theorem of_eq_ok {x : α} (ha : a s = .ok x s') (h : post x s') :
    Ensures (· = s) a post fail := by
  intro s₀ hs₀
  rw [hs₀, ha]
  exact h

/-- A step that succeeds if something is possible fails only if it is not. -/
theorem of_possible {φ : Prop} (hok : ∀ x s', a s = .ok x s' → post x s')
    (hcan : φ → ∃ x s', a s = .ok x s') : Ensures (· = s) a post fun _ _ => ¬ φ := by
  refine .intro (fun s₀ x s' hs₀ ha => ?_) fun s₀ e s' hs₀ ha hφ => ?_
  · rw [hs₀] at ha
    exact hok x s' ha
  · rcases hcan hφ with ⟨x, s₁, hok⟩
    rw [hs₀, hok] at ha
    cases ha

/-- What does not depend on the state is known throughout. -/
theorem given {φ : Prop} (h : φ → Ensures pre a post fail) :
    Ensures (fun s => pre s ∧ φ) a post fail :=
  fun s hs => h hs.2 s hs.1

theorem of_pure {x : α} (h : ∀ s, pre s → post x s) : Ensures pre (pure x) post fail :=
  h

theorem of_throw {e : Failure} (h : ∀ s, pre s → fail e s) :
    Ensures pre (throw e : Action σ α) post fail :=
  h

/-- Nothing comes after a failure. -/
theorem of_throw_bind {e : Failure} {k : β → Action σ α} (h : ∀ s, pre s → fail e s) :
    Ensures pre ((throw e : Action σ β) >>= k) post fail :=
  h

theorem of_get {post : σ → σ → Prop} (h : ∀ s, pre s → post s s) :
    Ensures pre (get : Action σ σ) post fail :=
  h

theorem of_except {x : Except Failure α} (hok : ∀ y, x = .ok y → ∀ s, pre s → post y s)
    (herror : ∀ e, x = .error e → ∀ s, pre s → fail e s) :
    Ensures pre (ofExcept x) post fail := by
  cases x with
  | ok y => exact hok y rfl
  | error e => exact herror e rfl

/-- A chain of two steps fails where one of them does. -/
theorem bind {f : α → Action σ β} {q : α → σ → Prop} {post : β → σ → Prop}
    (ha : Ensures pre a q fail) (hf : ∀ x, Ensures (q x) (f x) post fail) :
    Ensures pre (a >>= f) post fail := by
  intro s hs
  have hbind : (a >>= f) s = EStateM.bind a f s := rfl
  rw [hbind, EStateM.bind]
  rcases hend : a s with ⟨x, s₁⟩ | ⟨e, s₁⟩
  · exact hf x s₁ (ha.ok hs hend)
  · exact ha.error hs hend

/-- A step after which no less is known than before. -/
theorem followed {f : α → Action σ β} {post : β → σ → Prop}
    (ha : Ensures pre a (fun _ => pre) fail) (hf : ∀ x, Ensures pre (f x) post fail) :
    Ensures pre (a >>= f) post fail :=
  ha.bind hf

/-- A handler goes on from where a step failed. -/
theorem tryCatch {handle : Failure → Action σ α} {q : Failure → σ → Prop}
    (ha : Ensures pre a post q) (hhandle : ∀ e, Ensures (q e) (handle e) post fail) :
    Ensures pre (MonadExcept.tryCatch a handle) post fail := by
  intro s hs
  have htry : (MonadExcept.tryCatch a handle) s = EStateM.tryCatch a handle s := rfl
  rw [htry, EStateM.tryCatch]
  rcases hend : a s with ⟨x, s₁⟩ | ⟨e, s₁⟩
  · exact ha.ok hs hend
  · exact hhandle e s₁ (ha.error hs hend)

theorem onOsError {handle : OsError → Action σ α} {q : Failure → σ → Prop}
    (ha : Ensures pre a post q) (hhandle : ∀ o, Ensures (q (.os o)) (handle o) post fail)
    (hpass : ∀ e s, (∀ o, e ≠ .os o) → q e s → fail e s) :
    Ensures pre (a.onOsError handle) post fail := by
  refine ha.tryCatch fun e => ?_
  cases e with
  | os o => exact hhandle o
  | _ =>
      refine .of_throw fun s hs => hpass _ s (fun o => ?_) hs
      simp only [ne_eq, reduceCtorEq, not_false_eq_true]

theorem onBuildError {handle : BuildError → Action σ α} {q : Failure → σ → Prop}
    (ha : Ensures pre a post q) (hhandle : ∀ b, Ensures (q (.build b)) (handle b) post fail)
    (hpass : ∀ e s, (∀ b, e ≠ .build b) → q e s → fail e s) :
    Ensures pre (a.onBuildError handle) post fail := by
  refine ha.tryCatch fun e => ?_
  cases e with
  | build b => exact hhandle b
  | _ =>
      refine .of_throw fun s hs => hpass _ s (fun b => ?_) hs
      simp only [ne_eq, reduceCtorEq, not_false_eq_true]

/-- A loop goes from one thing to the next until a step fails. The invariant may speak of what
    has been done. -/
theorem forIn {γ : Type} {l : List γ} {act : γ → Action σ PUnit} (inv : List γ → σ → Prop)
    (hstep : ∀ done x rest, l = done ++ x :: rest →
      Ensures (inv done) (act x) (fun _ => inv (done ++ [x])) fail) :
    Ensures (inv []) (ForIn.forIn l PUnit.unit fun x _ => do
      act x
      pure (ForInStep.yield PUnit.unit)) (fun _ => inv l) fail := by
  -- By induction on what is left, with what is done as an argument.
  have hrest : ∀ done rest, l = done ++ rest →
      Ensures (inv done) (ForIn.forIn rest PUnit.unit fun x _ => do
        act x
        pure (ForInStep.yield PUnit.unit)) (fun _ => inv l) fail := by
    intro done rest hl
    induction rest generalizing done with
    | nil =>
        rw [List.append_nil] at hl
        rw [List.forIn_nil, hl]
        exact .of_pure fun s hs => hs
    | cons x rest ih =>
        rw [List.forIn_cons]
        refine .bind (q := fun r s => r = .yield PUnit.unit ∧ inv (done ++ [x]) s)
          (.bind (hstep done x rest hl) fun _ => .of_pure fun s hs => ⟨rfl, hs⟩) fun r => ?_
        -- No step ends the loop early.
        cases r with
        | done u => exact fun s hs => absurd hs.1 (by simp only [reduceCtorEq, not_false_eq_true])
        | yield u =>
            refine (ih (done ++ [x]) ?_).mono (fun s hs => hs.2) (fun _ _ => id) fun _ _ => id
            rw [hl, List.append_assoc, List.singleton_append]
  exact hrest [] l rfl

/-- Doing something to each of some things, one after the other, until a step fails. The invariant
    may speak of what has been done and of what came of it. -/
theorem mapM {γ : Type} {l : List γ} {act : γ → Action σ β} (inv : List γ → List β → σ → Prop)
    (hstep : ∀ done x rest ys, l = done ++ x :: rest →
      Ensures (inv done ys) (act x) (fun y => inv (done ++ [x]) (ys ++ [y])) fail) :
    Ensures (inv [] []) (l.mapM act) (fun ys => inv l ys) fail := by
  -- The invariant is carried over the elements that are done, so the list is split there.
  have hrest : ∀ done rest ys, l = done ++ rest →
      Ensures (inv done ys) (rest.mapM act) (fun zs => inv l (ys ++ zs)) fail := by
    intro done rest ys hl
    induction rest generalizing done ys with
    | nil =>
        rw [List.append_nil] at hl
        rw [List.mapM_nil, hl]
        exact .of_pure fun s hs => by rwa [List.append_nil]
    | cons x rest ih =>
        rw [List.mapM_cons]
        refine .bind (hstep done x rest ys hl) fun y => .bind (ih (done ++ [x]) (ys ++ [y]) ?_)
          fun zs => .of_pure fun s hs => ?_
        · rw [hl, List.append_assoc, List.singleton_append]
        · rwa [List.append_assoc, List.singleton_append] at hs
  exact hrest [] l [] rfl

end Ensures

/-- A chain of two steps fails if the first does, or the second from where the first ends. -/
theorem bind_eq_error_iff {a : Action σ α} {f : α → Action σ β} {s s' : σ} {e : Failure} :
    (a >>= f) s = .error e s' ↔
      a s = .error e s' ∨ ∃ x s₁, a s = .ok x s₁ ∧ f x s₁ = .error e s' := by
  have hbind : (a >>= f) s = EStateM.bind a f s := rfl
  rw [hbind, EStateM.bind]
  rcases a s with ⟨x, s₁⟩ | ⟨e₁, s₁⟩
  · constructor
    · exact fun h => Or.inr ⟨x, s₁, rfl, h⟩
    · rintro (h | ⟨_, _, ⟨rfl, rfl⟩, h⟩)
      · cases h
      · exact h
  · constructor
    · rintro ⟨rfl, rfl⟩
      exact Or.inl rfl
    · rintro (⟨rfl, rfl⟩ | ⟨_, _, h, _⟩)
      · rfl
      · cases h

end Action

namespace FileAction

/-- A question about files leaves them alone. -/
theorem ensures_query {α : Type} {q : Files → Except Failure α} (f : Files) :
    Action.Ensures (· = f) (query q) (fun x g => q f = .ok x ∧ g = f)
      fun e g => q f = .error e ∧ g = f := by
  refine .bind (q := fun k g => k = f ∧ g = f) (.of_get fun g hg => ⟨hg, hg⟩) fun k => ?_
  refine .of_except ?_ ?_
  · rintro x hx _ ⟨rfl, hg⟩
    exact ⟨hx, hg⟩
  · rintro e he _ ⟨rfl, hg⟩
    exact ⟨he, hg⟩

/-- A change that fails leaves the files alone. -/
theorem ensures_change {c : Files → Except Failure Files} (f : Files) :
    Action.Ensures (· = f) (change c) (fun _ g => c f = .ok g)
      fun e g => c f = .error e ∧ g = f := by
  refine .bind (ensures_query f) fun k => ?_
  rintro _ ⟨hk, rfl⟩
  exact hk

end FileAction

section Parts

variable {α : Type}

/-- A step on files leaves the rest of the workspace alone. -/
theorem Workspace.ensures_liftM {a : FileAction α} {pre : Workspace → Prop}
    {post : α → Workspace → Prop} {fail : Failure → Workspace → Prop}
    (h : ∀ w, pre w → Action.Ensures (· = w.files) a (fun x f => post x { w with files := f })
      fun e f => fail e { w with files := f }) :
    Action.Ensures pre (liftM a) post fail := by
  intro w hw
  have hlift : (liftM a : Action Workspace α) w = onFiles a w := rfl
  rw [hlift, onFiles]
  rcases ha : a w.files with ⟨x, f⟩ | ⟨e, f⟩
  · exact (h w hw).ok rfl ha
  · exact (h w hw).error rfl ha

/-- A step on the workspace leaves the unit on the desk alone. -/
theorem Desk.ensures_liftM {a : Action Workspace α} {pre : Desk → Prop}
    {post : α → Desk → Prop} {fail : Failure → Desk → Prop}
    (h : ∀ d, pre d → Action.Ensures (· = d.workspace) a
      (fun x w => post x { d with workspace := w }) fun e w => fail e { d with workspace := w }) :
    Action.Ensures pre (liftM a) post fail := by
  intro d hd
  have hlift : (liftM a : Action Desk α) d = onWorkspace a d := rfl
  rw [hlift, onWorkspace]
  rcases ha : a d.workspace with ⟨x, w⟩ | ⟨e, w⟩
  · exact (h d hd).ok rfl ha
  · exact (h d hd).error rfl ha

/-- A step on the workspace leaves the units of a project alone. -/
theorem Project.ensures_liftM {a : Action Workspace α} {pre : Project → Prop}
    {post : α → Project → Prop} {fail : Failure → Project → Prop}
    (h : ∀ p, pre p → Action.Ensures (· = p.workspace) a
      (fun x w => post x { p with workspace := w }) fun e w => fail e { p with workspace := w }) :
    Action.Ensures pre (liftM a) post fail := by
  intro p hp
  have hlift : (liftM a : Action Project α) p = onWorkspace a p := rfl
  rw [hlift, onWorkspace]
  rcases ha : a p.workspace with ⟨x, w⟩ | ⟨e, w⟩
  · exact (h p hp).ok rfl ha
  · exact (h p hp).error rfl ha

end Parts

namespace Project

variable {α : Type}

/-- A pass goes from one unit to the next until one of them fails. The invariant may speak of the
    units that have been taken, as they are by then, and of those that have not. -/
theorem ensures_eachUnit {act : Action Desk α}
    (inv : List TranslationUnit → List TranslationUnit → Workspace → Prop)
    (fail : Failure → Project → Prop)
    (hstep : ∀ done u rest, Action.Ensures
      (fun d => d.unit = u ∧ inv done (u :: rest) d.workspace) act
      (fun _ d => inv (done ++ [d.unit]) rest d.workspace)
      fun e d => fail e ⟨d.workspace, done ++ d.unit :: rest⟩) :
    Action.Ensures (fun p => inv [] p.units p.workspace) (eachUnit act)
      (fun _ p => inv p.units [] p.workspace) fail := by
  -- By induction on the units that are left, with those that have been taken as an argument.
  have hrest : ∀ us done w, inv done us w →
      (∀ xs p, runUnits act us w = .ok xs p → inv (done ++ p.units) [] p.workspace) ∧
      (∀ e p, runUnits act us w = .error e p → fail e ⟨p.workspace, done ++ p.units⟩) := by
    intro us
    induction us with
    | nil =>
        intro done w hinv
        rw [runUnits]
        refine ⟨?_, fun e p h => (by cases h)⟩
        rintro xs p ⟨rfl, rfl⟩
        rw [List.append_nil]
        exact hinv
    | cons u us ih =>
        intro done w hinv
        rw [runUnits]
        rcases hu : act ⟨w, u⟩ with ⟨x, d⟩ | ⟨e, d⟩
        · rcases ih _ _ ((hstep done u us).ok ⟨rfl, hinv⟩ hu) with ⟨hok, herror⟩
          simp only [List.append_assoc, List.singleton_append] at hok herror
          dsimp only
          rcases hus : runUnits act us d.workspace with ⟨xs, q⟩ | ⟨e, q⟩
          · refine ⟨?_, fun e p h => (by cases h)⟩
            rintro _ _ ⟨rfl, rfl⟩
            exact hok xs q hus
          · refine ⟨fun xs p h => (by cases h), ?_⟩
            rintro _ _ ⟨rfl, rfl⟩
            exact herror e q hus
        · refine ⟨fun xs p h => (by cases h), ?_⟩
          rintro _ _ ⟨rfl, rfl⟩
          exact (hstep done u us).error ⟨rfl, hinv⟩ hu
  refine .intro (fun p xs p' hinv h => ?_) fun p e p' hinv h => ?_
  · exact (hrest p.units [] p.workspace hinv).1 xs p' h
  · exact (hrest p.units [] p.workspace hinv).2 e p' h

/-- Showing a phase on the console changes nothing else. -/
theorem ensures_phase {number : Int} {label : Text} {body : Action Project α}
    {pre : Project → Prop} {post : α → Project → Prop} {fail : Failure → Project → Prop}
    (hpre : ∀ p c, pre p → pre ⟨{ p.workspace with console := c }, p.units⟩)
    (hpost : ∀ x p c, post x p → post x ⟨{ p.workspace with console := c }, p.units⟩)
    (h : Action.Ensures pre body post fail) :
    Action.Ensures pre (phase number label body) post fail := by
  unfold phase
  refine .followed ?_ fun activity => .bind h fun x => .followed ?_ fun _ => ?_
  · refine ensures_liftM fun p hp => ?_
    rintro w rfl
    exact hpre p _ hp
  · refine ensures_liftM fun p hp => ?_
    rintro w rfl
    exact hpost x p _ hp
  · exact .of_pure fun p hp => hp

end Project

end DialectBuild
