import Mathlib
import DialectBuild.Workspace

/-!
# How Steps End Well

What it means for a chain of steps to succeed. A chain succeeds exactly if each of its steps
does, with the next one starting where the last one left off, so a successful run can be
taken apart from the outside without opening any of the steps in it.

Errors are handled in two ways only, and both handlers used by the build fail again. An action
with such a handler succeeds exactly if it does without it.

## Theorems

* `Outcome.bind_eq_ok_iff`, `Outcome.mapM_eq_ok_iff`, `Outcome.filterM_eq_ok_iff`: Values that
  may be failures.
* `Action.bind_eq_ok_iff`: Two actions one after the other.
* `Action.onOsError_eq_ok_iff`, `Action.onBuildError_eq_ok_iff`: An action whose handler always
  fails.
-/

namespace DialectBuild

namespace Outcome

variable {ε α β : Type}

theorem bind_eq_ok_iff {x : Except ε α} {f : α → Except ε β} {b : β} :
    (x >>= f) = .ok b ↔ ∃ a, x = .ok a ∧ f a = .ok b := by
  cases x with
  | error e =>
      refine ⟨fun h => (by cases h), ?_⟩
      rintro ⟨a, h, _⟩
      cases h
  | ok a =>
      refine ⟨fun h => ⟨a, rfl, h⟩, ?_⟩
      rintro ⟨b, hb, h⟩
      rw [← Except.ok.inj hb] at h
      exact h

theorem pure_eq_ok_iff {a b : α} : (pure a : Except ε α) = .ok b ↔ a = b :=
  ⟨Except.ok.inj, fun h => h ▸ rfl⟩

theorem mapError_eq_ok_iff {ε' : Type} {x : Except ε α} {f : ε → ε'} {a : α} :
    x.mapError f = .ok a ↔ x = .ok a := by
  cases x with
  | error e => exact ⟨fun h => (by cases h), fun h => (by cases h)⟩
  | ok b =>
      exact ⟨fun h => congrArg Except.ok (Except.ok.inj h),
        fun h => congrArg Except.ok (Except.ok.inj h)⟩

/-- Doing something to each element succeeds exactly if it does so for every one. -/
theorem mapM_eq_ok_iff {f : α → Except ε β} {l : List α} {r : List β} :
    l.mapM f = .ok r ↔ l.map f = r.map .ok := by
  induction l generalizing r with
  | nil =>
      rw [List.mapM_nil, pure_eq_ok_iff, List.map_nil, eq_comm, eq_comm (a := []),
        List.map_eq_nil_iff]
  | cons a l ih =>
      simp only [List.mapM_cons, bind_eq_ok_iff, pure_eq_ok_iff, ih]
      constructor
      · rintro ⟨b, hb, bs, hbs, rfl⟩
        rw [List.map_cons, List.map_cons, hb, hbs]
      · intro h
        cases r with
        | nil => cases h
        | cons b bs =>
            rw [List.map_cons, List.map_cons, List.cons.injEq] at h
            exact ⟨b, h.1, bs, h.2, rfl⟩

/-- The results are those of the elements. -/
theorem mem_iff_of_map_eq {f : α → Except ε β} {l : List α} {r : List β}
    (h : l.map f = r.map .ok) {b : β} : b ∈ r ↔ ∃ a ∈ l, f a = .ok b := by
  rw [← List.mem_map, h, List.mem_map]
  constructor
  · exact fun hb => ⟨b, hb, rfl⟩
  · rintro ⟨c, hc, hcb⟩
    exact Except.ok.inj hcb ▸ hc

theorem exists_ok_of_map_eq {f : α → Except ε β} {l : List α} {r : List β}
    (h : l.map f = r.map .ok) : ∀ a ∈ l, ∃ b, f a = .ok b := by
  intro a ha
  have hmem := List.mem_map_of_mem (f := f) ha
  rw [h, List.mem_map] at hmem
  rcases hmem with ⟨b, _, hb⟩
  exact ⟨b, hb.symm⟩

theorem exists_map_eq_of_forall {f : α → Except ε β} {l : List α}
    (h : ∀ a ∈ l, ∃ b, f a = .ok b) : ∃ r : List β, l.map f = r.map .ok := by
  induction l with
  | nil => exact ⟨[], rfl⟩
  | cons a l ih =>
      rcases List.forall_mem_cons.mp h with ⟨⟨b, hb⟩, h⟩
      rcases ih h with ⟨r, hr⟩
      exact ⟨b :: r, by rw [List.map_cons, List.map_cons, hb, hr]⟩

/-- What is looked for among the results can be looked for among the arguments. -/
theorem findIdx?_of_map_eq {f : α → Except ε β} {p : β → Bool} {q : α → Bool}
    (hpq : ∀ a b, f a = .ok b → q a = p b) {l : List α} {r : List β} (h : l.map f = r.map .ok) :
    l.findIdx? q = r.findIdx? p := by
  induction l generalizing r with
  | nil =>
      rw [List.map_nil, eq_comm, List.map_eq_nil_iff] at h
      rw [h, List.findIdx?_nil, List.findIdx?_nil]
  | cons a l ih =>
      rcases List.map_eq_cons_iff.mp h.symm with ⟨b, r', rfl, hb, hr'⟩
      rw [List.findIdx?_cons, List.findIdx?_cons, hpq a b hb.symm, ih hr'.symm]

theorem filterAuxM_of_ok {p : α → Except ε Bool} {q : α → Bool} {l : List α}
    (h : ∀ a ∈ l, p a = .ok (q a)) (acc : List α) :
    l.filterAuxM p acc = .ok ((l.filter q).reverse ++ acc) := by
  induction l generalizing acc with
  | nil => rfl
  | cons a l ih =>
      rcases List.forall_mem_cons.mp h with ⟨ha, h⟩
      rw [List.filterAuxM, ha, List.filter_cons]
      refine (ih h _).trans ?_
      cases q a with
      | false => rfl
      | true =>
          rw [if_pos rfl, List.reverse_cons, List.append_assoc, cond_true, List.singleton_append]

theorem exists_ok_of_filterAuxM {p : α → Except ε Bool} {l acc r : List α}
    (h : l.filterAuxM p acc = .ok r) : ∀ a ∈ l, ∃ b, p a = .ok b := by
  induction l generalizing acc with
  | nil => exact fun a ha => absurd ha List.not_mem_nil
  | cons a l ih =>
      rw [List.filterAuxM, bind_eq_ok_iff] at h
      rcases h with ⟨b, hb, h⟩
      exact List.forall_mem_cons.mpr ⟨⟨b, hb⟩, ih h⟩

/-- Choosing elements succeeds exactly if every question about one of them is answered. -/
theorem filterM_eq_ok_iff {p : α → Except ε Bool} {l r : List α} :
    l.filterM p = .ok r ↔
      ∃ q : α → Bool, (∀ a ∈ l, p a = .ok (q a)) ∧ r = l.filter q := by
  rw [List.filterM, bind_eq_ok_iff]
  constructor
  · rintro ⟨s, hs, hr⟩
    -- All questions were answered, so the answers make a class of elements.
    have hq : ∀ a ∈ l, p a = .ok ((p a).toOption.getD false) := by
      intro a ha
      rcases exists_ok_of_filterAuxM hs a ha with ⟨b, hb⟩
      rw [hb]
      rfl
    refine ⟨_, hq, ?_⟩
    rw [filterAuxM_of_ok hq, List.append_nil, Except.ok.injEq] at hs
    rw [← pure_eq_ok_iff.mp hr, ← hs, List.reverse_reverse]
  · rintro ⟨q, hq, rfl⟩
    refine ⟨_, filterAuxM_of_ok hq [], ?_⟩
    rw [List.append_nil, List.reverse_reverse]
    rfl

end Outcome

namespace Action

variable {σ α β : Type}

/-- Two actions succeed one after the other exactly if the second does from where the first
    ends. -/
theorem bind_eq_ok_iff {x : Action σ α} {f : α → Action σ β} {s s' : σ} {b : β} :
    (x >>= f) s = .ok b s' ↔ ∃ a s₁, x s = .ok a s₁ ∧ f a s₁ = .ok b s' := by
  have hbind : (x >>= f) s = EStateM.bind x f s := rfl
  rw [hbind, EStateM.bind]
  rcases x s with ⟨a, s₁⟩ | ⟨e, s₁⟩
  · constructor
    · exact fun h => ⟨a, s₁, rfl, h⟩
    · rintro ⟨_, _, heq, h⟩
      rcases heq with ⟨rfl, rfl⟩
      exact h
  · refine ⟨fun h => (by cases h), ?_⟩
    rintro ⟨_, _, heq, _⟩
    cases heq

theorem bind_of_ok {x : Action σ α} {a : α} {s s₁ : σ} (h : x s = .ok a s₁)
    (f : α → Action σ β) : (x >>= f) s = f a s₁ := by
  have hbind : (x >>= f) s = EStateM.bind x f s := rfl
  rw [hbind, EStateM.bind, h]

theorem pure_eq_ok_iff {a b : α} {s s' : σ} :
    (pure a : Action σ α) s = .ok b s' ↔ a = b ∧ s = s' := by
  constructor
  · rintro ⟨rfl, rfl⟩
    exact ⟨rfl, rfl⟩
  · rintro ⟨rfl, rfl⟩
    rfl

theorem throw_eq_ok_iff {e : Failure} {b : α} {s s' : σ} :
    (throw e : Action σ α) s = .ok b s' ↔ False :=
  ⟨fun h => (by cases h), False.elim⟩

theorem get_eq_ok_iff {s t s' : σ} : (get : Action σ σ) s = .ok t s' ↔ s = t ∧ s = s' :=
  pure_eq_ok_iff (a := s)

theorem set_eq_ok_iff {s t s' : σ} {u : PUnit} :
    (set t : Action σ PUnit) s = .ok u s' ↔ t = s' := by
  refine ⟨fun h => ?_, fun h => h ▸ rfl⟩
  rcases h with ⟨rfl, rfl⟩
  rfl

theorem modify_eq_ok_iff {f : σ → σ} {s s' : σ} {u : PUnit} :
    (modify f : Action σ PUnit) s = .ok u s' ↔ f s = s' := by
  refine ⟨fun h => ?_, fun h => h ▸ rfl⟩
  rcases h with ⟨rfl, rfl⟩
  rfl

theorem ofExcept_eq_ok_iff {x : Except Failure α} {b : α} {s s' : σ} :
    (ofExcept x : Action σ α) s = .ok b s' ↔ x = .ok b ∧ s = s' := by
  cases x with
  | error e =>
      refine ⟨fun h => (by cases h), ?_⟩
      rintro ⟨h, _⟩
      cases h
  | ok a => rw [ofExcept, pure_eq_ok_iff, Except.ok.injEq]

/-- An action whose errors are handled by failing again succeeds exactly if it does on its
    own. -/
theorem tryCatch_eq_ok_iff {x : Action σ α} {handle : Failure → Action σ α} {s s' : σ} {b : α}
    (hfail : ∀ e t, ∀ a t', handle e t ≠ .ok a t') :
    (tryCatch x handle) s = .ok b s' ↔ x s = .ok b s' := by
  have htry : (tryCatch x handle) s = EStateM.tryCatch x handle s := rfl
  rw [htry, EStateM.tryCatch]
  rcases x s with ⟨a, s₁⟩ | ⟨e, s₁⟩
  · exact Iff.rfl
  · exact ⟨fun h => absurd h (hfail e s₁ b s'), fun h => (by cases h)⟩

theorem tryCatch_of_error {x : Action σ α} {handle : Failure → Action σ α} {s s' : σ} {e : Failure}
    (h : x s = .error e s') : (tryCatch x handle) s = handle e s' := by
  have htry : (tryCatch x handle) s = EStateM.tryCatch x handle s := rfl
  rw [htry, EStateM.tryCatch, h]
  rfl

theorem onOsError_eq_ok_iff {x : Action σ α} {handle : OsError → Action σ α} {s s' : σ} {b : α}
    (hfail : ∀ e t, ∀ a t', handle e t ≠ .ok a t') :
    x.onOsError handle s = .ok b s' ↔ x s = .ok b s' := by
  refine tryCatch_eq_ok_iff (fun e t a t' => ?_)
  cases e with
  | os o => exact hfail o t a t'
  | _ =>
      intro h
      cases h

/-- An error of the file system is handled. -/
theorem onOsError_of_error {x : Action σ α} {handle : OsError → Action σ α} {s s' : σ} {o : OsError}
    (h : x s = .error (.os o) s') : x.onOsError handle s = handle o s' :=
  tryCatch_of_error h

theorem onBuildError_eq_ok_iff {x : Action σ α} {handle : BuildError → Action σ α} {s s' : σ}
    {b : α} (hfail : ∀ e t, ∀ a t', handle e t ≠ .ok a t') :
    x.onBuildError handle s = .ok b s' ↔ x s = .ok b s' := by
  refine tryCatch_eq_ok_iff (fun e t a t' => ?_)
  cases e with
  | build o => exact hfail o t a t'
  | _ =>
      intro h
      cases h

/-- An action whose errors are handled succeeds by itself or by its handler. -/
theorem onBuildError_eq_ok {x : Action σ α} {handle : BuildError → Action σ α} {s s' : σ} {b : α}
    (h : x.onBuildError handle s = .ok b s') :
    x s = .ok b s' ∨ ∃ e t, x s = .error (.build e) t ∧ handle e t = .ok b s' := by
  have htry : ∀ g : Failure → Action σ α, (tryCatch x g) s = EStateM.tryCatch x g s :=
    fun _ => rfl
  rw [onBuildError, htry, EStateM.tryCatch] at h
  rcases hx : x s with ⟨a, t⟩ | ⟨e, t⟩
  · rw [hx] at h
    exact Or.inl h
  · rw [hx] at h
    cases e with
    | build e => exact Or.inr ⟨e, t, rfl, h⟩
    | _ => exact absurd h (fun h => throw_eq_ok_iff.mp h)

end Action

namespace FileAction

theorem query_eq_ok_iff {α : Type} {q : Files → Except Failure α} {f f' : Files} {a : α} :
    query q f = .ok a f' ↔ q f = .ok a ∧ f = f' := by
  simp only [query, Action.bind_eq_ok_iff, Action.get_eq_ok_iff, Action.ofExcept_eq_ok_iff]
  constructor
  · rintro ⟨_, _, ⟨rfl, rfl⟩, h⟩
    exact h
  · exact fun h => ⟨f, f, ⟨rfl, rfl⟩, h⟩

theorem change_eq_ok_iff {c : Files → Except Failure Files} {f f' : Files} {u : Unit} :
    change c f = .ok u f' ↔ c f = .ok f' := by
  simp only [change, Action.bind_eq_ok_iff, query_eq_ok_iff, Action.set_eq_ok_iff]
  constructor
  · rintro ⟨_, _, ⟨h, rfl⟩, rfl⟩
    exact h
  · exact fun h => ⟨f', f, ⟨h, rfl⟩, rfl⟩

/-- A change that fails leaves the files as they are. -/
theorem change_of_error {c : Files → Except Failure Files} {f : Files} {e : Failure}
    (h : c f = .error e) : change c f = .error e f := by
  have hquery : query c f = (Action.ofExcept (c f) : FileAction Files) f := rfl
  have hchange : change c f = EStateM.bind (query c) set f := rfl
  rw [hchange, EStateM.bind, hquery, h]
  rfl

end FileAction

end DialectBuild
