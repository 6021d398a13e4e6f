import DialectBuild.Text.Scan

/-!
# What the Scanning Steps Accept

Each step that reads a line from the left, said as an equation on texts: the step succeeds
with a certain rest exactly if the line is what the step expects, followed by that rest. With
these a chain of steps is turned into the shape of the lines it accepts, and back.

Blanks are skipped greedily. A rest is therefore only reached if it does not start with a
blank itself, which is why the equations about blanks carry a condition on the rest.

## Main definitions

* `Text.IsBlankRun`: A text of spaces and tabs.
* `Text.StartsDark`: A text that does not start with a space or a tab.

## Theorems

* `Text.skip?_eq_some_iff`: Past a fixed text.
* `Text.skipBlanks_append`, `Text.exists_skipBlanks`: Past blanks, in both directions.
* `Text.skipSomeBlanks?_eq_some_iff`: Past at least one blank.
* `Text.word?_eq_some_iff`: Past a word.
-/

namespace DialectBuild

namespace Text

/-- The text has nothing but spaces and tabs. -/
def IsBlankRun (t : Text) : Prop :=
  ∀ x ∈ t, x.isSpaceOrTab = true

/-- The text does not start with a space or a tab. -/
def StartsDark (t : Text) : Prop :=
  ∀ x ∈ t.head?, x.isSpaceOrTab = false

theorem startsDark_cons {x : Symbol} {t : Text} : StartsDark (x :: t) ↔ x.isSpaceOrTab = false := by
  simp only [StartsDark, List.head?_cons, Option.mem_some_iff, forall_eq']

theorem skip?_eq_some_iff {s t r : Text} : skip? s t = some r ↔ t = s ++ r :=
  ⟨eq_append_of_skip?, fun h => h ▸ skip?_append s r⟩

theorem skipBlanks_of_startsDark {t : Text} (h : StartsDark t) : skipBlanks t = t := by
  cases t with
  | nil => rfl
  | cons x t =>
      rw [skipBlanks, List.dropWhile_cons, startsDark_cons.mp h, if_neg Bool.false_ne_true]

theorem skipBlanks_append {b r : Text} (hb : IsBlankRun b) (hr : StartsDark r) :
    skipBlanks (b ++ r) = r := by
  rw [skipBlanks, List.dropWhile_append_of_pos hb]
  exact skipBlanks_of_startsDark hr

theorem startsDark_skipBlanks (t : Text) : StartsDark (skipBlanks t) := by
  intro x hx
  have h := List.head?_dropWhile_not Symbol.isSpaceOrTab t
  rw [← skipBlanks, hx] at h
  exact h

theorem exists_skipBlanks (t : Text) : ∃ b, IsBlankRun b ∧ t = b ++ skipBlanks t :=
  ⟨t.takeWhile Symbol.isSpaceOrTab, List.all_eq_true.mp List.all_takeWhile,
    List.takeWhile_append_dropWhile.symm⟩

theorem skipSomeBlanks?_eq_some_iff {t r : Text} :
    skipSomeBlanks? t = some r ↔ StartsDark r ∧ ∃ b, b ≠ [] ∧ IsBlankRun b ∧ t = b ++ r := by
  cases t with
  | nil =>
      refine ⟨fun h => (by cases h), ?_⟩
      rintro ⟨_, b, hb, _, ht⟩
      exact absurd (List.append_eq_nil_iff.mp ht.symm).1 hb
  | cons x t =>
      rw [skipSomeBlanks?]
      -- One blank has to be there, and any more are skipped with it.
      by_cases hx : x.isSpaceOrTab = true
      · rw [if_pos hx, Option.some.injEq]
        constructor
        · intro h
          rcases exists_skipBlanks t with ⟨b, hb, ht⟩
          refine ⟨h ▸ startsDark_skipBlanks t, x :: b, List.cons_ne_nil x b, ?_, ?_⟩
          · exact List.forall_mem_cons.mpr ⟨hx, hb⟩
          · rw [List.cons_append, ← h, ← ht]
        · rintro ⟨hr, b, hne, hb, ht⟩
          cases b with
          | nil => exact absurd rfl hne
          | cons y b =>
              rw [List.cons_append, List.cons.injEq] at ht
              rw [ht.2]
              exact skipBlanks_append (List.forall_mem_cons.mp hb).2 hr
      · rw [if_neg hx]
        refine ⟨fun h => (by cases h), ?_⟩
        rintro ⟨_, b, hne, hb, ht⟩
        cases b with
        | nil => exact absurd rfl hne
        | cons y b =>
            rw [List.cons_append, List.cons.injEq] at ht
            rw [ht.1] at hx
            exact absurd (List.forall_mem_cons.mp hb).1 hx

/-- A word is read as far as it goes. -/
theorem word?_eq_some_iff {t w r : Text} : word? t = some (w, r) ↔
    w ≠ [] ∧ (∀ x ∈ w, x.isWord = true) ∧ (∀ x ∈ r.head?, x.isWord = false) ∧ t = w ++ r := by
  have hread : word? t = some (w, r) ↔
      w ≠ [] ∧ t.takeWhile Symbol.isWord = w ∧ t.dropWhile Symbol.isWord = r := by
    rw [word?]
    by_cases hempty : (t.takeWhile Symbol.isWord).isEmpty = true
    · rw [if_pos hempty]
      refine iff_of_false (fun h => (by cases h)) fun h => h.1 ?_
      rw [← h.2.1]
      exact List.isEmpty_iff.mp hempty
    · rw [if_neg hempty, Option.some.injEq, Prod.mk.injEq]
      refine ⟨fun h => ⟨fun hw => hempty ?_, h⟩, fun h => h.2⟩
      rw [h.1, hw]
      rfl
  rw [hread]
  refine and_congr_right fun _ => ?_
  constructor
  · rintro ⟨rfl, rfl⟩
    refine ⟨List.all_eq_true.mp List.all_takeWhile, fun x hx => ?_,
      List.takeWhile_append_dropWhile.symm⟩
    have h := List.head?_dropWhile_not Symbol.isWord t
    rw [hx] at h
    exact h
  · rintro ⟨hw, hr, rfl⟩
    -- The word does not go on in what comes after it.
    have hstop : r.takeWhile Symbol.isWord = [] ∧ r.dropWhile Symbol.isWord = r := by
      cases r with
      | nil => exact ⟨rfl, rfl⟩
      | cons x r =>
          rw [List.takeWhile_cons, List.dropWhile_cons, hr x rfl]
          exact ⟨rfl, rfl⟩
    rw [List.takeWhile_append_of_pos hw, List.dropWhile_append_of_pos hw, hstop.1, hstop.2,
      List.append_nil]
    exact ⟨rfl, rfl⟩

end Text

end DialectBuild
