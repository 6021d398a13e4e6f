import DialectBuild.Text.Basic

/-!
# Scanning a Line

Steps for reading a line from the left. Each takes what it expects off the front and hands on
the rest, or fails.

## Main definitions

* `Text.skip?`: Past a fixed text.
* `Text.skipBlanks`, `Text.skipSomeBlanks?`: Past spaces and tabs.
* `Text.word?`: A word and what follows it.

## Theorems

* `Text.skip?_append`: A text that starts as expected is passed.
* `Text.eq_append_of_skip?`: What was passed is what was expected.
-/

namespace DialectBuild

namespace Text

/-- The rest of a text that starts with `s`. -/
def skip? (s t : Text) : Option Text :=
  if s.isPrefixOf t then some (t.drop s.length) else none

theorem skip?_append (s t : Text) : skip? s (s ++ t) = some t := by
  rw [skip?, if_pos (List.isPrefixOf_iff_prefix.mpr (List.prefix_append s t)),
    List.drop_left]

theorem eq_append_of_skip? {s t r : Text} (h : skip? s t = some r) : t = s ++ r := by
  unfold skip? at h
  split at h
  next hp =>
    obtain ⟨u, rfl⟩ := List.isPrefixOf_iff_prefix.mp hp
    rw [List.drop_left, Option.some.injEq] at h
    rw [h]
  next => simp only [reduceCtorEq] at h

/-- The rest of a text after its leading spaces and tabs. -/
def skipBlanks (t : Text) : Text :=
  t.dropWhile Symbol.isSpaceOrTab

/-- The rest of a text that starts with at least one space or tab. -/
def skipSomeBlanks? : Text → Option Text
  | x :: r => if x.isSpaceOrTab then some (skipBlanks r) else none
  | [] => none

/-- A word at the front of a text and what follows it. -/
def word? (t : Text) : Option (Text × Text) :=
  let word := t.takeWhile Symbol.isWord
  if word.isEmpty then none else some (word, t.dropWhile Symbol.isWord)

end Text

end DialectBuild
