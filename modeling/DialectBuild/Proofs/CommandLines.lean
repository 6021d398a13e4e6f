import DialectBuild.Tool.Basic
import Mathlib

/-!
# Command Lines Read Back

A command that was run is reported as a line, with quotes where an argument needs them. Whoever
copies the line into a shell, or into a variable that the build reads flags from, should run the
same command again: the words of the line are the arguments, whatever symbols they have.

An argument is read from inside a line. The reader stands between two words or in one, and more
words follow, so each statement below is about an argument with the rest of the line after it. What
an argument adds to the word is the argument itself. It never leaves the reader inside quotes or
behind a backslash, which is why a line that was written always has a reading and is never cut at
white space.

## Theorems

* `ShellWords.read?_bare_safe`: Symbols that need no quotes stand for themselves.
* `ShellWords.read?_single_quoteSymbol`, `ShellWords.read?_single_quoted`: So do all others between
  single quotes.
* `ShellWords.read?_between_quote`: An argument is a word of its own.
* `ShellWords.split?_join`: The words of a line are the arguments it was written from.
* `ToolReport.flags_commandText`: The line of a report stands for its command.
-/

namespace DialectBuild

namespace ShellWords

variable {x : Symbol} {word arg rest : Text}

/-- A symbol that needs no quotes neither separates words nor opens anything. -/
theorem plain_of_isSafe (h : isSafe x = true) : isSeparator x = false ∧ Place.enter x = .bare := by
  have hquoted : ∀ y ∈ (" \t\r\n'\"\\" : Text), isSafe y = false := by decide
  have hne : ∀ y ∈ (" \t\r\n'\"\\" : Text), x ≠ y := by
    rintro y hy rfl
    exact absurd h (by rw [hquoted x hy]; decide)
  simp only [Text.ofString, String.reduceToList, List.map_cons, List.map_nil, List.forall_mem_cons,
    List.not_mem_nil] at hne
  simp only [isSeparator, Place.enter, hne, decide_false, Bool.or_self, if_false, and_self]

/-- In a word, a symbol that separates nothing is entered. -/
theorem read?_bare_cons (hsep : isSeparator x = false) (word rest : Text) :
    read? .bare word (x :: rest) = read? (.enter x) (word ++ Place.entered x) rest := by
  rw [read?, hsep, if_neg Bool.false_ne_true]

/-- Between words such a symbol opens a word, and does what it does in an empty one. -/
theorem read?_between_cons (hsep : isSeparator x = false) (rest : Text) :
    read? .between [] (x :: rest) = read? .bare [] (x :: rest) := by
  rw [read?_bare_cons hsep, List.nil_append, read?, hsep, if_neg Bool.false_ne_true]

/-- A quote or a backslash in a word changes the place and leaves the word as it is. -/
theorem read?_bare_enter (hsep : isSeparator x = false) (henter : Place.enter x ≠ .bare) :
    read? .bare word (x :: rest) = read? (.enter x) word rest := by
  rw [read?_bare_cons hsep, Place.entered, if_neg henter, List.append_nil]

/-- Symbols that need no quotes stand for themselves. -/
theorem read?_bare_safe (h : arg.all isSafe = true) (word rest : Text) :
    read? .bare word (arg ++ rest) = read? .bare (word ++ arg) rest := by
  induction arg generalizing word with
  | nil => rw [List.nil_append, List.append_nil]
  | cons x arg ih =>
      rw [List.all_cons, Bool.and_eq_true] at h
      rcases plain_of_isSafe h.1 with ⟨hsep, henter⟩
      rw [List.cons_append, read?_bare_cons hsep, Place.entered, if_pos henter, henter, ih h.2,
        List.append_assoc, List.singleton_append]

/-- Between single quotes a symbol stands for itself, a single quote by way of double quotes. -/
theorem read?_single_quoteSymbol (word : Text) (x : Symbol) (rest : Text) :
    read? .single word (quoteSymbol x ++ rest) = read? .single (word ++ [x]) rest := by
  by_cases hx : x = '\x27'
  · -- The quotes close, a pair of double quotes holds the symbol, and they open again.
    subst hx
    calc read? .single word (quoteSymbol (.char '\x27') ++ rest)
        = read? .bare word ("\"'\"'" ++ rest) := rfl
      _ = read? .double word ("'\"'" ++ rest) := read?_bare_enter (by decide) (by decide)
      _ = read? .bare (word ++ [.char '\x27']) ("'" ++ rest) := rfl
      _ = read? .single (word ++ [.char '\x27']) rest := read?_bare_enter (by decide) (by decide)
  · rw [quoteSymbol, if_neg hx, List.singleton_append, read?, if_neg hx]

/-- So does a text between single quotes. -/
theorem read?_single_quoted (word arg rest : Text) :
    read? .single word (arg.flatMap quoteSymbol ++ rest) = read? .single (word ++ arg) rest := by
  induction arg generalizing word with
  | nil => rw [List.flatMap_nil, List.nil_append, List.append_nil]
  | cons x arg ih =>
      rw [List.flatMap_cons, List.append_assoc, read?_single_quoteSymbol, ih, List.append_assoc,
        List.singleton_append]

/-- In a word, a written argument adds itself to the word. -/
theorem read?_bare_quote (word arg rest : Text) :
    read? .bare word (quote arg ++ rest) = read? .bare (word ++ arg) rest := by
  -- The three spellings: an empty word, a word that needs no quotes, a quoted one.
  rw [quote]
  split
  next hempty =>
    rw [List.isEmpty_iff.mp hempty, List.append_nil]
    calc read? .bare word ("''" ++ rest)
        = read? .single word ("'" ++ rest) := read?_bare_enter (by decide) (by decide)
      _ = read? .bare word rest := rfl
  next =>
    split
    next hsafe => exact read?_bare_safe hsafe word rest
    next =>
      rw [List.append_assoc, List.append_assoc]
      calc read? .bare word ("'" ++ (arg.flatMap quoteSymbol ++ ("'" ++ rest)))
          = read? .single word (arg.flatMap quoteSymbol ++ ("'" ++ rest)) :=
            read?_bare_enter (by decide) (by decide)
        _ = read? .single (word ++ arg) ("'" ++ rest) := read?_single_quoted word arg _
        _ = read? .bare (word ++ arg) rest := rfl

/-- A written argument starts with a symbol that separates nothing. -/
theorem exists_quote_eq_cons (arg : Text) :
    ∃ x r, quote arg = x :: r ∧ isSeparator x = false := by
  rw [quote]
  split
  next => exact ⟨_, _, rfl, by decide⟩
  next hempty =>
    split
    next hsafe =>
      rcases List.exists_cons_of_ne_nil (mt List.isEmpty_iff.mpr hempty) with ⟨x, r, rfl⟩
      rw [List.all_cons, Bool.and_eq_true] at hsafe
      exact ⟨x, r, rfl, (plain_of_isSafe hsafe.1).1⟩
    next => exact ⟨_, _, rfl, by decide⟩

/-- Between words, a written argument is a word of its own. -/
theorem read?_between_quote (arg rest : Text) :
    read? .between [] (quote arg ++ rest) = read? .bare arg rest := by
  rcases exists_quote_eq_cons arg with ⟨x, r, hquote, hsep⟩
  calc read? .between [] (quote arg ++ rest)
      = read? .bare [] (quote arg ++ rest) := by
        rw [hquote, List.cons_append, read?_between_cons hsep]
    _ = read? .bare arg rest := by rw [read?_bare_quote, List.nil_append]

/-- The words of a line are the arguments it was written from. -/
theorem split?_join (args : List Text) : split? (join args) = some args := by
  rw [split?, join, Text.join]
  -- A word is ended by the blank after it, so the last one is read on its own.
  induction args with
  | nil => rfl
  | cons arg args ih =>
      cases args with
      | nil =>
          have hlast := read?_between_quote arg []
          rw [List.append_nil] at hlast
          rw [List.map_singleton, List.intercalate_singleton, hlast, read?]
      | cons next args =>
          rw [List.map_cons] at ih
          rw [List.map_cons, List.map_cons, List.intercalate_cons_cons, List.append_assoc,
            read?_between_quote]
          calc read? .bare arg (" " ++ List.intercalate " " (quote next :: args.map quote))
              = (read? .between [] (List.intercalate " " (quote next :: args.map quote))).map
                  (arg :: ·) := rfl
            _ = some (arg :: next :: args) := by rw [ih, Option.map_some]

example : join ["", "it's", "-DX=a b", "-O2"] = "'' 'it'\"'\"'s' '-DX=a b' -O2" := by decide

end ShellWords

/-- The line of a report has a reading as shell words, and it is the command, so that flags read
    from the line are the command as well and are never what lies between white space. -/
theorem ToolReport.flags_commandText (r : ToolReport) :
    ShellWords.split? r.commandText = some r.command ∧
      ShellWords.flags r.commandText = r.command := by
  have hsplit : ShellWords.split? r.commandText = some r.command := ShellWords.split?_join r.command
  exact ⟨hsplit, by rw [ShellWords.flags, hsplit, Option.getD_some]⟩

end DialectBuild
