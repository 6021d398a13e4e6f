import DialectBuild.Text.Basic

/-!
# Quoted Texts

How a message shows a path or an argument: between quotes, with an escape for everything
that would not show as itself.

Single quotes are used unless the text has one of them and no double quote. Printable
characters stand for themselves; a backslash and the quote in use are escaped with a
backslash; anything else is a backslash with a letter, or its code in two, four or eight
hexadecimal digits. An undecodable byte is shown by its code, too.

## Main definitions

* `Quoted.hex`: A number in hexadecimal, of a fixed width.
* `Quoted.escape`: How one symbol is shown.
* `Text.quoted`: The text between quotes.
-/

namespace DialectBuild

namespace Quoted

/-- The digits of `n` in base sixteen, at least `width` of them. -/
def hex (width n : Nat) : Text :=
  let digits := Nat.toDigits 16 n
  (List.replicate (width - digits.length) '0' ++ digits).map Symbol.char

/-- The escape for a code that does not show as itself, the shortest that can hold it. -/
def numeric (n : Nat) : Text :=
  if n < 0x100 then "\\x" ++ hex 2 n
  else if n < 0x10000 then "\\u" ++ hex 4 n
  else "\\U" ++ hex 8 n

/-- How one symbol is shown between quotes of the kind `q`. -/
def escape (q : Char) : Symbol → Text
  | .char c =>
      if c = q ∨ c = '\\' then [.char '\\', .char c]
      else if c = '\n' then "\\n"
      else if c = '\r' then "\\r"
      else if c = '\t' then "\\t"
      else if Property.isPrintable c then [.char c]
      else numeric c.toNat
  | .byte b => numeric (Symbol.byte b).code

end Quoted

/-- The text between quotes, as a message shows it. -/
def Text.quoted (t : Text) : Text :=
  let q := if t.contains (.char '\x27') && !t.contains (.char '\x22') then '\x22' else '\x27'
  [.char q] ++ t.flatMap (Quoted.escape q) ++ [.char q]

end DialectBuild
