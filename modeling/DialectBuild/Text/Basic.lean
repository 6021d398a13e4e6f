import DialectBuild.Text.Property.Alphanumeric
import DialectBuild.Text.Property.Blank
import DialectBuild.Text.Property.Digit
import DialectBuild.Text.Property.Printable
import DialectBuild.Text.Property.Uppercase

/-!
# Text

Source text, path names and messages. A text is a list of symbols: a character, or a byte
that could not be read as part of one. Keeping such bytes as symbols of their own is what
lets any file pass through the build unchanged, since each byte is written back as it came.

A byte symbol belongs to no character class: it is neither a word symbol, a digit nor a
blank, and it has no capital form.

## Main definitions

* `Symbol`: A character or an undecodable byte.
* `Text`: A list of symbols. A string literal stands for the text of its characters.
* `Symbol.code`: The position of a symbol in the order of texts.
* `Text.le`: Texts ordered by their codes.
* `Text.trim`, `Text.trimEnd`: Removing symbols of a class at the ends.
* `Text.fields`: Splitting at a separator.
* `Text.words`: Splitting at runs of blanks.
* `Text.capitalized`: The capital form of a text.
-/

namespace DialectBuild

/-- One element of a text: a character, or a byte that is no part of a valid character. -/
inductive Symbol where
  | char (c : Char)
  | byte (b : UInt8)
  deriving DecidableEq, Inhabited, Repr

/-- A sequence of symbols. -/
abbrev Text := List Symbol

instance : Coe Char Symbol := ⟨Symbol.char⟩

namespace Symbol

/-- The number that orders symbols. A character counts as its code point; bytes fill the gap
    at U+DC80, where no character lives. -/
def code : Symbol → Nat
  | char c => c.toNat
  | byte b => 0xDC00 + b.toNat

/-- A letter, a number or the underscore. -/
def isWord : Symbol → Bool
  | char c => c == '_' || Property.isAlphanumeric c
  | byte _ => false

/-- A decimal digit of any script. -/
def isDigit : Symbol → Bool
  | char c => Property.isDecimal c
  | byte _ => false

/-- White space of any kind, line ends included. -/
def isBlank : Symbol → Bool
  | char c => Property.isBlank c
  | byte _ => false

/-- The space and the tab, the only symbols that separate words on a directive line. -/
def isSpaceOrTab (s : Symbol) : Bool :=
  s = ' ' || s = '\t'

/-- The carriage return and the line feed. -/
def isLineEnd (s : Symbol) : Bool :=
  s = '\r' || s = '\n'

/-- The capital form of a symbol. -/
def capitals : Symbol → Text
  | char c => (Property.capitals c).map char
  | byte b => [byte b]

end Symbol

namespace Text

/-- The text of a string's characters. -/
def ofString (s : String) : Text :=
  s.toList.map Symbol.char

instance : Coe String Text := ⟨ofString⟩

/-- A number in decimal. -/
def ofNat (n : Nat) : Text :=
  ofString (toString n)

/-- An integer in decimal, with a sign only if it is negative. -/
def ofInt (n : Int) : Text :=
  ofString (toString n)

/-- The codes of a text's symbols, by which texts are ordered. -/
def codes (t : Text) : List Nat :=
  t.map Symbol.code

/-- Texts in dictionary order of their codes: `t` does not come before `s`. -/
def le (s t : Text) : Bool :=
  !t.codes.lex s.codes (· < ·)

/-- Whether `t` begins with `s`. -/
def startsWith (t s : Text) : Bool :=
  s.isPrefixOf t

/-- Whether `t` ends with `s`. -/
def endsWith (t s : Text) : Bool :=
  s.isSuffixOf t

/-- Whether `s` stands somewhere inside the text. -/
def hasPart (s : Text) : Text → Bool
  | [] => s.isEmpty
  | x :: r => s.isPrefixOf (x :: r) || hasPart s r

/-- The text without its trailing symbols of the class `p`. -/
def trimEnd (p : Symbol → Bool) (t : Text) : Text :=
  (t.reverse.dropWhile p).reverse

/-- The text without its leading and trailing symbols of the class `p`. -/
def trim (p : Symbol → Bool) (t : Text) : Text :=
  trimEnd p (t.dropWhile p)

/-- Splits at every `sep`. There is one more field than there are separators. -/
def fields (sep : Symbol) : Text → List Text
  | [] => [[]]
  | x :: r =>
      if x = sep then
        [] :: fields sep r
      else
        match fields sep r with
        | [] => [[x]]
        | f :: fs => (x :: f) :: fs

/-- The texts one after the other with `sep` between neighbours. -/
def join (sep : Text) (ts : List Text) : Text :=
  sep.intercalate ts

/-- Adds `x` to the words found in what follows it. A blank closes a word, so an empty first
    word means that one was just closed. -/
def addToWords (x : Symbol) (ws : List Text) : List Text :=
  if x.isBlank then
    match ws with
    | [] :: _ => ws
    | _ => [] :: ws
  else
    match ws with
    | [] => [[x]]
    | w :: ws => (x :: w) :: ws

/-- The maximal runs of symbols that are not blank. -/
def words (t : Text) : List Text :=
  (t.foldr addToWords []).filter (!·.isEmpty)

/-- Every symbol replaced by its capital form. -/
def capitalized (t : Text) : Text :=
  t.flatMap Symbol.capitals

end Text

end DialectBuild
