import DialectBuild.Code.Lexeme

/-!
# Tokens

The pieces of C text that a compiler reads, each with the line it starts on, and how a list
of them is written out again.

A line is counted at each line feed between tokens. A line feed inside a token, which only an
escape in a literal can bring there, is not counted.

## Main definitions

* `Token`: A piece that a compiler reads.
* `tokensOf`: The tokens among the pieces of a text.
* `tokenize`: The tokens of a text.
* `Token.isSpaced`: Where the written form has a space.
* `spell`: The written form of a list of tokens.
-/

namespace DialectBuild

/-- A piece that a compiler reads, with the number of the line it starts on. -/
structure Token where
  /-- What the token is. -/
  kind : TokenKind
  /-- The token itself. -/
  text : Text
  /-- The line it starts on, counted from one. -/
  line : Nat
  deriving DecidableEq, Inhabited, Repr

/-- The tokens among the pieces of a text that starts on the given line. -/
def tokensOf : Nat → List Lexeme → List Token
  | _, [] => []
  | line, l :: ls =>
      match l.kind with
      -- Line feeds inside a token are not counted.
      | .token kind => ⟨kind, l.text, line⟩ :: tokensOf line ls
      | _ => tokensOf (line + l.text.lineFeeds) ls

/-- The tokens of a text. -/
def tokenize (s : Text) : List Token :=
  tokensOf 1 (lexemes s)

namespace Token

/-- Whether the token is a word or a literal, which must not touch another one. -/
def isWordlike (t : Token) : Bool :=
  t.kind != .punct

/-- Whether the token has the given spelling. -/
def spells (t : Token) (s : Text) : Bool :=
  t.text == s

/-- Whether the written form has a space between two neighbours: after a comma, between words
    and before a star or a parenthesis that follows a word. -/
def isSpaced (before t : Token) : Bool :=
  if before.spells "," then true
  else if t.isWordlike then before.isWordlike
  else if t.spells "*" then before.isWordlike || before.spells ")"
  else if t.spells "(" then before.isWordlike
  else t.spells "..."

/-- What the written form has between two neighbours. -/
def gap (before t : Token) : Text :=
  if before.isSpaced t then [.char ' '] else []

end Token

/-- The written form of what follows the token `before`. -/
def spellAfter (before : Token) : List Token → Text
  | [] => []
  | t :: ts => before.gap t ++ t.text ++ spellAfter t ts

/-- The written form of a list of tokens. -/
def spell : List Token → Text
  | [] => []
  | t :: ts => t.text ++ spellAfter t ts

end DialectBuild
