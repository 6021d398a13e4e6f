import DialectBuild.Text.Basic

/-!
# Shell Scripts

Scripts of the shell in which tools are written: what a word is made of, where the streams of
a command go, and how commands are put together.

## Main definitions

* `Shell.Piece`, `Shell.Word`: A word before its parameters are replaced.
* `Shell.Redirect`: Where a stream goes.
* `Shell.Script`: A script.
-/

namespace DialectBuild

namespace Shell

/-- A piece of a word. -/
inductive Piece where
  /-- Symbols that are not quoted. -/
  | plain (text : Text)
  /-- Symbols that are quoted. -/
  | quoted (text : Text)
  /-- The value of a parameter. -/
  | parameter (name : Text) (isQuoted : Bool)
  deriving DecidableEq, Inhabited, Repr

/-- A word before its parameters are replaced. -/
abbrev Word := List Piece

/-- The symbols of a piece that is neither quoted nor a parameter. -/
def Piece.literal? : Piece → Option Text
  | plain t => some t
  | _ => none

/-- The text of a word that has neither quotes nor parameters. -/
def Word.literal? (w : Word) : Option Text :=
  (w.mapM Piece.literal?).map List.flatten

/-- How a stream is redirected. -/
inductive RedirectKind where
  /-- It is read from a file. -/
  | read
  /-- It is written to a file, whose content is lost. -/
  | write
  /-- It is written to the end of a file. -/
  | append
  /-- It goes where another stream goes. -/
  | copy
  deriving DecidableEq, Inhabited, Repr

/-- Where a stream goes. -/
structure Redirect where
  /-- The number of the stream. -/
  stream : Nat
  /-- How it is redirected. -/
  kind : RedirectKind
  /-- The file or the number of the other stream. -/
  target : Word
  deriving DecidableEq, Inhabited, Repr

/-- A script. -/
inductive Script where
  /-- Nothing. -/
  | empty
  /-- A command on a line, with variables set for it. -/
  | simple (line : Nat) (bindings : List (Text × Word)) (words : List Word)
      (redirects : List Redirect)
  /-- One after the other. -/
  | sequence (first second : Script)
  /-- The second if the first succeeds. -/
  | both (first second : Script)
  /-- The second if the first fails. -/
  | either (first second : Script)
  /-- Success and failure exchanged. -/
  | negated (body : Script)
  /-- What the first prints is read by the second. -/
  | piped (first second : Script)
  /-- One or the other. -/
  | choice (test yes no : Script)
  /-- Again and again, as long as the test succeeds, or fails. -/
  | loop (whileFails : Bool) (test body : Script)
  /-- Once for each word, or for each argument. -/
  | each (name : Text) (words : Option (List Word)) (body : Script)
  /-- The first arm one of whose patterns fits. -/
  | cases (subject : Word) (arms : List (List Word × Script))
  /-- With streams redirected. -/
  | redirected (body : Script) (redirects : List Redirect)
  /-- In a shell of its own. -/
  | isolated (body : Script)
  deriving Inhabited

end Shell

end DialectBuild
