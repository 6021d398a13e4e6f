import DialectBuild.Text.Basic

/-!
# Shell Words

Command lines as people write them in a shell, and the lists of arguments they stand for.

Words are separated by spaces, tabs and line ends. Inside single quotes every symbol stands
for itself. Inside double quotes a backslash makes a double quote or another backslash stand
for itself, and is otherwise kept. Elsewhere a backslash makes the next symbol stand for
itself. There are no comments and no expansions.

A quote left open, or a backslash at the very end, leaves the line without a reading. Flag
lists are then cut at white space instead, so that a stray quote in the environment never
stops a build.

## Main definitions

* `ShellWords.split?`: The words of a line.
* `ShellWords.quote`, `ShellWords.join`: Writing arguments as a line.
* `ShellWords.flags`: The words of a line, or what lies between white space if it has none.
-/

namespace DialectBuild

namespace ShellWords

/-- Where the reader of a line stands. -/
inductive Place where
  /-- Between two words. -/
  | between
  /-- In a word, outside quotes. -/
  | bare
  /-- Inside single quotes. -/
  | single
  /-- Inside double quotes. -/
  | double
  /-- After a backslash outside quotes. -/
  | escaped
  /-- After a backslash inside double quotes. -/
  | doubleEscaped
  deriving DecidableEq, Repr

/-- The symbols that separate words. -/
def isSeparator (s : Symbol) : Bool :=
  s = ' ' || s = '\t' || s = '\r' || s = '\n'

/-- The place after a symbol that stands outside quotes and separates nothing. -/
def Place.enter (x : Symbol) : Place :=
  if x = '\x27' then single
  else if x = '\x22' then double
  else if x = '\\' then escaped
  else bare

/-- What such a symbol adds to the word: quotes and backslashes add nothing. -/
def Place.entered (x : Symbol) : Text :=
  if enter x = bare then [x] else []

/-- Reads the rest of a line, `word` being what the current word has so far. -/
def read? : Place → Text → Text → Option (List Text)
  | .between, _, [] => some []
  | .bare, word, [] => some [word]
  -- A quote is open, or a backslash is the last symbol.
  | _, _, [] => none
  | .between, _, x :: r =>
      if isSeparator x then read? .between [] r else read? (.enter x) (Place.entered x) r
  | .bare, word, x :: r =>
      if isSeparator x then
        (read? .between [] r).map (word :: ·)
      else
        read? (.enter x) (word ++ Place.entered x) r
  | .single, word, x :: r =>
      if x = '\x27' then read? .bare word r else read? .single (word ++ [x]) r
  | .double, word, x :: r =>
      if x = '\x22' then read? .bare word r
      else if x = '\\' then read? .doubleEscaped word r
      else read? .double (word ++ [x]) r
  | .escaped, word, x :: r => read? .bare (word ++ [x]) r
  | .doubleEscaped, word, x :: r =>
      if x = '\x22' ∨ x = '\\' then
        read? .double (word ++ [x]) r
      else
        read? .double (word ++ [.char '\\', x]) r

/-- The words of a line, if every quote is closed. -/
def split? (line : Text) : Option (List Text) :=
  read? .between [] line

/-- The symbols that need no quotes. -/
def isSafe : Symbol → Bool
  | .char c =>
      c.isAlphanum || c == '_' || c == '@' || c == '%' || c == '+' || c == '=' || c == ':'
        || c == ',' || c == '.' || c == '/' || c == '-'
  | .byte _ => false

/-- A symbol between single quotes. A single quote has to leave them for a moment. -/
def quoteSymbol (x : Symbol) : Text :=
  if x = '\x27' then "'\"'\"'" else [x]

/-- An argument as one word of a line. -/
def quote (arg : Text) : Text :=
  if arg.isEmpty then
    "''"
  else if arg.all isSafe then
    arg
  else
    "'" ++ arg.flatMap quoteSymbol ++ "'"

/-- A list of arguments as a line. -/
def join (args : List Text) : Text :=
  Text.join " " (args.map quote)

/-- The flags in a line: its words or, if a quote is left open, what lies between white
    space. -/
def flags (line : Text) : List Text :=
  (split? line).getD line.words

end ShellWords

end DialectBuild
