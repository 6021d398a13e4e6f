import DialectBuild.Shell.Syntax
import DialectBuild.Text.ShellWords

/-!
# Reading Shell Scripts

Reads the text of a script, first into words and signs, then into commands. A script that
cannot be read has no reading at all, not even in part.

The functions that call themselves take a number of steps that they may do. A text offers
one for each of its symbols and one more, and a list of tokens six for each token and six
more, because at most six steps pass before a token is consumed.

## Main definitions

* `Shell.readWord`: A word at the front of a text.
* `Shell.Token`, `Shell.tokens?`: The words and signs of a text.
* `Shell.readScript?`: The script that a text stands for.
-/

namespace DialectBuild

namespace Shell

/-- Whether a symbol ends a word that is not quoted. -/
def endsWord (x : Symbol) : Bool :=
  x.isSpaceOrTab || [Symbol.char '\n', '|', '&', ';', '(', ')', '<', '>'].contains x

/-- Whether a symbol has a meaning of its own in a word that is not quoted. -/
def isActive (x : Symbol) : Bool :=
  endsWord x || [Symbol.char '\x27', '\x22', '\\', '$'].contains x

/-- Whether a symbol has a meaning of its own between double quotes. -/
def isActiveQuoted (x : Symbol) : Bool :=
  [Symbol.char '\x22', '\\', '$'].contains x

/-- Whether a backslash between double quotes takes the meaning from a symbol. -/
def isEscapable (x : Symbol) : Bool :=
  [Symbol.char '\x22', '\\', '$', '\x60'].contains x

/-- Whether a symbol is the name of a parameter by itself. -/
def isSpecialName (x : Symbol) : Bool :=
  x.isDigit || [Symbol.char '@', '*', '#', '?', '$', '!'].contains x

/-- The name of a parameter at the front of a text, and what follows it. -/
def parameterName? : Text → Option (Text × Text)
  | .char '{' :: t =>
      let name := t.takeWhile (· != .char '}')
      match t.drop name.length with
      | .char '}' :: rest => some (name, rest)
      | _ => none
  | x :: t =>
      if isSpecialName x then
        some ([x], t)
      else
        match (x :: t).takeWhile Symbol.isWord with
        | [] => none
        | name => some (name, (x :: t).drop name.length)
  | [] => none

/-- A word at the front of a text, and what follows it. `quoted` says whether it starts between
    double quotes. A quote that is not closed is no word. -/
def wordFrom : Nat → Bool → Text → Option (Word × Text)
  | 0, _, _ => none
  | _ + 1, false, [] => some ([], [])
  | _ + 1, true, [] => none
  | n + 1, false, x :: t =>
      if endsWord x then
        some ([], x :: t)
      else if x = .char '\x27' then
        let body := t.takeWhile (· != .char '\x27')
        match t.drop body.length with
        | _ :: rest => (wordFrom n false rest).map fun (w, r) => (.quoted body :: w, r)
        | [] => none
      else if x = .char '\x22' then
        -- The empty piece makes a word of quotes with nothing between them.
        (wordFrom n true t).map fun (w, r) => (.quoted [] :: w, r)
      else if x = .char '\\' then
        match t with
        | .char '\n' :: rest => wordFrom n false rest
        | y :: rest => (wordFrom n false rest).map fun (w, r) => (.quoted [y] :: w, r)
        | [] => some ([.plain [x]], [])
      else if x = .char '$' then
        match parameterName? t with
        | some (name, rest) =>
            (wordFrom n false rest).map fun (w, r) => (.parameter name false :: w, r)
        | none => (wordFrom n false t).map fun (w, r) => (.plain [x] :: w, r)
      else
        let run := x :: t.takeWhile (!isActive ·)
        (wordFrom n false (t.drop (run.length - 1))).map fun (w, r) => (.plain run :: w, r)
  | n + 1, true, x :: t =>
      if x = .char '\x22' then
        wordFrom n false t
      else if x = .char '\\' then
        match t with
        | .char '\n' :: rest => wordFrom n true rest
        | y :: rest =>
            let body := if isEscapable y then [y] else [x, y]
            (wordFrom n true rest).map fun (w, r) => (.quoted body :: w, r)
        | [] => none
      else if x = .char '$' then
        match parameterName? t with
        | some (name, rest) =>
            (wordFrom n true rest).map fun (w, r) => (.parameter name true :: w, r)
        | none => (wordFrom n true t).map fun (w, r) => (.quoted [x] :: w, r)
      else
        let run := x :: t.takeWhile (!isActiveQuoted ·)
        (wordFrom n true (t.drop (run.length - 1))).map fun (w, r) => (.quoted run :: w, r)

/-- A word at the front of a text, and what follows it. -/
def readWord (t : Text) : Option (Word × Text) :=
  wordFrom (t.length + 1) false t

/-- A word or a sign. -/
inductive Token where
  /-- A word on a line. -/
  | word (line : Nat) (word : Word)
  /-- A sign that stands between commands. -/
  | sign (text : Text)
  /-- A sign that redirects a stream. -/
  | redirect (stream : Nat) (kind : RedirectKind)
  deriving DecidableEq, Inhabited, Repr

/-- The signs that stand between commands, longer ones first. -/
def signs : List Text :=
  ["&&", "||", ";;", ";", "&", "|", "(", ")", "\n"]

/-- The signs that redirect a stream, longer ones first, each with the stream that it is for. -/
def redirectSigns : List (Text × Nat × RedirectKind) :=
  [(">>", 1, .append), (">&", 1, .copy), ("<&", 0, .copy), (">", 1, .write), ("<", 0, .read)]

/-- The redirection at the front of a text, and what follows it. A single digit may name the
    stream. -/
def redirect? (t : Text) : Option (Token × Text) :=
  let (stream, rest) : Option Nat × Text := match t with
    | .char c :: rest => if c.isDigit then (some (c.toNat - '0'.toNat), rest) else (none, t)
    | _ => (none, t)
  (redirectSigns.find? fun s => rest.startsWith s.1).map fun (sign, usual, kind) =>
    (.redirect (stream.getD usual) kind, rest.drop sign.length)

/-- The words and signs of a text that starts on a line. -/
def tokensFrom : Nat → Nat → Text → Option (List Token)
  | 0, _, _ => none
  | _ + 1, _, [] => some []
  | n + 1, line, x :: t =>
      if x.isSpaceOrTab then
        tokensFrom n line t
      else if Text.startsWith (x :: t) "\\\n" then
        tokensFrom n (line + 1) (t.drop 1)
      else if x = .char '#' then
        tokensFrom n line (t.dropWhile (· != .char '\n'))
      else
        -- Before words, since the digit of a stream would start one.
        match redirect? (x :: t) with
        | some (token, rest) => (tokensFrom n line rest).map (token :: ·)
        | none =>
            match signs.find? (Text.startsWith (x :: t)) with
            | some sign =>
                let line := if sign = "\n" then line + 1 else line
                (tokensFrom n line ((x :: t).drop sign.length)).map (.sign sign :: ·)
            | none => do
                let (w, rest) ← readWord (x :: t)
                let more ← tokensFrom n line rest
                return .word line w :: more

/-- The words and signs of a text. -/
def tokens? (t : Text) : Option (List Token) :=
  tokensFrom (t.length + 1) 1 t

/-- Whether the first token is a sign. -/
def atSign (sign : Text) : List Token → Bool
  | .sign t :: _ => t == sign
  | _ => false

/-- The first token as a word that may be a keyword. -/
def keyword? : List Token → Option Text
  | .word _ w :: _ => w.literal?
  | _ => none

/-- Whether the first token is a keyword. -/
def atKeyword (k : Text) (ts : List Token) : Bool :=
  keyword? ts == some k

/-- The keywords that end a list of commands. -/
def closingKeywords : List Text :=
  ["then", "elif", "else", "fi", "do", "done", "esac", "\x7d"]

/-- Whether a list of commands ends here. -/
def atEnd (ts : List Token) : Bool :=
  ts.isEmpty || atSign ")" ts || atSign ";;" ts || (keyword? ts).any closingKeywords.contains

/-- Goes past line ends. -/
def skipLineEnds (ts : List Token) : List Token :=
  ts.dropWhile fun t => match t with
    | .sign s => s == "\n"
    | _ => false

/-- Goes past signs that only separate commands. -/
def skipSeparators (ts : List Token) : List Token :=
  ts.dropWhile fun t => match t with
    | .sign s => s == "\n" || s == ";" || s == "&"
    | _ => false

/-- Goes past a keyword, which must be there. -/
def expectKeyword (k : Text) (ts : List Token) : Option (List Token) :=
  if atKeyword k ts then some (ts.drop 1) else none

/-- Goes past a sign, which must be there. -/
def expectSign (sign : Text) (ts : List Token) : Option (List Token) :=
  if atSign sign ts then some (ts.drop 1) else none

/-- The variable that a word sets, and the value. -/
def assignment? : Word → Option (Text × Word)
  | .plain t :: w =>
      let name := t.takeWhile Symbol.isWord
      match t.drop name.length with
      | .char '=' :: value =>
          if name.isEmpty || name.head?.any Symbol.isDigit then none
          else some (name, if value.isEmpty then w else .plain value :: w)
      | _ => none
  | _ => none

/-- The redirections at the front. -/
def redirects : List Token → List Redirect × List Token
  | .redirect stream kind :: .word _ w :: ts =>
      let (rs, rest) := redirects ts
      (⟨stream, kind, w⟩ :: rs, rest)
  | ts => ([], ts)

/-- The words and redirections of a simple command. -/
def simpleParts : List Token → List (Nat × Word) × List Redirect × List Token
  | .redirect stream kind :: .word _ w :: ts =>
      let (ws, rs, rest) := simpleParts ts
      (ws, ⟨stream, kind, w⟩ :: rs, rest)
  | .word line w :: ts =>
      let (ws, rs, rest) := simpleParts ts
      ((line, w) :: ws, rs, rest)
  | ts => ([], [], ts)

/-- The variables that the first words set, and the other words. -/
def splitAssignments : List Word → List (Text × Word) × List Word
  | [] => ([], [])
  | w :: ws =>
      match assignment? w with
      | some a =>
          let (as, rest) := splitAssignments ws
          (a :: as, rest)
      | none => ([], w :: ws)

/-- A simple command, which must have something in it. -/
def simple? (ts : List Token) : Option (Script × List Token) :=
  match simpleParts ts with
  | ([], [], _) => none
  | (ws, rs, rest) =>
      let (bindings, words) := splitAssignments (ws.map (·.2))
      some (.simple ((ws.head?.map (·.1)).getD 1) bindings words rs, rest)

/-- The patterns of an arm, up to the sign that ends them. -/
def armPatterns : List Token → Option (List Word × List Token)
  | .word _ w :: .sign s :: ts =>
      if s == ")" then some ([w], ts)
      else if s == "|" then (armPatterns ts).map fun (ws, rest) => (w :: ws, rest)
      else none
  | _ => none

/-- The words of a list, up to the next sign. -/
def wordList : List Token → List Word × List Token
  | .word _ w :: ts =>
      let (ws, rest) := wordList ts
      (w :: ws, rest)
  | ts => ([], ts)

mutual

/-- A list of commands. -/
def commandList : Nat → List Token → Option (Script × List Token)
  | 0, _ => none
  | n + 1, ts => do
      let ts := skipSeparators ts
      if atEnd ts then
        return (.empty, ts)
      let (first, rest) ← chain n ts
      -- Commands have to be separated; what follows here is for the caller.
      if skipSeparators rest = rest then
        return (first, rest)
      let (second, rest) ← commandList n rest
      return (.sequence first second, rest)

/-- Commands that depend on each other. -/
def chain : Nat → List Token → Option (Script × List Token)
  | 0, _ => none
  | n + 1, ts => do
      let (first, rest) ← pipeline n ts
      chainAfter n first rest

/-- What follows commands that depend on each other. -/
def chainAfter : Nat → Script → List Token → Option (Script × List Token)
  | 0, _, _ => none
  | n + 1, first, ts => do
      if atSign "&&" ts then
        let (second, rest) ← pipeline n (skipLineEnds (ts.drop 1))
        chainAfter n (.both first second) rest
      else if atSign "||" ts then
        let (second, rest) ← pipeline n (skipLineEnds (ts.drop 1))
        chainAfter n (.either first second) rest
      else
        return (first, ts)

/-- Commands that pass on what they print. -/
def pipeline : Nat → List Token → Option (Script × List Token)
  | 0, _ => none
  | n + 1, ts => do
      if atKeyword "!" ts then
        let (body, rest) ← pipeline n (ts.drop 1)
        return (.negated body, rest)
      let (first, rest) ← command n ts
      if atSign "|" rest then
        let (second, rest) ← pipeline n (skipLineEnds (rest.drop 1))
        return (.piped first second, rest)
      return (first, rest)

/-- One command with the redirections after it. -/
def command : Nat → List Token → Option (Script × List Token)
  | 0, _ => none
  | n + 1, ts => do
      match ← compound? n ts with
      | none => simple? ts
      | some (body, rest) =>
          match redirects rest with
          | ([], rest) => return (body, rest)
          | (rs, rest) => return (.redirected body rs, rest)

/-- A command that is made of others, if one is here. -/
def compound? : Nat → List Token → Option (Option (Script × List Token))
  | 0, _ => none
  | n + 1, ts => do
      if atSign "(" ts then
        let (body, rest) ← commandList n (ts.drop 1)
        return some (.isolated body, ← expectSign ")" rest)
      else if atKeyword "\x7b" ts then
        let (body, rest) ← commandList n (ts.drop 1)
        return some (body, ← expectKeyword "\x7d" rest)
      else if atKeyword "if" ts then
        return some (← choice n (ts.drop 1))
      else if atKeyword "while" ts || atKeyword "until" ts then
        let (test, rest) ← commandList n (ts.drop 1)
        let (body, rest) ← commandList n (← expectKeyword "do" rest)
        return some (.loop (atKeyword "until" ts) test body, ← expectKeyword "done" rest)
      else if atKeyword "for" ts then
        let name ← keyword? (ts.drop 1)
        let rest := skipLineEnds (ts.drop 2)
        let (words, rest) :=
          if atKeyword "in" rest then
            let (ws, rest) := wordList (rest.drop 1)
            (some ws, rest)
          else
            (none, rest)
        let (body, rest) ← commandList n (← expectKeyword "do" (skipSeparators rest))
        return some (.each name words body, ← expectKeyword "done" rest)
      else if atKeyword "case" ts then
        match ts.drop 1 with
        | .word _ subject :: rest =>
            let rest ← expectKeyword "in" (skipLineEnds rest)
            let (arms, rest) ← armList n (skipLineEnds rest)
            return some (.cases subject arms, rest)
        | _ => none
      else
        return none

/-- What follows the keyword of a choice. -/
def choice : Nat → List Token → Option (Script × List Token)
  | 0, _ => none
  | n + 1, ts => do
      let (test, rest) ← commandList n ts
      let (yes, rest) ← commandList n (← expectKeyword "then" rest)
      if atKeyword "elif" rest then
        let (no, rest) ← choice n (rest.drop 1)
        return (.choice test yes no, rest)
      else if atKeyword "else" rest then
        let (no, rest) ← commandList n (rest.drop 1)
        return (.choice test yes no, ← expectKeyword "fi" rest)
      else
        return (.choice test yes .empty, ← expectKeyword "fi" rest)

/-- The arms of a case, up to the keyword that ends it. -/
def armList : Nat → List Token → Option (List (List Word × Script) × List Token)
  | 0, _ => none
  | n + 1, ts => do
      if atKeyword "esac" ts then
        return ([], ts.drop 1)
      let (patterns, rest) ← armPatterns (if atSign "(" ts then ts.drop 1 else ts)
      let (body, rest) ← commandList n rest
      if atSign ";;" rest then
        let (arms, rest) ← armList n (skipLineEnds (rest.drop 1))
        return ((patterns, body) :: arms, rest)
      else
        return ([(patterns, body)], ← expectKeyword "esac" rest)

end

/-- The script that a text stands for. -/
def readScript? (t : Text) : Option Script := do
  let ts ← tokens? t
  match ← commandList (6 * ts.length + 6) ts with
  | (s, []) => some s
  | _ => none

end Shell

end DialectBuild
