import DialectBuild.Text.Scan

/-!
# Import Markers

A line that asks for the headers of another directory:

    #import "lib/math"
    // #import "lib/math"
    /* #import "lib/math" */

The line may be indented and may have blanks at its end, but nothing else stands on it.

## Main definitions

* `Marker`: The indentation and the module path of a marker.
* `Marker.ofLine?`: The marker that a line is.
-/

namespace DialectBuild

/-- A line that asks for the headers of another directory. -/
structure Marker where
  /-- The blanks before it. -/
  indent : Text
  /-- The directory, as written. -/
  modulePath : Text
  deriving DecidableEq, Inhabited, Repr

namespace Marker

/-- A symbol that may stand between the quotes of a marker. -/
def isPathSymbol (x : Symbol) : Bool :=
  x != .char '\x22' && !x.isLineEnd

/-- Reads the words of a marker and the path between quotes. -/
def request? (t : Text) : Option (Text × Text) := do
  let t ← Text.skip? "#" t
  let t ← Text.skip? "import" t.skipBlanks
  let t ← t.skipSomeBlanks?
  let t ← Text.skip? "\"" t
  let rest ← Text.skip? "\"" (t.dropWhile isPathSymbol)
  return (t.takeWhile isPathSymbol, rest)

/-- Reads a request inside a block comment. -/
def blockRequest? (t : Text) : Option (Text × Text) := do
  let t ← Text.skip? "/*" t
  let (path, t) ← request? t.skipBlanks
  let t ← Text.skip? "*/" t.skipBlanks
  return (path, t)

/-- Reads a request after the start of a line comment. -/
def lineRequest? (t : Text) : Option (Text × Text) := do
  let t ← Text.skip? "//" t
  request? t.skipBlanks

/-- Whether a line ends here, with or without a line feed. -/
def endsLine (t : Text) : Bool :=
  t.isEmpty || t == "\n"

/-- The marker that a line is. -/
def ofLine? (line : Text) : Option Marker := do
  let t := line.skipBlanks
  let (path, rest) ← blockRequest? t <|> lineRequest? t <|> request? t
  guard (endsLine rest.skipBlanks)
  return ⟨line.takeWhile Symbol.isSpaceOrTab, path⟩

end Marker

end DialectBuild
