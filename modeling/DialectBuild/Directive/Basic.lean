import DialectBuild.Text.Scan

/-!
# Directives

Lines that speak to the build and not to the compiler: `#pragma czar`, alone or followed by
more. They are removed before C text is compiled. One of them carries a setting, whether the
unit is built for debugging.

A directive is only recognized if its last word ends there, so `#pragma czarist` is an
ordinary line. Settings that are not understood are passed over.

## Main definitions

* `Directive.afterMark?`: What follows the words that mark a directive.
* `isDirective`: Whether a line is a directive.
* `Settings`: What the directives of a unit set.
* `Settings.ofLine`, `Settings.ofLines`: The settings of one line and of several.
-/

namespace DialectBuild

namespace Directive

/-- What follows the words that mark a directive, if the line starts with them. -/
def afterMark? (line : Text) : Option Text := do
  let t ← Text.skip? "#pragma" line.skipBlanks
  let t ← t.skipSomeBlanks?
  Text.skip? "czar" t

/-- Whether a word ends where `rest` begins. -/
def endsWord : Text → Bool
  | [] => true
  | x :: _ => x.isSpaceOrTab || x.isLineEnd

end Directive

/-- Whether a line is a directive. -/
def isDirective (line : Text) : Bool :=
  match Directive.afterMark? line with
  | some rest => Directive.endsWord rest
  | none => false

/-- What the directives of a unit set. -/
structure Settings where
  /-- Whether the unit is built for debugging, if a directive says so. -/
  debug : Option Bool := none
  deriving DecidableEq, Inhabited, Repr

namespace Settings

/-- Settings of which `later` win. -/
def override (s later : Settings) : Settings :=
  ⟨later.debug.or s.debug⟩

/-- The word that a setting has as its value. -/
def flag? (t : Text) : Option Bool :=
  if t = "true" then some true
  else if t = "false" then some false
  else none

/-- What a line sets. Only the words `debug true` and `debug false` are understood. -/
def ofLine (line : Text) : Settings where
  debug := do
    let t ← Directive.afterMark? line
    let (name, t) ← (← t.skipSomeBlanks?).word?
    let (value, _) ← (← t.skipSomeBlanks?).word?
    if name = "debug" then flag? value else none

/-- What several lines set. Later ones win. -/
def ofLines (lines : List Text) : Settings :=
  lines.foldl (fun s line => s.override (ofLine line)) {}

/-- Whether a unit with these settings is built for debugging, which is the default. -/
def isDebug (s : Settings) : Bool :=
  s.debug.getD true

/-- The settings as a message shows them. -/
def shown (s : Settings) : Text :=
  match s.debug with
  | none => "\x7b\x7d"
  | some true => "\x7b'debug': True\x7d"
  | some false => "\x7b'debug': False\x7d"

end Settings

end DialectBuild
