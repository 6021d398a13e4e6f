import DialectBuild.Text.Basic

/-!
# Patterns

Patterns that whole texts are compared with: a star for any text, a question mark for any
symbol, and brackets for one of several symbols. Quoted symbols stand for themselves.

## Main definitions

* `Shell.PatternItem`, `Shell.Pattern`: A pattern.
* `Shell.Pattern.ofText`: The pattern that unquoted symbols stand for.
* `Shell.Pattern.fits`: Whether a text fits a pattern.
-/

namespace DialectBuild

namespace Shell

/-- An item of a pattern. -/
inductive PatternItem where
  /-- Any text. -/
  | anyText
  /-- Any symbol. -/
  | anySymbol
  /-- A symbol that is in one of the ranges, or in none of them. -/
  | oneOf (inside : Bool) (ranges : List (Symbol × Symbol))
  /-- One symbol. -/
  | exactly (x : Symbol)
  deriving DecidableEq, Inhabited, Repr

/-- A pattern. -/
abbrev Pattern := List PatternItem

/-- Whether a symbol fits an item that stands for one symbol. -/
def PatternItem.admits (x : Symbol) : PatternItem → Bool
  | anyText => false
  | anySymbol => true
  | oneOf inside ranges => ranges.any (fun r => r.1.code ≤ x.code && x.code ≤ r.2.code) == inside
  | exactly y => x == y

/-- The ranges between brackets. -/
def symbolRanges : Text → List (Symbol × Symbol)
  | x :: .char '-' :: y :: t => (x, y) :: symbolRanges t
  | x :: t => (x, x) :: symbolRanges t
  | [] => []

/-- The item that stands for what is between brackets. -/
def bracketItem : Text → PatternItem
  | .char '!' :: t => .oneOf false (symbolRanges t)
  | t => .oneOf true (symbolRanges t)

namespace Pattern

/-- What is before the closing bracket, the first symbol not being one, and what is after it. -/
def brackets? : Text → Option (Text × Text)
  | [] => none
  | x :: t =>
      let body := x :: t.takeWhile (· != .char ']')
      match t.drop (body.length - 1) with
      | _ :: rest => some (body, rest)
      | [] => none

/-- The pattern that unquoted symbols stand for. The number bounds its length. -/
def ofTextFrom : Nat → Text → Pattern
  | 0, _ => []
  | _ + 1, [] => []
  | n + 1, x :: t =>
      if x = .char '*' then
        .anyText :: ofTextFrom n t
      else if x = .char '?' then
        .anySymbol :: ofTextFrom n t
      else if x = .char '[' then
        match brackets? t with
        | some (body, rest) => bracketItem body :: ofTextFrom n rest
        | none => .exactly x :: ofTextFrom n t
      else
        .exactly x :: ofTextFrom n t

/-- The pattern that unquoted symbols stand for. -/
def ofText (t : Text) : Pattern :=
  ofTextFrom t.length t

/-- The pattern that quoted symbols stand for. -/
def ofQuoted (t : Text) : Pattern :=
  t.map .exactly

/-- Whether a text fits a pattern. -/
def fits : Pattern → Text → Bool
  | [], [] => true
  | [], _ :: _ => false
  | .anyText :: p, [] => fits p []
  -- The star stands for nothing more, or for this symbol and maybe others.
  | .anyText :: p, x :: t => fits p (x :: t) || fits (.anyText :: p) t
  | i :: p, x :: t => i.admits x && fits p t
  | _ :: _, [] => false
termination_by p t => p.length + t.length

end Pattern

end Shell

end DialectBuild
