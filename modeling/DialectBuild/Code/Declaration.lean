import DialectBuild.Code.Token

/-!
# Exported Declarations

Which functions a unit offers to others. A function is exported if its definition starts with
a plain signature at the top level: type words and stars, a name, and parameters between
parentheses. Whatever else opens a brace there, such as a structure, an initializer or a
function of internal linkage, is passed over.

Signatures are recognized on tokens, so their lines may be broken anywhere.

## Main definitions

* `Declaration`: A function as others see it.
* `Declaration.prototype`: The statement that declares it.
* `Signature.split?`: The parts of a signature.
* `Signature.declaration?`: The function that a signature declares.
* `Export.step`: What one token changes while a unit is read.
* `exported`: The functions that a text exports.
-/

namespace DialectBuild

/-- A function as other units see it. -/
structure Declaration where
  /-- The name of the function. -/
  name : Text
  /-- The written form of its type. -/
  returnType : Text
  /-- The written form of its parameters, without the parentheses. -/
  params : Text
  /-- The line its definition starts on. -/
  line : Nat
  deriving DecidableEq, Inhabited, Repr

namespace Declaration

/-- The statement that declares the function. A type that ends in a star touches the name. -/
def prototype (d : Declaration) : Text :=
  let space : Text := if d.returnType.endsWith "*" then [] else " "
  d.returnType ++ space ++ d.name ++ "(" ++ d.params ++ ");"

end Declaration

namespace Signature

/-- The most tokens that a signature may have. -/
def maxTokens : Nat := 64

/-- The keywords of C, none of which can name a function. -/
def keywords : List Text := List.map Text.ofString [
  "auto", "break", "case", "char", "const", "continue", "default", "do", "double", "else",
  "enum", "extern", "float", "for", "goto", "if", "inline", "int", "long", "register",
  "restrict", "return", "short", "signed", "sizeof", "static", "struct", "switch", "typedef",
  "union", "unsigned", "void", "volatile", "while", "_Bool", "_Static_assert",
  "_Thread_local", "_Noreturn", "_Alignas", "_Alignof"]

/-- The words that keep a definition from being exported: internal linkage, type names and
    statements. -/
def rejectedWords : List Text := List.map Text.ofString [
  "static", "typedef", "return", "if", "else", "while", "for", "do", "switch", "case", "goto",
  "sizeof"]

/-- Splits reversed tokens, the last of which closed a parenthesis, at the one that opened it.
    `depth` counts the parentheses still to be opened. -/
def splitAtOpen? (depth : Nat) : List Token → Option (List Token × List Token)
  | [] => none
  | t :: ts =>
      if t.spells "(" then
        -- The one that is looked for, unless an inner pair is still to be opened.
        match depth with
        | 0 => some ([], ts)
        | d + 1 => (splitAtOpen? d ts).map fun r => (t :: r.1, r.2)
      else
        (splitAtOpen? (if t.spells ")" then depth + 1 else depth) ts).map fun r => (t :: r.1, r.2)

/-- The tokens before the last balanced pair of parentheses and those inside it, if the tokens
    end with such a pair. -/
def split? (ts : List Token) : Option (List Token × List Token) :=
  match ts.reverse with
  | [] => none
  | t :: back =>
      if t.spells ")" then
        (splitAtOpen? 0 back).map fun r => (r.2.reverse, r.1.reverse)
      else
        none

/-- A token that may stand in the type of an exported function. -/
def isTypeToken (t : Token) : Bool :=
  (t.kind == .ident || t.spells "*") && !rejectedWords.contains t.text

/-- A token that may name an exported function. -/
def isName (t : Token) : Bool :=
  t.kind == .ident && !keywords.contains t.text

/-- A token that may stand among the parameters. -/
def isParamToken (t : Token) : Bool :=
  !(t.spells "=" || t.spells ";" || t.spells "\x7b" || t.spells "\x7d")

/-- The function that the tokens before a body declare, if they are the signature of one. -/
def declaration? (ts : List Token) : Option Declaration := do
  guard (ts.length ≤ maxTokens)
  let (front, params) ← split? ts
  -- The name stands right before the parentheses, the type before the name.
  let name ← front.getLast?
  let type := front.dropLast
  let first ← type.head?
  guard (isName name && first.kind == .ident && type.all isTypeToken && params.all isParamToken)
  return ⟨name.text, spell type, spell params, first.line⟩

end Signature

/-- What has been read of a unit so far. -/
structure Export where
  /-- How many braces are open. -/
  depth : Nat
  /-- The tokens since the last item ended. One more than a signature may have is enough to
      know that this is none. -/
  item : List Token
  /-- The functions found, in order. -/
  found : List Declaration
  deriving Inhabited, Repr

namespace Export

/-- The state before anything is read. -/
def start : Export :=
  ⟨0, [], []⟩

/-- Adds the function that the current item declares, unless its name is known already. -/
def addItem (e : Export) : List Declaration :=
  match Signature.declaration? e.item with
  | some d => if e.found.any (·.name == d.name) then e.found else e.found ++ [d]
  | none => e.found

/-- Reads one token. -/
def step (e : Export) (t : Token) : Export :=
  if 0 < e.depth then
    -- Inside a body only braces count.
    if t.spells "\x7b" then { e with depth := e.depth + 1 }
    else if t.spells "\x7d" then { e with depth := e.depth - 1 }
    else e
  else if t.spells "\x7b" then
    -- If the item is a signature, this is its body.
    ⟨1, [], e.addItem⟩
  else if t.spells ";" || t.spells "\x7d" then
    { e with item := [] }
  else if e.item.length ≤ Signature.maxTokens then
    { e with item := e.item ++ [t] }
  else
    e

end Export

/-- The functions that a text exports, in order, each name once. -/
def exported (s : Text) : List Declaration :=
  ((tokenize s).foldl Export.step Export.start).found

end DialectBuild
