import DialectBuild.Text.Quoted

/-!
# Command Line Grammars

What a command line may hold: options, which start with a dash, and operands, which do not.
An argument is an option if its name is one, or the beginning of just one long name, or a
short name with something attached to it. What looks like a number, or has a space in it, is
an operand all the same, and so is everything after a divider.

## Main definitions

* `OptionSpec`: An option that a grammar knows.
* `Operand`: An operand that a grammar expects.
* `Grammar`: The options and operands of a program, with its help.
* `Argument`: What an argument is taken for.
* `Grammar.classify`: What one argument is taken for.
* `Grammar.classifyAll`: What the arguments of a command line are taken for.

## Theorems

* `Grammar.classifyAll_text`: Classifying keeps every argument.
-/

namespace DialectBuild

/-- What an option is for. -/
inductive OptionKind where
  /-- It asks for help. -/
  | help
  /-- It asks for the version. -/
  | version
  /-- It is given or not. -/
  | flag
  /-- It has a value, one of the given ones unless there are none. -/
  | value (choices : List Text)
  deriving DecidableEq, Inhabited, Repr

/-- An option that a grammar knows. -/
structure OptionSpec where
  /-- Its names. -/
  names : List Text
  /-- What it is for. -/
  kind : OptionKind
  deriving DecidableEq, Inhabited, Repr

namespace OptionSpec

/-- How the option is called in messages. -/
def label (o : OptionSpec) : Text :=
  Text.join "/" o.names

/-- Whether the option has a value. -/
def takesValue (o : OptionSpec) : Bool :=
  match o.kind with
  | .value _ => true
  | _ => false

end OptionSpec

/-- How many arguments an operand takes. -/
inductive Arity where
  /-- One argument. -/
  | one
  /-- One argument or none. -/
  | optional
  /-- One argument and all that follow it, options too. -/
  | rest
  deriving DecidableEq, Inhabited, Repr

/-- An operand that a grammar expects. -/
structure Operand where
  /-- How it is called in messages. -/
  name : Text
  /-- How many arguments it takes. -/
  arity : Arity
  deriving DecidableEq, Inhabited, Repr

/-- The options and operands of a program. -/
structure Grammar where
  /-- The name of the program. -/
  program : Text
  /-- The options. -/
  options : List OptionSpec
  /-- The operands in order. -/
  operands : List Operand
  /-- The line that tells how the program is used. -/
  usage : Text
  /-- What the help says after that line. -/
  explanation : Text
  deriving DecidableEq, Inhabited, Repr

/-- A value that stands in the same argument as an option. -/
structure Attached where
  /-- Whether an equals sign stands before it. -/
  marked : Bool
  /-- The value. -/
  value : Text
  deriving DecidableEq, Inhabited, Repr

/-- An option as it was given. -/
structure OptionUse where
  /-- The name it was given under, in full. -/
  name : Text
  /-- The option. -/
  spec : OptionSpec
  /-- The value attached to it. -/
  attached : Option Attached := none
  deriving DecidableEq, Inhabited, Repr

/-- What an argument is taken for. -/
inductive Argument where
  /-- An operand, or the value of an option before it. -/
  | operand (text : Text)
  /-- The sign that only operands follow. -/
  | divider
  /-- An option that the grammar knows. -/
  | option (text : Text) (use : OptionUse)
  /-- An option that the grammar does not know. -/
  | unknown (text : Text)
  deriving DecidableEq, Inhabited, Repr

namespace Argument

/-- The sign that only operands follow. -/
def dividerText : Text := "--"

/-- The argument as it was given. -/
def text : Argument → Text
  | operand t => t
  | divider => dividerText
  | option t _ => t
  | unknown t => t

/-- Whether the argument is an option, known or not. -/
def isOption : Argument → Bool
  | option _ _ => true
  | unknown _ => true
  | _ => false

/-- Whether the argument is the divider. -/
def isDivider : Argument → Bool
  | divider => true
  | _ => false

end Argument

/-- What is before the first equals sign, and what is after it. -/
def splitAtMark : Text → Text × Option Text
  | [] => ([], none)
  | x :: t =>
      if x = .char '=' then ([], some t)
      else
        let (before, after) := splitAtMark t
        (x :: before, after)

/-- Whether digits follow and nothing else, a line end at the very end apart. -/
def isDigits (t : Text) : Bool :=
  let digits := if t.getLast? = some (.char '\n') then t.dropLast else t
  !digits.isEmpty && digits.all Symbol.isDigit

/-- Whether an argument looks like a negative number. -/
def looksNegative : Text → Bool
  | .char '-' :: t =>
      isDigits t ||
        match t.dropWhile Symbol.isDigit with
        | .char '.' :: fraction => isDigits fraction
        | _ => false
  | _ => false

namespace Grammar

/-- All names of options with their options. -/
def names (g : Grammar) : List (Text × OptionSpec) :=
  g.options.flatMap fun o => o.names.map (·, o)

/-- The option of a given name. -/
def find? (g : Grammar) (name : Text) : Option OptionSpec :=
  g.names.lookup name

/-- The options that an argument may stand for that is no name itself: by the beginning of a
    name, or by a short name with a value attached. -/
def interpretations (g : Grammar) (t : Text) : List OptionUse :=
  if t.startsWith Argument.dividerText then
    let (stem, value) := splitAtMark t
    g.names.filterMap fun (name, spec) =>
      if name.startsWith stem then some ⟨name, spec, value.map (⟨true, ·⟩)⟩ else none
  else
    g.names.filterMap fun (name, spec) =>
      if name = t.take 2 then some ⟨name, spec, some ⟨false, t.drop 2⟩⟩
      else if name.startsWith t then some ⟨name, spec, none⟩
      else none

/-- The option whose name stands before an equals sign. -/
def marked? (g : Grammar) (t : Text) : Option OptionUse :=
  match splitAtMark t with
  | (stem, some value) => (g.find? stem).map fun spec => ⟨stem, spec, some ⟨true, value⟩⟩
  | (_, none) => none

/-- The message about an argument that may stand for several options. -/
def ambiguous (t : Text) (uses : List OptionUse) : Text :=
  "ambiguous option: " ++ t ++ " could match " ++ Text.join ", " (uses.map OptionUse.name)

/-- What an argument is taken for that starts with a dash and is no name. -/
def classifyDashed (g : Grammar) (t : Text) : Except Text Argument :=
  match g.marked? t with
  | some use => .ok (.option t use)
  | none =>
      match g.interpretations t with
      | [use] => .ok (.option t use)
      | [] =>
          if looksNegative t || t.contains (.char ' ') then .ok (.operand t) else .ok (.unknown t)
      | uses => .error (ambiguous t uses)

/-- What an argument is taken for. -/
def classify (g : Grammar) (t : Text) : Except Text Argument :=
  match g.find? t with
  | some spec => .ok (.option t ⟨t, spec, none⟩)
  | none => if t.startsWith "-" && 1 < t.length then g.classifyDashed t else .ok (.operand t)

/-- What the arguments of a command line are taken for. After a divider all are operands. -/
def classifyAll (g : Grammar) : List Text → Except Text (List Argument)
  | [] => .ok []
  | t :: ts =>
      if t = Argument.dividerText then
        .ok (.divider :: ts.map .operand)
      else do
        let a ← g.classify t
        let rest ← g.classifyAll ts
        return a :: rest

theorem classifyDashed_text {g : Grammar} {t : Text} {a : Argument}
    (h : g.classifyDashed t = .ok a) : a.text = t := by
  unfold classifyDashed at h
  split at h
  · rw [← Except.ok.inj h]; rfl
  · split at h
    · rw [← Except.ok.inj h]; rfl
    · split at h <;> (rw [← Except.ok.inj h]; rfl)
    · exact absurd h (by simp only [reduceCtorEq, not_false_eq_true])

theorem classify_text {g : Grammar} {t : Text} {a : Argument} (h : g.classify t = .ok a) :
    a.text = t := by
  unfold classify at h
  split at h
  · rw [← Except.ok.inj h]; rfl
  · split at h
    · exact classifyDashed_text h
    · rw [← Except.ok.inj h]; rfl

/-- Classifying keeps every argument. -/
theorem classifyAll_text {g : Grammar} {ts : List Text} {as : List Argument}
    (h : g.classifyAll ts = .ok as) : as.map Argument.text = ts := by
  induction ts generalizing as with
  | nil => rw [← Except.ok.inj h]; rfl
  | cons t ts ih =>
      unfold classifyAll at h
      split at h
      · next ht =>
        rw [← Except.ok.inj h, ht, List.map_cons, List.map_map]
        exact congrArg _ (List.map_id _)
      · rcases ha : g.classify t with e | a
        · rw [ha] at h
          cases h
        rcases hr : g.classifyAll ts with e | rest
        · rw [ha, hr] at h
          cases h
        rw [ha, hr] at h
        rw [← Except.ok.inj h, List.map_cons, classify_text ha, ih hr]

end Grammar

end DialectBuild
