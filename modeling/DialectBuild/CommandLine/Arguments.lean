import DialectBuild.CommandLine.Grammar

/-!
# Reading Command Lines

How a command line is read by a grammar. Options take effect in the order in which they are
given. Between two options, the operands that are still expected take what they can. What
nothing takes is left over, for the caller to judge.

## Main definitions

* `Stop`: Why reading ends early.
* `Invocation`: What has been read so far.
* `Grammar.unfold`: The options that one argument stands for.
* `Operand.take?`: The arguments that an operand takes.
* `Grammar.read`: Reading a command line.
-/

namespace DialectBuild

/-- Why reading a command line ends early. -/
inductive Stop where
  /-- Help is asked for. -/
  | help
  /-- The version is asked for. -/
  | version
  /-- The command line is wrong. -/
  | misuse (message : Text)
  deriving DecidableEq, Inhabited, Repr

/-- What has been read of a command line. -/
structure Invocation where
  /-- The flags that were given. -/
  flags : List OptionSpec := []
  /-- The options that were given with their values, the latest first. -/
  values : List (OptionSpec × Text) := []
  /-- The operands with their arguments. -/
  operands : List (Operand × List Text) := []
  /-- The operands that are still expected. -/
  expected : List Operand := []
  /-- The arguments that nothing took. -/
  leftover : List Text := []
  deriving DecidableEq, Inhabited, Repr

namespace Invocation

/-- Whether a flag was given. -/
def hasFlag (r : Invocation) (o : OptionSpec) : Bool :=
  r.flags.contains o

/-- The value that was given last for an option. -/
def value? (r : Invocation) (o : OptionSpec) : Option Text :=
  r.values.lookup o

/-- The first argument of an operand. -/
def operand? (r : Invocation) (o : Operand) : Option Text :=
  (r.operands.lookup o).bind (·.head?)

end Invocation

/-- A message about an option or an operand. -/
def misuseOf (label message : Text) : Stop :=
  .misuse ("argument " ++ label ++ ": " ++ message)

/-- The message about a value that is not among the choices. -/
def invalidChoice (value : Text) (choices : List Text) : Text :=
  "invalid choice: " ++ value.quoted ++ " (choose from " ++
    Text.join ", " (choices.map Text.quoted) ++ ")"

/-- An option and the value it is given. -/
structure Effect where
  /-- The option. -/
  spec : OptionSpec
  /-- The value. -/
  value : Option Text := none
  deriving DecidableEq, Inhabited, Repr

/-- The options that one argument stands for. -/
structure Unfolded where
  /-- The options in order. -/
  effects : List Effect
  /-- What remains of the argument. -/
  leftover : List Text := []
  /-- Whether the last option takes the next argument as its value. -/
  takesNext : Bool := false
  deriving DecidableEq, Inhabited, Repr

/-- Whether a name of an option is a short one. -/
def isShortName (name : Text) : Bool :=
  !name.startsWith "--"

/-- What is attached to a short option whose name is followed by `t` in the same argument. -/
def attachedIn : Text → Option Attached
  | [] => none
  | .char '=' :: value => some ⟨true, value⟩
  | value => some ⟨false, value⟩

/-- How much is attached. -/
def attachedSize : Option Attached → Nat
  | none => 0
  | some a => a.value.length + 1

theorem attachedSize_attachedIn (x : Symbol) (t : Text) (marked : Bool) :
    attachedSize (attachedIn t) < attachedSize (some ⟨marked, x :: t⟩) := by
  unfold attachedIn
  split <;> simp only [attachedSize, List.length_cons] <;> omega

namespace Grammar

/-- The options that an argument stands for, when `next` is the operand that follows it, if
    one does. Several short options may stand in one argument, and the last of them may have
    its value there. -/
def unfold (g : Grammar) (next : Option Text) (name : Text) (spec : OptionSpec)
    (attached : Option Attached) : Except Stop Unfolded :=
  match attached with
  | none =>
      if spec.takesValue then
        match next with
        | some value => .ok { effects := [⟨spec, some value⟩], takesNext := true }
        | none => .error (misuseOf spec.label "expected one argument")
      else
        .ok { effects := [⟨spec, none⟩] }
  | some ⟨marked, value⟩ =>
      if spec.takesValue then
        .ok { effects := [⟨spec, some value⟩] }
      else
        match value with
        | [] => .error (misuseOf spec.label ("ignored explicit argument " ++ value.quoted))
        | x :: rest =>
            -- Only short options written together go on: anything else is a value, and none is
            -- taken.
            if !isShortName name || marked || x = .char '-' then
              .error (misuseOf spec.label ("ignored explicit argument " ++ value.quoted))
            else
              let name := [.char '-', x]
              match g.find? name with
              -- The options before the unknown one take effect even so.
              | none => .ok { effects := [⟨spec, none⟩], leftover := [.char '-' :: x :: rest] }
              | some other => do
                  let u ← g.unfold next name other (attachedIn rest)
                  return { u with effects := ⟨spec, none⟩ :: u.effects }
termination_by attachedSize attached
decreasing_by exact attachedSize_attachedIn _ _ _

end Grammar

/-- Lets an option take effect. -/
def Effect.apply (e : Effect) (r : Invocation) : Except Stop Invocation :=
  match e.spec.kind with
  | .help => .error .help
  | .version => .error .version
  | .flag => .ok { r with flags := e.spec :: r.flags }
  | .value choices =>
      let value := e.value.getD []
      if choices.isEmpty || choices.contains value then
        .ok { r with values := (e.spec, value) :: r.values }
      else
        .error (misuseOf e.spec.label (invalidChoice value choices))

/-- The number of dividers at the front. -/
def leadingDividers (as : List Argument) : Nat :=
  (as.takeWhile Argument.isDivider).length

/-- Whether the first argument is an operand. -/
def startsWithOperand : List Argument → Bool
  | .operand _ :: _ => true
  | _ => false

namespace Operand

/-- How many arguments an operand takes from the front, if it is there. Dividers around its
    argument go with it. -/
def take? (o : Operand) (as : List Argument) : Option Nat :=
  let before := leadingDividers as
  let present := startsWithOperand (as.drop before)
  let single := before + 1 + leadingDividers (as.drop (before + 1))
  match o.arity, present with
  | .one, true => some single
  | .one, false => none
  | .optional, true => some single
  -- An operand that is missing still takes the dividers before it.
  | .optional, false => some before
  | .rest, true => some as.length
  | .rest, false => none

/-- The arguments of an operand without the first divider. -/
def arguments (o : Operand) (taken : List Argument) : List Text :=
  let texts := taken.map Argument.text
  match o.arity with
  | .rest => texts
  | _ => texts.erase Argument.dividerText

end Operand

/-- Lets expected operands take arguments from the front, one after the other. It gives how
    many were taken. -/
def takeOperands (as : List Argument) : List Operand → Invocation → Nat × Invocation
  | [], r => (0, { r with expected := [] })
  | o :: os, r =>
      match o.take? as with
      | none => (0, { r with expected := o :: os })
      | some n =>
          let taken := (o, o.arguments (as.take n))
          let (m, r) := takeOperands (as.drop n) os { r with operands := r.operands ++ [taken] }
          (n + m, r)

/-- The operand that follows an option. -/
def nextOperand : List Argument → Option Text
  | .operand t :: _ => some t
  | _ => none

namespace Grammar

/-- Reads an option with the value that may follow it, and gives what is left to read. -/
def readOption (g : Grammar) (use : OptionUse) (as : List Argument) (r : Invocation) :
    Except Stop (Nat × Invocation) := do
  let u ← g.unfold (nextOperand as) use.name use.spec use.attached
  let r := { r with leftover := r.leftover ++ u.leftover }
  let r ← u.effects.foldlM (fun r e => e.apply r) r
  return (if u.takesNext then 1 else 0, r)

/-- Reads arguments. Operands are taken in front of each option and after the last one. -/
def readFrom (g : Grammar) (as : List Argument) (r : Invocation) : Except Stop Invocation :=
  match as with
  | [] => .ok (takeOperands [] r.expected r).2
  | .unknown t :: rest => g.readFrom rest { r with leftover := r.leftover ++ [t] }
  | .option _ use :: rest => do
      let (n, r) ← g.readOption use rest r
      g.readFrom (rest.drop n) r
  | a :: rest =>
      let (n, r) := takeOperands (a :: rest) r.expected r
      match n with
      | 0 =>
          -- Nothing is expected any more, at least not here.
          let skipped := a :: rest.takeWhile (!·.isOption)
          g.readFrom (rest.dropWhile (!·.isOption))
            { r with leftover := r.leftover ++ skipped.map Argument.text }
      | n + 1 => g.readFrom (rest.drop n) r
termination_by as.length
decreasing_by
  · exact Nat.lt_succ_self _
  · exact Nat.lt_succ_of_le ((List.drop_sublist _ _).length_le)
  · exact Nat.lt_succ_of_le ((List.dropWhile_sublist _).length_le)
  · exact Nat.lt_succ_of_le ((List.drop_sublist _ _).length_le)

/-- The names of operands that may not be missing. -/
def missing (expected : List Operand) : List Text :=
  (expected.filter (·.arity = .one)).map Operand.name

/-- Reads a command line. What is left over is not judged. -/
def read (g : Grammar) (ts : List Text) : Except Stop Invocation := do
  let as ← (g.classifyAll ts).mapError Stop.misuse
  let r ← g.readFrom as { expected := g.operands }
  match missing r.expected with
  | [] => return r
  | names =>
      throw (.misuse ("the following arguments are required: " ++ Text.join ", " names))

end Grammar

end DialectBuild
