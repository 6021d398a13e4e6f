import DialectBuild.Text.Encoding
import DialectBuild.Text.ShellWords

/-!
# Formatted Output

The output of the utility that prints by a format: escapes stand for single bytes, and
conversions take one argument each. A format is used again as long as arguments are left and
it takes any.

## Main definitions

* `Shell.escape`: What a backslash and the symbols after it stand for.
* `Shell.unescape`: A text with its escapes replaced.
* `Shell.format`: Arguments printed by a format.
-/

namespace DialectBuild

namespace Shell

/-- The value of an octal digit. -/
def octalDigit? : Symbol → Option Nat
  | .char c => if '0' ≤ c ∧ c ≤ '7' then some (c.toNat - '0'.toNat) else none
  | .byte _ => none

/-- The value of at most `n` octal digits at the front, and how many there are. -/
def octal : Nat → Text → Nat × Nat
  | 0, _ => (0, 0)
  | _ + 1, [] => (0, 0)
  | n + 1, x :: t =>
      match octalDigit? x with
      | none => (0, 0)
      | some d =>
          let (v, k) := octal n t
          (d * 8 ^ k + v, k + 1)

/-- The byte that a letter after a backslash stands for. -/
def letterEscape? : Symbol → Option UInt8
  | .char 'a' => some 7
  | .char 'b' => some 8
  | .char 't' => some 9
  | .char 'n' => some 10
  | .char 'v' => some 11
  | .char 'f' => some 12
  | .char 'r' => some 13
  | .char '\\' => some 92
  | .char '\x22' => some 34
  | _ => none

/-- What the symbols after a backslash stand for, and how many of them belong to it. If `zero`
    is set, octal digits start with a zero that is not counted. -/
def escape (zero : Bool) (t : Text) : Bytes × Nat :=
  match t with
  | [] => (Encoding.encode "\\", 0)
  | x :: rest =>
      match letterEscape? x with
      | some b => ([b], 1)
      | none =>
          let skipped := if zero then 1 else 0
          let (v, k) := octal 3 (if zero then rest else x :: rest)
          if zero && x != .char '0' || k + skipped = 0 then
            (Encoding.encode [.char '\\', x], 1)
          else
            ([UInt8.ofNat v], k + skipped)

/-- A text with its escapes replaced. The number bounds the symbols read. -/
def unescapeFrom (zero : Bool) : Nat → Text → Bytes
  | 0, _ => []
  | _ + 1, [] => []
  | n + 1, x :: t =>
      if x = .char '\\' then
        let (bytes, k) := escape zero t
        bytes ++ unescapeFrom zero n (t.drop k)
      else
        Encoding.encode [x] ++ unescapeFrom zero n t

/-- A text with its escapes replaced. -/
def unescape (zero : Bool) (t : Text) : Bytes :=
  unescapeFrom zero t.length t

/-- A number as a text, as far as it is one. -/
def integer (t : Text) : Int :=
  let (negative, digits) : Bool × Text := match t with
    | .char '-' :: r => (true, r)
    | .char '+' :: r => (false, r)
    | _ => (false, t)
  let n := (digits.takeWhile Symbol.isDigit).foldl (fun n x => n * 10 + (x.code - '0'.toNat)) 0
  if negative then -(n : Int) else n

/-- What a conversion prints of an argument. -/
def convert? (conversion : Symbol) (argument : Text) : Option Bytes :=
  match conversion with
  | .char 's' => some (Encoding.encode argument)
  | .char 'd' => some (Encoding.encode (Text.ofInt (integer argument)))
  | .char 'i' => some (Encoding.encode (Text.ofInt (integer argument)))
  | .char 'c' => some (Encoding.encode (argument.take 1))
  | .char 'b' => some (unescape true argument)
  | _ => none

/-- Arguments printed by a format that is used once, and the arguments that are left. -/
def formatOnce : Nat → Text → List Text → Bytes × List Text
  | 0, _, arguments => ([], arguments)
  | _ + 1, [], arguments => ([], arguments)
  | n + 1, x :: t, arguments =>
      if x = .char '\\' then
        let (bytes, k) := escape false t
        let (more, left) := formatOnce n (t.drop k) arguments
        (bytes ++ more, left)
      else if x = .char '%' then
        match t with
        | [] => (Encoding.encode [x], arguments)
        | y :: rest =>
            match convert? y (arguments.headD []) with
            | some bytes =>
                let (more, left) := formatOnce n rest arguments.tail
                (bytes ++ more, left)
            | none =>
                let (more, left) := formatOnce n rest arguments
                (Encoding.encode (if y = .char '%' then [y] else [x, y]) ++ more, left)
      else
        let (more, left) := formatOnce n t arguments
        (Encoding.encode [x] ++ more, left)

/-- Arguments printed by a format that is used at most so many times more. -/
def formatRepeated (f : Text) : Nat → List Text → Bytes
  | 0, _ => []
  | n + 1, arguments =>
      let (bytes, left) := formatOnce f.length f arguments
      -- A format that takes no arguments would never use them up.
      if left.isEmpty || left.length = arguments.length then bytes
      else bytes ++ formatRepeated f n left

/-- Arguments printed by a format. -/
def format (f : Text) (arguments : List Text) : Bytes :=
  formatRepeated f (arguments.length + 1) arguments

end Shell

end DialectBuild
