import DialectBuild.Files.Operations
import DialectBuild.Shell.Format

/-!
# Utilities

The programs that scripts are made of. Each gets arguments and an input, and gives a status,
what it prints, and the files it leaves. A utility that is refused a file says so and goes on
with the next one.

## Main definitions

* `Shell.UtilityExit`: How a utility ends.
* `Shell.Utility`: A utility.
* `Shell.utilities`: The utilities by name.
-/

namespace DialectBuild

namespace Shell

/-- How a utility ends. -/
structure UtilityExit where
  /-- The status. -/
  status : Int
  /-- What is printed as its result. -/
  output : Bytes
  /-- What is printed as messages. -/
  message : Bytes
  /-- The files it leaves. -/
  files : Files
  deriving Inhabited

/-- A utility: what it does with arguments, an input and files. -/
abbrev Utility := List Text → Bytes → Files → UtilityExit

/-- A utility that does nothing but end. -/
def ending (status : Int) : Utility := fun _ _ f =>
  ⟨status, [], [], f⟩

/-- A utility that only prints. -/
def printing (print : List Text → Bytes) : Utility := fun arguments _ f =>
  ⟨0, print arguments, [], f⟩

/-- Why a file is refused. -/
def reason : Failure → Text
  | .os e => e.errno.text
  | _ => "Invalid argument"

/-- A message line. -/
def complaint (t : Text) : Bytes :=
  Encoding.encode (t ++ "\n")

namespace UtilityExit

/-- The files as they are, and nothing printed. -/
def quiet (f : Files) : UtilityExit :=
  ⟨0, [], [], f⟩

/-- The end after one more message. -/
def complain (e : UtilityExit) (t : Text) : UtilityExit :=
  { e with status := 1, message := e.message ++ complaint t }

end UtilityExit

/-- The arguments that are options, without their dash, and the others. -/
def splitOptions (arguments : List Text) : Text × List Text :=
  let (options, others) := arguments.partition fun a => a.startsWith "-" && 1 < a.length
  (options.flatMap (·.drop 1), others)

/-- Prints files one after the other. -/
def concatenate : Utility := fun arguments input f =>
  let names : List Text := if arguments.isEmpty then ["-"] else arguments
  names.foldl (fun e (name : Text) =>
    if name = "-" then
      { e with output := e.output ++ input }
    else
      match f.read (Path.ofText name) with
      | .ok bytes => { e with output := e.output ++ bytes }
      | .error failure => e.complain ("cat: " ++ name ++ ": " ++ reason failure))
    (.quiet f)

/-- The names in a directory, or the name of a file, one a line. Hidden names are left out. -/
def listing (f : Files) (name : Text) : Except Failure Text := do
  let p := Path.ofText name
  if ← f.isDir p then
    let shown := (← f.list p).filter fun n => !n.startsWith "."
    return shown.flatMap fun n => n ++ "\n"
  else
    let _ ← f.openRead p
    return name ++ "\n"

/-- Prints the names in directories. -/
def listNames : Utility := fun arguments _ f =>
  let names : List Text := if arguments.isEmpty then ["."] else arguments
  names.foldl (fun e (name : Text) =>
    match listing f name with
    | .ok t => { e with output := e.output ++ Encoding.encode t }
    | .error failure =>
        { e.complain ("ls: cannot access " ++ name.quoted ++ ": " ++ reason failure) with
          status := 2 })
    (.quiet f)

/-- Where a file is put that is copied or moved to `target`. -/
def destination (f : Files) (source target : Path) : Path :=
  match f.isDir target with
  | .ok true => target.child source.name
  | _ => target

/-- A utility that takes sources and a target. -/
def transferring (name : Text) (transfer : Path → Path → Files → Except Failure Files) : Utility :=
  fun arguments _ f =>
    let operands := (splitOptions arguments).2
    match operands.reverse with
    | target :: source :: more =>
        (source :: more).reverse.foldl (fun e s =>
          let p := Path.ofText s
          match transfer p (destination e.files p (Path.ofText target)) e.files with
          | .ok g => { e with files := g }
          | .error failure =>
              e.complain (name ++ ": cannot stat " ++ s.quoted ++ ": " ++ reason failure))
          (.quiet f)
    | _ => (UtilityExit.quiet f).complain (name ++ ": missing file operand")

/-- Copies a file. -/
def copyFile (p q : Path) (f : Files) : Except Failure Files := do
  f.write q (← f.read p)

/-- A utility that does something to each of its operands. -/
def forEach (name verb : Text) (act : Text → Path → FileAction Unit) : Utility :=
  fun arguments _ f =>
    let (options, operands) := splitOptions arguments
    operands.foldl (fun e s =>
      match act options (Path.ofText s) e.files with
      | .ok _ g => { e with files := g }
      | .error failure g => { e with files := g }.complain
          (name ++ ": cannot " ++ verb ++ " " ++ s.quoted ++ ": " ++ reason failure))
      (.quiet f)

/-- Removes a file, or whatever is there if the options ask for that. -/
def removeFile (options : Text) (p : Path) : FileAction Unit :=
  let isForced := options.contains (.char 'f')
  let remove : FileAction Unit :=
    if options.contains (.char 'r') then FileAction.change (·.discard p)
    else FileAction.change (·.unlink p)
  remove.onOsError fun e => if isForced && Files.isMissing (.os e) then pure () else throw (.os e)

/-- Creates a directory, with those above it if the options ask for that. -/
def makeDirectory (options : Text) (p : Path) : FileAction Unit :=
  if options.contains (.char 'p') then FileAction.mkdirs p else FileAction.change (·.mkdir p)

/-- Creates a file unless it is there. -/
def touchFile (_options : Text) (p : Path) : FileAction Unit := do
  if !(← FileAction.query (·.doesExist p)) then
    FileAction.change (·.write p [])

/-- Whether a question about a path is answered with yes. -/
def holds (answer : Except Failure Bool) : Bool :=
  match answer with
  | .ok b => b
  | .error _ => false

/-- Whether a path leads to a file with something in it. -/
def hasContent (f : Files) (p : Path) : Bool :=
  match f.read p with
  | .ok bytes => !bytes.isEmpty
  | .error _ => false

/-- The answer to a condition about one text. -/
def unaryTest? (f : Files) (operator t : Text) : Option Bool :=
  let p := Path.ofText t
  if operator = "-n" then some (!t.isEmpty)
  else if operator = "-z" then some t.isEmpty
  else if operator = "-e" then some (holds (f.doesExist p))
  else if operator = "-f" then some (holds (f.isFile p))
  else if operator = "-d" then some (holds (f.isDir p))
  else if operator = "-r" then some (holds (f.doesExist p))
  else if operator = "-w" then some (holds (f.doesExist p))
  else if operator = "-x" then some (holds (f.isDir p))
  else if operator = "-s" then some (hasContent f p)
  else none

/-- The answer to a condition about two texts. -/
def binaryTest? (s operator t : Text) : Option Bool :=
  if operator = "=" then some (s == t)
  else if operator = "!=" then some (s != t)
  else if operator = "-eq" then some (integer s == integer t)
  else if operator = "-ne" then some (integer s != integer t)
  else if operator = "-lt" then some (integer s < integer t)
  else if operator = "-le" then some (integer s ≤ integer t)
  else if operator = "-gt" then some (integer t < integer s)
  else if operator = "-ge" then some (integer t ≤ integer s)
  else none

/-- The answer to a condition. -/
def test? (f : Files) : List Text → Option Bool
  | [] => some false
  | [t] => some (!t.isEmpty)
  | [operator, t] => if operator = "!" then some t.isEmpty else unaryTest? f operator t
  | [s, operator, t] =>
      match binaryTest? s operator t with
      | some b => some b
      | none => if s = "!" then (test? f [operator, t]).map not else none
  | s :: more => if s = "!" then (test? f more).map not else none

/-- Ends with the answer to a condition. -/
def conditional : Utility := fun arguments _ f =>
  match test? f arguments with
  | some true => .quiet f
  | some false => { UtilityExit.quiet f with status := 1 }
  | none => { (UtilityExit.quiet f).complain "test: unexpected operator" with status := 2 }

/-- Ends with the answer to a condition between brackets. -/
def bracketed : Utility := fun arguments input f =>
  if arguments.getLast? = some (Text.ofString "]") then conditional arguments.dropLast input f
  else { (UtilityExit.quiet f).complain "[: missing ]" with status := 2 }

/-- Prints its arguments. `escaped` says whether escapes are replaced. -/
def echo (escaped : Bool) (arguments : List Text) : Bytes :=
  let (words, ending) : List Text × Bytes := match arguments with
    | a :: more => if a = "-n" then (more, []) else (arguments, [10])
    | [] => ([], [10])
  let line := Text.join " " words
  (if escaped then unescape true line else Encoding.encode line) ++ ending

/-- Prints its arguments by a format. -/
def printFormatted : List Text → Bytes
  | [] => []
  | f :: arguments => format f arguments

/-- The utilities by name. -/
def utilities : List (Text × Utility) :=
  [("cat", concatenate),
   ("ls", listNames),
   ("cp", transferring "cp" copyFile),
   ("mv", transferring "mv" fun p q f => f.rename p q),
   ("rm", forEach "rm" "remove" removeFile),
   ("mkdir", forEach "mkdir" "create directory" makeDirectory),
   ("touch", forEach "touch" "touch" touchFile),
   ("echo", printing (echo false)),
   ("printf", printing printFormatted),
   ("test", conditional),
   ("[", bracketed),
   ("sleep", ending 0),
   ("true", ending 0),
   ("false", ending 1)]

/-- The utilities that a shell brings along, by name. -/
def builtins : List (Text × Utility) :=
  [("echo", printing (echo true)), (":", ending 0)]

end Shell

end DialectBuild
