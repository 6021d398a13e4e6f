import DialectBuild.Shell.Pattern
import DialectBuild.Shell.Reader
import DialectBuild.Shell.Utility

/-!
# Running Shell Scripts

What a script does. A job is a running shell: its files, its variables and arguments, the
status of its last command, and what it has printed. Streams say where the commands of a
script read from and print to.

A script may never end. It gets a number of steps, and a job that has used them up is
exhausted.

## Main definitions

* `Shell.Job`: A running shell.
* `Shell.Job.value`, `Shell.Job.fields`: Replacing the parameters of words.
* `Shell.Streams`: Where commands read from and print to.
* `Shell.run`: Running a script.
* `Shell.start`: Starting a shell with arguments.
-/

namespace DialectBuild

namespace Shell

/-- How a job goes on. -/
inductive Flow where
  /-- With the next command. -/
  | next
  /-- After the loop it is in. -/
  | broken
  /-- With the next round of the loop it is in. -/
  | continued
  /-- Not at all. -/
  | ended
  /-- Not at all, because of a signal. -/
  | killed (signal : Nat)
  /-- Not at all, because it has used up its steps. -/
  | exhausted
  deriving DecidableEq, Inhabited, Repr

/-- A running shell. -/
structure Job where
  /-- What is on disk. -/
  files : Files
  /-- How the shell calls itself. -/
  name : Text := "sh"
  /-- The arguments. -/
  arguments : List Text := []
  /-- The variables with their values. -/
  bindings : List (Text × Text) := []
  /-- The status of the last command. -/
  status : Int := 0
  /-- What has been printed as result. -/
  output : Bytes := []
  /-- What has been printed as messages. -/
  message : Bytes := []
  /-- How the job goes on. -/
  flow : Flow := .next
  deriving Inhabited

/-- Where what is printed goes. -/
inductive Sink where
  /-- To the results of the job. -/
  | output
  /-- To the messages of the job. -/
  | message
  /-- To the end of a file. -/
  | file (path : Path)
  /-- Nowhere. -/
  | nowhere
  deriving DecidableEq, Inhabited, Repr

/-- Where commands read from and print to. -/
structure Streams where
  /-- What there is to read. -/
  input : Bytes := []
  /-- Where results go. -/
  output : Sink := .output
  /-- Where messages go. -/
  message : Sink := .message
  deriving Inhabited

namespace Job

/-- The number by which a shell knows itself. -/
def ownNumber : Text := "1000"

/-- The value of a parameter. -/
def value (j : Job) (name : Text) : Text :=
  if name = "@" || name = "*" then Text.join " " j.arguments
  else if name = "#" then Text.ofNat j.arguments.length
  else if name = "?" then Text.ofInt j.status
  else if name = "$" then ownNumber
  else if name = "0" then j.name
  -- Arguments are counted from one.
  else if !name.isEmpty && name.all Symbol.isDigit then
    (j.arguments.drop ((integer name).toNat - 1)).headD []
  else (j.bindings.lookup name).getD []

/-- The value of a word that stays one word. -/
def wordValue (j : Job) (w : Word) : Text :=
  w.flatMap fun p => match p with
    | .plain t => t
    | .quoted t => t
    | .parameter name _ => j.value name

/-- The pattern that a word stands for. -/
def pattern (j : Job) (w : Word) : Pattern :=
  w.flatMap fun p => match p with
    | .plain t => Pattern.ofText t
    | .quoted t => Pattern.ofQuoted t
    | .parameter name false => Pattern.ofText (j.value name)
    | .parameter name true => Pattern.ofQuoted (j.value name)

/-- Words that are complete, and the one that is being put together. -/
structure Fields where
  /-- The complete words. -/
  complete : List Text := []
  /-- The word that is being put together. -/
  current : Option Text := none

namespace Fields

/-- Adds to the current word. -/
def add (f : Fields) (t : Text) : Fields :=
  { f with current := some (f.current.getD [] ++ t) }

/-- Ends the current word. -/
def cut (f : Fields) : Fields :=
  { complete := f.complete ++ f.current.toList }

/-- Adds a value that blanks divide into words. -/
def addSplit (f : Fields) (t : Text) : Fields :=
  t.foldl (fun f x => if x.isSpaceOrTab || x = .char '\n' then f.cut else f.add [x]) f

/-- Adds words, the first of them to the current one. -/
def addEach (f : Fields) : List Text → Fields
  | [] => f
  | t :: ts => ts.foldl (fun f t => f.cut.add t) (f.add t)

/-- Adds a piece of a word. -/
def addPiece (j : Job) (f : Fields) : Piece → Fields
  | .plain t => f.add t
  | .quoted t => f.add t
  -- Between quotes, `$@` alone keeps the arguments apart.
  | .parameter name true => if name = "@" then f.addEach j.arguments else f.add (j.value name)
  | .parameter name false => f.addSplit (j.value name)

end Fields

/-- The words that a word stands for. -/
def fields (j : Job) (w : Word) : List Text :=
  (w.foldl (Fields.addPiece j) {}).cut.complete

/-- Prints something. -/
def emit (j : Job) (sink : Sink) (bytes : Bytes) : Job :=
  match sink with
  | .output => { j with output := j.output ++ bytes }
  | .message => { j with message := j.message ++ bytes }
  | .nowhere => j
  | .file p =>
      -- Always at the end: a redirection that starts anew has emptied the file.
      match j.files.write p (((j.files.read p).toOption.getD []) ++ bytes) with
      | .ok f => { j with files := f }
      | .error _ => j

/-- Ends a command with a status. -/
def withStatus (j : Job) (status : Int) : Job :=
  { j with status := status }

/-- Sets a variable. -/
def assign (j : Job) (name value : Text) : Job :=
  { j with bindings := (name, value) :: j.bindings.filter (·.1 != name) }

/-- Prints a message of the shell itself about a command on a line. -/
def complain (j : Job) (s : Streams) (line : Nat) (t : Text) (status : Int) : Job :=
  (j.emit s.message (complaint (j.name ++ ": " ++ Text.ofNat line ++ ": " ++ t))).withStatus status

/-- The job after a shell of its own has ended: only what that printed and did to files
    stays. -/
def rejoin (outer inner : Job) : Job :=
  { outer with
    files := inner.files
    status := inner.status
    output := inner.output
    message := inner.message
    flow := if inner.flow = .exhausted then .exhausted else .next }

/-- The status that a shell leaves to the one that started it. -/
def statusLeft (j : Job) : Int :=
  match j.flow with
  | .killed signal => 128 + (signal : Int)
  | _ => j.status

/-- The job after a shell has run as one of its commands. -/
def absorb (j : Job) (s : Streams) (inner : Job) : Job :=
  let flow : Flow := if inner.flow = .exhausted then .exhausted else j.flow
  let j := { j with files := inner.files, flow := flow }
  ((j.emit s.message inner.message).emit s.output inner.output).withStatus inner.statusLeft

end Job

/-- The device that has nothing in it and keeps nothing. -/
def nullDevice : Text := "/dev/null"

namespace Streams

/-- The streams with one of them going somewhere else. -/
def toSink (s : Streams) (stream : Nat) (sink : Sink) : Streams :=
  match stream with
  | 1 => { s with output := sink }
  | 2 => { s with message := sink }
  | _ => s

/-- Where a stream goes. -/
def sinkOf (s : Streams) (stream : Text) : Sink :=
  if stream = "1" then s.output else if stream = "2" then s.message else .nowhere

/-- Why a file cannot be written. -/
def writeReason : Failure → Text
  | .os e => if e.errno = .noEntry then "Directory nonexistent" else e.errno.text
  | e => reason e

/-- Redirects one stream, or says why that is refused. -/
def redirect (s : Streams) (j : Job) (r : Redirect) : Except Text (Streams × Files) :=
  let target := j.wordValue r.target
  let p := Path.ofText target
  match r.kind with
  | .copy => .ok (s.toSink r.stream (s.sinkOf target), j.files)
  | .read =>
      if target = nullDevice then .ok ({ s with input := [] }, j.files)
      else match j.files.read p with
        | .ok bytes => .ok ({ s with input := bytes }, j.files)
        | .error _ => .error ("cannot open " ++ target ++ ": No such file")
  | _ =>
      if target = nullDevice then .ok (s.toSink r.stream .nowhere, j.files)
      else
        let kept := if r.kind = .append then (j.files.read p).toOption.getD [] else []
        match j.files.write p kept with
        | .ok f => .ok (s.toSink r.stream (.file p), f)
        | .error e => .error ("cannot create " ++ target ++ ": " ++ writeReason e)

/-- Redirects streams one after the other. -/
def redirectAll (s : Streams) (j : Job) : List Redirect → Except Text (Streams × Files)
  | [] => .ok (s, j.files)
  | r :: rs =>
      match s.redirect j r with
      | .ok (s, f) => redirectAll s { j with files := f } rs
      | .error e => .error e

end Streams

/-- The signals by name. -/
def signals : List (Text × Nat) :=
  [("HUP", 1), ("INT", 2), ("QUIT", 3), ("ABRT", 6), ("KILL", 9), ("SEGV", 11), ("PIPE", 13),
   ("ALRM", 14), ("TERM", 15)]

/-- The signal of a name or a number. -/
def signalOf (t : Text) : Nat :=
  (signals.lookup t).getD (integer t).toNat

/-- Sends a signal to the shell itself. -/
def killSelf (j : Job) : List Text → Option Job
  | [target] => if target = Job.ownNumber then some { j with flow := .killed 15 } else none
  | [.char '-' :: signal, target] =>
      if target = Job.ownNumber then some { j with flow := .killed (signalOf signal) } else none
  | [option, signal, target] =>
      if option = "-s" && target = Job.ownNumber then
        some { j with flow := .killed (signalOf signal) }
      else
        none
  | _ => none

/-- The status that a number given to a shell stands for. -/
def statusOf (t : Text) : Int :=
  (integer t) % 256

/-- The word after which new arguments follow. -/
def dividerWord : Text := "--"

/-- What the shell itself does for a command, if it is one of its own. -/
def control? (j : Job) (name : Text) (arguments : List Text) : Option Job :=
  if name = "exit" then
    some { j with status := (arguments.head?.map statusOf).getD j.status, flow := .ended }
  else if name = "shift" then
    some { j with arguments := j.arguments.drop 1, status := 0 }
  else if name = "break" then
    some { j with flow := .broken, status := 0 }
  else if name = "continue" then
    some { j with flow := .continued, status := 0 }
  else if name = "kill" then
    killSelf j arguments
  else if name = "set" then
    if arguments.head? = some dividerWord then
      some { j with arguments := arguments.drop 1, status := 0 }
    else
      some (j.withStatus 0)
  else
    none

/-- Runs a utility. -/
def runUtility (s : Streams) (u : Utility) (arguments : List Text) (j : Job) : Job :=
  let e := u arguments s.input j.files
  ((({ j with files := e.files }).emit s.message e.message).emit s.output e.output).withStatus
    e.status

/-- What the shell says about a command that it does not know. -/
def unknownCommand (s : Streams) (line : Nat) (name : Text) (j : Job) : Job :=
  if name.contains (.char '/') && holds (j.files.doesExist (Path.ofText name)) then
    j.complain s line (name ++ ": Permission denied") 126
  else
    j.complain s line (name ++ ": not found") 127

/-- The job after one round of a loop. -/
def afterRound (j : Job) : Job :=
  if j.flow = .continued then { j with flow := .next } else j

/-- The job after a loop. -/
def afterLoop (j : Job) : Job :=
  if j.flow = .broken then { j with flow := .next } else j

mutual

/-- Runs a script. -/
def run : Nat → Streams → Script → Job → Job
  | 0, _, _, j => { j with flow := .exhausted }
  | n + 1, s, script, j =>
      match script with
      | .empty => j
      | .simple line bindings words redirects =>
          match s.redirectAll j redirects with
          | .error e => j.complain s line e 2
          | .ok (s, f) =>
              let j := { j with files := f }
              let set := bindings.foldl (fun k a => k.assign a.1 (k.wordValue a.2)) j
              match words.flatMap j.fields with
              -- Variables are kept only if no command follows.
              | [] => set.withStatus 0
              | name :: arguments => runCommand n s line name arguments j
      | .sequence first second =>
          let j := run n s first j
          if j.flow = .next then run n s second j else j
      | .both first second =>
          let j := run n s first j
          if j.flow = .next ∧ j.status = 0 then run n s second j else j
      | .either first second =>
          let j := run n s first j
          if j.flow = .next ∧ j.status ≠ 0 then run n s second j else j
      | .negated body =>
          let j := run n s body j
          if j.flow = .next then j.withStatus (if j.status = 0 then 1 else 0) else j
      | .piped first second =>
          -- Both run as shells of their own, the first one to its end.
          let a := run n { s with output := .output } first { j with output := [] }
          let b := run n { s with input := a.output } second
            { j with files := a.files, message := a.message }
          j.rejoin b
      | .choice test yes no =>
          let j := run n s test j
          if j.flow ≠ .next then j
          else if j.status = 0 then run n s yes j
          else run n s no (j.withStatus 0)
      | .loop whileFails test body =>
          let t := run n s test j
          if t.flow ≠ .next then afterLoop t
          else if (t.status != 0) == whileFails then
            let b := afterRound (run n s body t)
            if b.flow = .next then run n s (.loop whileFails test body) b else afterLoop b
          else t.withStatus 0
      | .each name words body =>
          let values := match words with
            | some ws => ws.flatMap j.fields
            | none => j.arguments
          afterLoop (values.foldl
            (fun j v => if j.flow = .next then afterRound (run n s body (j.assign name v)) else j)
            (j.withStatus 0))
      | .cases subject arms =>
          let t := j.wordValue subject
          match arms.find? fun arm => arm.1.any fun w => (j.pattern w).fits t with
          | some (_, body) => run n s body (j.withStatus 0)
          | none => j.withStatus 0
      | .redirected body redirects =>
          match s.redirectAll j redirects with
          | .error e => j.complain s 1 e 2
          | .ok (s, f) => run n s body { j with files := f }
      | .isolated body => j.rejoin (run n s body j)

/-- Runs a command with its arguments. -/
def runCommand : Nat → Streams → Nat → Text → List Text → Job → Job
  | 0, _, _, _, _, j => { j with flow := .exhausted }
  | n + 1, s, line, name, arguments, j =>
      match control? j name arguments with
      | some j => j
      | none =>
          if name = "sh" then
            j.absorb s (start n s arguments { files := j.files })
          else
            match (builtins ++ utilities).lookup name with
            | some u => runUtility s u arguments j
            | none => unknownCommand s line name j

/-- Starts a shell with arguments: a script as text, or the file of one. -/
def start : Nat → Streams → List Text → Job → Job
  | 0, _, _, j => { j with flow := .exhausted }
  | n + 1, s, arguments, j =>
      -- A new shell prints to streams of its own, which `absorb` passes on.
      let s : Streams := { input := s.input }
      match arguments with
      | [] => j
      | first :: more =>
          let (source, name, rest) : Except Text Text × Text × List Text :=
            if first = "-c" then
              (.ok (more.headD []), (more.drop 1).headD "sh", more.drop 2)
            else
              match j.files.text (Path.ofText first) with
              | .ok t => (.ok t, first, more)
              | .error _ => (.error ("cannot open " ++ first ++ ": No such file"), "sh", more)
          let j := { j with name := name, arguments := rest }
          match source with
          | .error e => j.complain s 0 e 2
          | .ok t =>
              match readScript? t with
              | some script => run n s script j
              | none => j.complain s 1 "Syntax error" 2

end

end Shell

end DialectBuild
