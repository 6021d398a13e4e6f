import DialectBuild.Action
import DialectBuild.Files.Walk

/-!
# Reading and Changing Files

The operations by which the build reads and changes what is on disk. Reading, writing, removing
and moving a file and creating one directory either fail and change nothing, or change one place
of the tree; moving changes two, and more if it is a directory that is moved. Creating a directory
with those above it is done one by one, and those that were created stay where the next one fails.

A change of names needs a directory that is not locked: a new file needs it, a removal and both
ends of a move, but not new content for a file that is there. Otherwise an operation fails only
for where its paths lead and for what is there; a write that was begun is never cut short.

## Main definitions

* `Files.openRead`, `Files.read`: The file at a path and its bytes.
* `Files.write`: Creating or overwriting a file.
* `Files.unlink`: Removing a file or a link.
* `Files.rename`: Moving whatever a path names, over another entry if need be.
* `Files.mkdir`: Creating a directory.
* `Files.openDir`, `Files.list`: The directory at a path and the names in it.
* `FileAction.query`, `FileAction.change`: Actions on files.
* `FileAction.mkdirs`, `Files.mkdirs`: Creating a directory and all those above it.
* `Files.put`, `Files.discard`: Setting up and clearing away whatever a path names.
-/

namespace DialectBuild

namespace Files

/-- The place of the regular file that a path leads to. -/
def openRead (f : Files) (p : Path) : Except Failure Place := do
  match ← f.spot true p with
  | .present place (.file _) => .ok place
  | .present _ _ => .error (refuse .isDirectory p)
  | .absent _ => .error (refuse .noEntry p)

/-- The bytes at a place, if there is a file. -/
def contentAt (f : Files) (place : Place) : Bytes :=
  match f.tree.find? place with
  | some (.file content) => content
  | _ => []

/-- The bytes of the file that a path leads to. -/
def read (f : Files) (p : Path) : Except Failure Bytes := do
  return f.contentAt (← f.openRead p)

/-- The text of the file that a path leads to. -/
def text (f : Files) (p : Path) : Except Failure Text := do
  return Encoding.decode (← f.read p)

/-- The files with an entry at a place. -/
def withEntry (f : Files) (place : Place) (e : Entry) : Files :=
  { f with tree := f.tree.insert place e }

/-- The files with a new entry at a place, unless its directory is locked. -/
def create (f : Files) (p : Path) (place : Place) (e : Entry) : Except Failure Files :=
  if f.tree.isLocked place then .error (refuse .permission p) else .ok (f.withEntry place e)

/-- Creates the file that a path leads to, or overwrites it. -/
def write (f : Files) (p : Path) (content : Bytes) : Except Failure Files := do
  match ← f.spot true p with
  | .present place (.file _) => .ok (f.withEntry place (.file content))
  | .present _ _ => .error (refuse .isDirectory p)
  | .absent place => f.create p place (.file content)

/-- Whether a path ends in a name, and not in a parent part or nowhere. -/
def endsInName (p : Path) : Bool :=
  p.parts.getLast?.any (· != Path.up)

/-- Removes the file or the link at a path. -/
def unlink (f : Files) (p : Path) : Except Failure Files := do
  match ← f.spot false p with
  | .absent _ => .error (refuse .noEntry p)
  | .present place e =>
      -- The directory is asked first, but a parent part names nothing in a directory.
      if endsInName p && f.tree.isLocked place then
        .error (refuse .permission p)
      else if e = .dir then
        .error (refuse .isDirectory p)
      else
        .ok { f with tree := f.tree.erase place }

/-- Whether a failure says that there is nothing at a path. -/
def isMissing : Failure → Bool
  | .os e => e.errno = .noEntry
  | _ => false

/-- Removes the file or the link at a path if there is one. -/
def unlinkIfPresent (f : Files) (p : Path) : Except Failure Files :=
  match f.unlink p with
  | .error e => if isMissing e then .ok f else .error e
  | r => r

/-- An error of the file system that concerns a move. -/
def refuseMove (errno : Errno) (p q : Path) : Failure :=
  .os { errno := errno, path := p.text, target := some q.text }

/-- The failure of a move, one of whose paths leads nowhere. -/
def asMove (p q : Path) : Failure → Failure
  | .os e => refuseMove e.errno p q
  | e => e

/-- Why the entry `e` at the place `a` cannot be moved to a spot, if it cannot. -/
def moveError? (t : Tree) (a : Place) (e : Entry) (target : Spot) : Option Errno :=
  let b := target.place
  if e = .dir && a.isPrefixOf b && a != b then
    some .invalid
  -- A directory that comes into another one is changed itself, since its parent part is.
  else if t.isLocked a || t.isLocked b || e = .dir && a.dropLast != b.dropLast && t.locksIn a then
    some .permission
  else
    match e, target with
    | .dir, .present _ .dir => if a = b || (t.below b).isEmpty then none else some .notEmpty
    | .dir, .present _ _ => some .notDirectory
    | _, .present _ .dir => if b.isPrefixOf a then some .notEmpty else some .isDirectory
    | _, _ => none

/-- Moves what is at `p` to `q`, over whatever file or link is there. A directory is moved with all
    that is in it, to a free name or over an empty directory. -/
def rename (f : Files) (p q : Path) : Except Failure Files := do
  let source ← (f.spot false p).mapError (asMove p q)
  let target ← (f.spot false q).mapError (asMove p q)
  -- Both paths have been looked up by now, so a path that leads nowhere is refused first.
  if !endsInName p || !endsInName q then
    throw (refuseMove .busy p q)
  match source with
  | .absent _ => .error (refuseMove .noEntry p q)
  | .present a e =>
      match moveError? f.tree a e target with
      | some errno => .error (refuseMove errno p q)
      | none =>
          let b := target.place
          .ok { f with tree :=
            if e = .dir then f.tree.moveAll a b else (f.tree.erase a).insert b e }

/-- Creates a directory. -/
def mkdir (f : Files) (p : Path) : Except Failure Files := do
  match ← f.spot false p with
  | .present _ _ => .error (refuse .alreadyExists p)
  | .absent place => f.create p place .dir

/-- Creates a directory unless there is one. -/
def mkdirUnlessDir (f : Files) (p : Path) : Except Failure Files :=
  match f.mkdir p with
  | .error (.os e) => do
      -- With nothing above it there is no directory to be content with.
      if e.errno = .noEntry then
        throw (.os e)
      if ← f.isDir p then pure f else throw (.os e)
  | r => r

/-- The place of the directory that a path leads to, if its names may be listed. -/
def openDir (f : Files) (p : Path) : Except Failure Place := do
  match ← f.spot true p with
  | .present place .dir =>
      if f.tree.isUnlisted place then .error (refuse .permission p) else .ok place
  | .present _ _ => .error (refuse .notDirectory p)
  | .absent _ => .error (refuse .noEntry p)

/-- The names in the directory that a path leads to, in order. -/
def list (f : Files) (p : Path) : Except Failure (List Text) := do
  return (f.tree.names (← f.openDir p)).mergeSort Text.le

end Files

/-- An action on files. -/
abbrev FileAction := Action Files

namespace FileAction

/-- Asks something about the files. -/
def query {α : Type} (q : Files → Except Failure α) : FileAction α := do
  Action.ofExcept (q (← get))

/-- Changes the files. -/
def change (c : Files → Except Failure Files) : FileAction Unit := do
  set (← query c)

/-- Creates a directory and those above it, as far as they are missing. The number is how many
    parts of the path may still be dropped. -/
def mkdirsFrom (p : Path) : Nat → FileAction Unit
  | 0 => change (·.mkdirUnlessDir p)
  | n + 1 => (change (·.mkdir p)).onOsError fun e => do
      -- The one above is made first, and stays even if this one cannot be made after it.
      if e.errno = .noEntry then
        mkdirsFrom p.parent n
      change (·.mkdirUnlessDir p)

/-- Creates a directory and those above it, as far as they are missing. -/
def mkdirs (p : Path) : FileAction Unit :=
  mkdirsFrom p p.parts.length

end FileAction

namespace Files

/-- The files with a directory and those above it, as far as they are missing. -/
def mkdirs (f : Files) (p : Path) : Except Failure Files :=
  match FileAction.mkdirs p f with
  | .ok _ g => .ok g
  | .error e _ => .error e

/-- Puts an entry at a path, with the directories above it. -/
def put (f : Files) (p : Path) (e : Entry) : Except Failure Files := do
  let f ← f.mkdirs p.parent
  match e with
  | .file content => f.write p content
  | .dir => f.mkdirs p
  | .link _ =>
      match ← f.spot false p with
      | .present _ _ => .error (refuse .alreadyExists p)
      | .absent place => f.create p place e

/-- Removes whatever is at a path, a directory with all that is in it. -/
def discard (f : Files) (p : Path) : Except Failure Files := do
  match ← f.spot false p with
  | .present place _ =>
      if f.tree.isLocked place then
        .error (refuse .permission p)
      else
        .ok { f with tree := f.tree.eraseAll place }
  | .absent _ => .error (refuse .noEntry p)

end Files

end DialectBuild
