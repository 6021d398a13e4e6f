import DialectBuild.Path
import DialectBuild.Text.ShellWords

/-!
# Toolchain

The programs a build runs and the flags it passes them, as settled by a profile and by the
environment.

A profile controls some flags, namely all that start in certain ways. Such flags are taken
out of the defaults before the profile's own are added. Flags from the environment replace
the defaults and the profile's together.

## Main definitions

* `Profile`: The flags of one way to build.
* `Profile.compileFlags`, `Profile.linkFlags`: Default flags as a profile amends them.
* `ProfileName`: The profiles there are.
* `Environment`: Variables and their values.
* `Toolchain`: Programs and flags.
* `Toolchain.resolve`: The toolchain for a profile and an environment.
* `banner`: The line that names profile and compiler.
-/

namespace DialectBuild

/-- The flags of one way to build. -/
structure Profile where
  /-- What the profile is for. -/
  description : Text := []
  /-- The flags for compiling. -/
  compile : List Text
  /-- The flags for linking. -/
  link : List Text
  /-- The beginnings of flags that are the profile's to decide. -/
  controlled : List Text
  deriving DecidableEq, Inhabited, Repr

namespace Profile

/-- The flags that are not the profile's to decide. -/
def uncontrolled (p : Profile) (flags : List Text) : List Text :=
  flags.filter fun f => !p.controlled.any f.startsWith

/-- Flags for compiling, as the profile amends them. -/
def compileFlags (p : Profile) (flags : List Text) : List Text :=
  p.uncontrolled flags ++ p.compile

/-- Flags for linking, as the profile amends them. -/
def linkFlags (p : Profile) (flags : List Text) : List Text :=
  p.uncontrolled flags ++ p.link

end Profile

/-- The profiles there are. -/
inductive ProfileName where
  | release
  | debug
  deriving DecidableEq, Inhabited, Repr

namespace ProfileName

/-- The name of a profile. -/
def text : ProfileName → Text
  | release => "release"
  | debug => "debug"

/-- All profiles in the order in which they are listed. -/
def all : List ProfileName :=
  [release, debug]

/-- The profile of a given name. -/
def ofText? (t : Text) : Option ProfileName :=
  all.find? (·.text == t)

/-- The flags of a profile. -/
def profile : ProfileName → Profile
  | release =>
      { description := "Optimized build (default)"
        compile := ["-O2"]
        link := []
        controlled := ["-O", "-g"] }
  | debug =>
      { description := "Unoptimized build with debug info"
        compile := ["-O0", "-g"]
        link := ["-g"]
        controlled := ["-O", "-g"] }

end ProfileName

/-- The line that names the profile and, unless it is empty, the compiler. -/
def banner (profile : ProfileName) (compiler : Text) : Text :=
  let name : Text := if compiler.isEmpty then [] else " COMPILER=" ++ compiler
  "PROFILE=" ++ profile.text ++ name

/-- Variables and their values. -/
abbrev Environment := List (Text × Text)

namespace Environment

/-- The value of a variable. -/
def get? (env : Environment) (name : Text) : Option Text :=
  env.lookup name

end Environment

/-- The programs a build runs and the flags it passes them. -/
structure Toolchain where
  /-- The C compiler with its fixed arguments. -/
  compiler : List Text
  /-- The flags for compiling. -/
  compileFlags : List Text
  /-- The flags for linking. -/
  linkFlags : List Text
  /-- The external transpiler with its fixed arguments, if there is one. -/
  transpiler : Option (List Text)
  deriving DecidableEq, Inhabited, Repr

namespace Toolchain

/-- The C compiler unless the environment names another. -/
def defaultCompiler : List Text :=
  ["cc"]

/-- The flags for compiling before a profile amends them. -/
def defaultCompileFlags : List Text :=
  ["-std=c11", "-Wall", "-Wextra", "-Wno-unknown-pragmas"]

/-- The words of a variable, or nothing if it is not set or has none. -/
def wordsOf? (env : Environment) (name : Text) : Option (List Text) :=
  match ShellWords.flags ((env.get? name).getD []) with
  | [] => none
  | ws => some ws

/-- The toolchain for a profile and an environment. -/
def resolve (profile : Profile) (env : Environment) : Toolchain where
  compiler := (wordsOf? env "CC").getD defaultCompiler
  -- Flags that are set but empty replace the others, too; a program needs a word.
  compileFlags :=
    match env.get? "CFLAGS" with
    | some line => ShellWords.flags line
    | none => profile.compileFlags defaultCompileFlags
  linkFlags :=
    match env.get? "LDFLAGS" with
    | some line => ShellWords.flags line
    | none => profile.linkFlags []
  transpiler := wordsOf? env "CZ_BIN"

/-- The compiler as a line. -/
def compilerLine (t : Toolchain) : Text :=
  Text.join " " t.compiler

end Toolchain

/-- What one build is asked to do. -/
structure BuildRequest where
  /-- The directory to build. -/
  root : Path
  /-- The program to build. -/
  output : Path
  /-- The profile to build with. -/
  profile : ProfileName
  /-- The programs and flags to build with. -/
  toolchain : Toolchain
  /-- Whether the console shows each unit. -/
  verbose : Bool
  deriving DecidableEq, Inhabited, Repr

namespace BuildRequest

/-- The program to build unless another one is asked for. -/
def usualOutput : Path :=
  "a.out"

/-- The place of the program to build, which is seen from the root. -/
def outputIn (root : Path) (output : Option Path) : Path :=
  root.join (output.getD usualOutput)

/-- A request with the toolchain and the output settled. -/
def make (root : Path) (output : Option Path) (profile : ProfileName) (verbose : Bool)
    (env : Environment) : BuildRequest where
  root := root
  output := outputIn root output
  profile := profile
  toolchain := Toolchain.resolve profile.profile env
  verbose := verbose

end BuildRequest

end DialectBuild
