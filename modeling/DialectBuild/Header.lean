import DialectBuild.Code.Declaration

/-!
# Generated Headers

The header of a unit: a guard, a fixed preamble, and one prototype for each exported function
in the order of their definitions. It depends on nothing but the functions and the header's
names, so that building twice writes the same bytes.

## Main definitions

* `Header.guardName`: The macro that guards a header.
* `Header.preamble`: The lines every header has.
* `Header.text`: The whole header.
-/

namespace DialectBuild

namespace Header

/-- The macro that guards a header, made from the header's path below the project root. A
    slash becomes two underscores and any other symbol that cannot stand in a name one. -/
def guardName (key : Text) : Text :=
  "CZ_" ++ (Text.capitalized (key.flatMap fun x =>
    if x = Symbol.char '/' then "__" else if x.isWord then [x] else "_"))

/-- The lines that every header starts with after its guard. -/
def preamble : List Text :=
  ["#include <stdint.h>", "#include <stddef.h>", "#include <stdbool.h>"]

/-- The lines of a header with the file name `name` for the given functions. -/
def lines (ds : List Declaration) (name key : Text) : List Text :=
  ["/* Generated header " ++ name ++ " - do not edit */",
    "#ifndef " ++ guardName key,
    "#define " ++ guardName key,
    []] ++
  preamble ++ [[]] ++
  (if ds.isEmpty then [] else ds.map Declaration.prototype ++ [[]]) ++
  ["#endif /* " ++ guardName key ++ " */"]

/-- A header as a text. -/
def text (ds : List Declaration) (name key : Text) : Text :=
  Text.join "\n" (lines ds name key) ++ "\n"

end Header

end DialectBuild
