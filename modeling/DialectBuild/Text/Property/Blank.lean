import DialectBuild.Text.Property.Range

/-!
# White Space

Which characters count as white space. Besides the usual blanks and line ends this
includes the four information separators U+001C to U+001F.

## Main definitions

* `blankRanges`: The ranges outside ASCII.
* `isBlank`: The property itself.
-/

namespace DialectBuild

namespace Property

/-- White space above ASCII, in increasing order. -/
def blankRanges : Array (Nat × Nat) := #[
  (0x85, 0x85), (0xA0, 0xA0), (0x1680, 0x1680), (0x2000, 0x200A), (0x2028, 0x2029),
  (0x202F, 0x202F), (0x205F, 0x205F), (0x3000, 0x3000)]

/-- White space of any kind, line ends included. -/
def isBlank (c : Char) : Bool :=
  if c.toNat < 0x80 then
    (9 ≤ c.toNat && c.toNat ≤ 13) || (0x1C ≤ c.toNat && c.toNat ≤ 0x20)
  else
    inRanges blankRanges c.toNat

end Property

end DialectBuild
