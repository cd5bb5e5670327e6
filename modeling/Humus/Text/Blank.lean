/-!
# Blank characters

The characters with the property White_Space: the separators between the words of a source.

## Main definitions

* `isBlank c`: whether `c` has the property
-/

namespace Humus.Text

/-- Whether `c` is white space: tab, line feed, vertical tab, form feed, carriage return, space,
next line, and the spaces and separators above U+00A0. -/
def isBlank (c : Char) : Bool :=
  let n := c.toNat
  (0x9 ≤ n && n ≤ 0xd) || n == 0x20 || n == 0x85 || n == 0xa0 || n == 0x1680
    || (0x2000 ≤ n && n ≤ 0x200a) || n == 0x2028 || n == 0x2029 || n == 0x202f || n == 0x205f
    || n == 0x3000

end Humus.Text
