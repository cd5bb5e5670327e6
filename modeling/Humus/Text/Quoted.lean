import Humus.Text.Unprintable
import Humus.Text.Combining

/-!
# Quoted text

Characters and strings between quotes, as descriptions and traces show them. A quoted text is
plain ASCII punctuation around characters that print: whatever has no glyph of its own is
written by its code point.

## Main definitions

* `hex n`: the hexadecimal digits of `n`
* `escape quote c`: how `c` stands between two `quote`s
* `quotedChar c`, `quotedString s`: a character between `'`, a string between `"`
-/

namespace Humus.Text

/-- The hexadecimal digits of `n`, lower case, without leading zeros. -/
def hex (n : Nat) : String :=
  String.ofList (Nat.toDigits 16 n)

/-- How `c` stands between two `quote`s. The backslash and the quote itself take a backslash, four
controls have a letter, and a character that does not print alone is given by its code point. -/
def escape (quote c : Char) : List Char :=
  if c = '\t' then ['\\', 't']
  else if c = '\r' then ['\\', 'r']
  else if c = '\n' then ['\\', 'n']
  else if c = Char.ofNat 0 then ['\\', '0']
  else if c = '\\' then ['\\', '\\']
  else if c = quote then ['\\', quote]
  else if isCombining c || isUnprintable c then
    ['\\', 'u', '\x7b'] ++ (hex c.toNat).toList ++ ['\x7d']
  else [c]

/-- A character between single quotes. -/
def quotedChar (c : Char) : String :=
  String.ofList ('\'' :: escape '\'' c ++ ['\''])

/-- A string between double quotes. -/
def quotedString (s : String) : String :=
  String.ofList ('"' :: s.toList.flatMap (escape '"') ++ ['"'])

end Humus.Text
