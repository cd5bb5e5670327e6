/-!
# Lines of a text

## Main definitions

* `splitLines`: the lines of a text, without the line feeds between them
* `dropTrailing`: a line without certain characters at its end
-/

namespace Humus

/-- The lines of a text. There is one more than there are line feeds. -/
def splitLines : List Char → List (List Char)
  | [] => [[]]
  | c :: cs =>
    if c = '\n' then [] :: splitLines cs
    else
      match splitLines cs with
      | line :: lines => (c :: line) :: lines
      | [] => [[c]]

/-- The text without the characters at its end that equal `c`. -/
def dropTrailing (c : Char) (text : List Char) : List Char :=
  (text.reverse.dropWhile (· = c)).reverse

end Humus
