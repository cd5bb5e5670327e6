import Humus.Text.Quoted

/-!
# JSON documents

A document keeps the fields of an object in the order in which they were given. It is printed
over several lines, two blanks to a level.

## Main definitions

* `Json`: a document
* `Json.escape c`: how `c` stands in a JSON string
* `Json.pretty`: the document over several lines
-/

namespace Humus.Text

/-- A JSON document. -/
inductive Json where
  | null
  | bool (b : Bool)
  | int (n : Int)
  | string (s : String)
  | array (items : List Json)
  | object (fields : List (String × Json))

namespace Json

/-- A natural number. -/
def nat (n : Nat) : Json :=
  .int n

/-- A one-character string. -/
def char (c : Char) : Json :=
  .string c.toString

/-- A value that may be absent is `null` when it is. -/
def option {α : Type} (document : α → Json) : Option α → Json
  | none => .null
  | some a => document a

/-- The digit `d` of a number in base sixteen, lower case. -/
def hexDigit (d : Nat) : Char :=
  if d < 10 then Char.ofNat (48 + d) else Char.ofNat (87 + d)

/-- How `c` stands in a JSON string: the quote, the backslash and the controls below U+0020 are
escaped, every other character stands for itself. -/
def escape (c : Char) : List Char :=
  if c = '"' then ['\\', '"']
  else if c = '\\' then ['\\', '\\']
  else if c = '\n' then ['\\', 'n']
  else if c = '\r' then ['\\', 'r']
  else if c = '\t' then ['\\', 't']
  else if c = Char.ofNat 8 then ['\\', 'b']
  else if c = Char.ofNat 12 then ['\\', 'f']
  else if c.toNat < 32 then
    ['\\', 'u', '0', '0', hexDigit (c.toNat / 16), hexDigit (c.toNat % 16)]
  else [c]

/-- A JSON string followed by `rest`. -/
def writeString (s : String) (rest : List Char) : List Char :=
  '"' :: (s.toList.flatMap escape ++ '"' :: rest)

/-- A new line indented by `depth` steps of two blanks. -/
def newLine (depth : Nat) (rest : List Char) : List Char :=
  '\n' :: (List.replicate (2 * depth) ' ' ++ rest)

mutual

/-- The document over several lines, `depth` steps deep, followed by `rest`. -/
def write : Json → Nat → List Char → List Char
  | .null, _, rest => "null".toList ++ rest
  | .bool b, _, rest => (if b then "true" else "false").toList ++ rest
  | .int n, _, rest => (toString n).toList ++ rest
  | .string s, _, rest => writeString s rest
  | .array [], _, rest => '[' :: ']' :: rest
  | .array (a :: as), depth, rest =>
    '[' :: newLine (depth + 1) (write a (depth + 1)
      (writeItems as (depth + 1) (newLine depth (']' :: rest))))
  | .object [], _, rest => '\x7b' :: '\x7d' :: rest
  | .object ((name, a) :: fields), depth, rest =>
    '\x7b' :: newLine (depth + 1) (writeString name (':' :: ' ' :: write a (depth + 1)
      (writeFields fields (depth + 1) (newLine depth ('\x7d' :: rest)))))

/-- Each further item after a comma, on its own line. -/
def writeItems : List Json → Nat → List Char → List Char
  | [], _, rest => rest
  | a :: as, depth, rest => ',' :: newLine depth (write a depth (writeItems as depth rest))

/-- Each further field after a comma, on its own line. -/
def writeFields : List (String × Json) → Nat → List Char → List Char
  | [], _, rest => rest
  | (name, a) :: fields, depth, rest =>
    ',' :: newLine depth (writeString name (':' :: ' ' ::
      write a depth (writeFields fields depth rest)))

end

/-- The document over several lines, two blanks to a level. -/
def pretty (document : Json) : String :=
  String.ofList (document.write 0 [])

end Json

end Humus.Text
