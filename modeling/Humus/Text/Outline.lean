import Humus.Text.Quoted

/-!
# Outlines

An outline is the shape of a value: the name of its constructor, its fields and its items. It is
written on one line, for messages, or with one field to a line, for reading.

## Main definitions

* `Outline`: a shape
* `Outline.compact`: the shape on one line
* `Outline.expanded`: the shape with every field and item on a line of its own
-/

namespace Humus.Text

/-- The shape of a value. -/
inductive Outline where
  /-- A word that stands for itself. -/
  | word (text : String)
  /-- A constructor applied to unnamed arguments. -/
  | applied (name : String) (arguments : List Outline)
  /-- A constructor with named fields. -/
  | record (name : String) (fields : List (String × Outline))
  /-- A list of items. -/
  | items (items : List Outline)

namespace Outline

/-- A character, quoted. -/
def char (c : Char) : Outline :=
  .word (quotedChar c)

/-- A string, quoted. -/
def string (s : String) : Outline :=
  .word (quotedString s)

/-- A natural number in decimal. -/
def nat (n : Nat) : Outline :=
  .word (toString n)

/-- An integer in decimal. -/
def int (n : Int) : Outline :=
  .word (toString n)

/-- A truth value. -/
def bool (b : Bool) : Outline :=
  .word (if b then "true" else "false")

/-- A value that may be absent. -/
def option {α : Type} (shape : α → Outline) : Option α → Outline
  | none => .word "None"
  | some a => .applied "Some" [shape a]

/-! ## One line -/

mutual

/-- The outline on one line, followed by `rest`. -/
def writeCompact : Outline → List Char → List Char
  | .word text, rest => text.toList ++ rest
  | .applied name [], rest => name.toList ++ rest
  | .applied name (a :: as), rest =>
    name.toList ++ '(' :: writeCompact a (writeCompactItems as (')' :: rest))
  | .record name [], rest => name.toList ++ rest
  | .record name ((field, a) :: fields), rest =>
    name.toList ++ [' ', '\x7b', ' '] ++ field.toList ++ [':', ' ']
      ++ writeCompact a (writeCompactFields fields ([' ', '\x7d'] ++ rest))
  | .items [], rest => '[' :: ']' :: rest
  | .items (a :: as), rest => '[' :: writeCompact a (writeCompactItems as (']' :: rest))

/-- Each further item after a comma. -/
def writeCompactItems : List Outline → List Char → List Char
  | [], rest => rest
  | a :: as, rest => ',' :: ' ' :: writeCompact a (writeCompactItems as rest)

/-- Each further field after a comma. -/
def writeCompactFields : List (String × Outline) → List Char → List Char
  | [], rest => rest
  | (field, a) :: fields, rest =>
    ',' :: ' ' :: (field.toList ++ [':', ' '] ++ writeCompact a (writeCompactFields fields rest))

end

/-- The outline on one line. -/
def compact (o : Outline) : String :=
  String.ofList (o.writeCompact [])

/-! ## One field to a line -/

/-- A new line indented by `depth` steps of four blanks. -/
def newLine (depth : Nat) (rest : List Char) : List Char :=
  '\n' :: (List.replicate (4 * depth) ' ' ++ rest)

mutual

/-- The outline over several lines, `depth` steps deep, followed by `rest`. Every item and field
ends with a comma, the last one too. -/
def writeExpanded : Outline → Nat → List Char → List Char
  | .word text, _, rest => text.toList ++ rest
  | .applied name [], _, rest => name.toList ++ rest
  | .applied name (a :: as), depth, rest =>
    name.toList ++ '(' :: newLine (depth + 1) (writeExpanded a (depth + 1) (',' ::
      writeExpandedItems as (depth + 1) (newLine depth (')' :: rest))))
  | .record name [], _, rest => name.toList ++ rest
  | .record name ((field, a) :: fields), depth, rest =>
    name.toList ++ [' ', '\x7b'] ++ newLine (depth + 1) (field.toList ++ [':', ' ']
      ++ writeExpanded a (depth + 1) (',' ::
        writeExpandedFields fields (depth + 1) (newLine depth ('\x7d' :: rest))))
  | .items [], _, rest => '[' :: ']' :: rest
  | .items (a :: as), depth, rest =>
    '[' :: newLine (depth + 1) (writeExpanded a (depth + 1) (',' ::
      writeExpandedItems as (depth + 1) (newLine depth (']' :: rest))))

/-- Each further item on its own line. -/
def writeExpandedItems : List Outline → Nat → List Char → List Char
  | [], _, rest => rest
  | a :: as, depth, rest =>
    newLine depth (writeExpanded a depth (',' :: writeExpandedItems as depth rest))

/-- Each further field on its own line. -/
def writeExpandedFields : List (String × Outline) → Nat → List Char → List Char
  | [], _, rest => rest
  | (field, a) :: fields, depth, rest =>
    newLine depth (field.toList ++ [':', ' '] ++
      writeExpanded a depth (',' :: writeExpandedFields fields depth rest))

end

/-- The outline with every field and item on a line of its own. -/
def expanded (o : Outline) : String :=
  String.ofList (o.writeExpanded 0 [])

end Outline

end Humus.Text
