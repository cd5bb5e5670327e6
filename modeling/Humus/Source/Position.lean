import Humus.Text.Outline

/-!
# Positions and spans

A position counts from zero: how many tokens come before it, and the row and column of the
character it stands on. A message shows the row and column counted from one.

## Main definitions

* `Position`: an offset with a row and a column
* `Position.after`: the position behind a character
* `Span`: the region between two positions
-/

namespace Humus

open Text (Outline)

/-- A place in an input, counted from zero. -/
structure Position where
  /-- How many tokens come before. -/
  offset : Nat
  row : Nat
  col : Nat
  deriving DecidableEq

namespace Position

/-- The start of every input. -/
def start : Position := ⟨0, 0, 0⟩

/-- The position behind the character `c`. Only a line feed begins a new row. -/
def after (p : Position) (c : Char) : Position :=
  if c = '\n' then ⟨p.offset + 1, p.row + 1, 0⟩ else ⟨p.offset + 1, p.row, p.col + 1⟩

/-- The line and column, counted from one. -/
def text (p : Position) : String :=
  toString (p.row + 1) ++ ":" ++ toString (p.col + 1)

/-- The position in a trace. -/
def outline (p : Position) : Outline :=
  .record "Position" [("offset", .nat p.offset), ("row", .nat p.row), ("col", .nat p.col)]

/-- Offsets are compared first, then rows, then columns. -/
instance : LE Position where
  le p q := p.offset < q.offset ∨
    p.offset = q.offset ∧ (p.row < q.row ∨ p.row = q.row ∧ p.col ≤ q.col)

instance (p q : Position) : Decidable (p ≤ q) :=
  inferInstanceAs (Decidable (_ ∨ _))

end Position

/-- The region between two positions. -/
structure Span where
  start : Position
  stop : Position
  deriving DecidableEq

namespace Span

/-- How many tokens the span covers. A span that runs backwards covers none. -/
def length (s : Span) : Nat :=
  s.stop.offset - s.start.offset

/-- Whether the span covers no token. -/
def isEmpty (s : Span) : Bool :=
  s.length == 0

/-- The two ends. -/
def text (s : Span) : String :=
  s.start.text ++ ".." ++ s.stop.text

/-- The span in a trace. -/
def outline (s : Span) : Outline :=
  .record "Span" [("start", s.start.outline), ("end", s.stop.outline)]

end Span

end Humus
