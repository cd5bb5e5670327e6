import Humus.Peg.MatchValue
import Humus.Source.Position

/-!
# Cursors, streams and failures

A stream answers a request for the cursor it stands for. A cursor is a snapshot of an input: the
token at a position and the stream of what follows, or the end. A cursor never changes, so to
keep one is to be able to go back to it.

A stream derived from another by a grammar may stop before the lower one does, because the
grammar cannot read what comes next. Its last cursor is then an end that carries the failure.

## Main definitions

* `Expected V`: what a failing match was looking for
* `Cursor V`, `Stream V`, `Failure V`: snapshots, their sources, and failed matches
* `Success V`: a match
-/

namespace Humus.Peg

open Text (Outline quotedString)

/-- What a failing match was looking for. -/
inductive Expected (V : Type) where
  /-- This token. -/
  | token (value : V)
  /-- A token of a class with this name. -/
  | label (name : String)
  /-- The rule of this name. -/
  | rule (name : String)
  | anyToken
  | endOfInput
  deriving DecidableEq

mutual

/-- A snapshot of an input. -/
inductive Cursor (V : Type) where
  /-- A token and the stream of what follows it. -/
  | token (position : Position) (value : V) (rest : Stream V)
  /-- The end of the input. -/
  | finish (position : Position)
  /-- The end of a derived stream whose grammar failed before the lower input was used up. -/
  | stalled (position : Position) (failure : Failure V)

/-- A source of cursors. -/
inductive Stream (V : Type) where
  /-- The characters of a text, each a token. -/
  | chars (text : List Char) (position : Position)
  /-- The tokens of a list, the first of them at offset and column `index`. -/
  | values (items : List V) (index : Nat)
  /-- Always this cursor. -/
  | fixed (cursor : Cursor V)
  /-- A position of a derived stream, computed when it is first asked for. -/
  | derived (cell : Nat)
  /-- A source that never answers. -/
  | silent

/-- A failed match. -/
structure Failure (V : Type) where
  /-- Where the match was tried. -/
  position : Cursor V
  /-- The furthest cursor at which a token was refused. -/
  furthest : Cursor V
  /-- What would have been accepted at the furthest cursor. -/
  expected : List (Expected V)

end

/-- A match: the region from `start` to `stop` was consumed. -/
structure Success (V : Type) where
  start : Cursor V
  stop : Cursor V
  value : V

variable {V : Type}

instance : Inhabited (Cursor V) := ⟨.finish .start⟩

instance : Inhabited (Failure V) := ⟨⟨default, default, []⟩⟩

namespace Stream

/-- The characters of `text` as tokens. -/
def ofString (text : String) : Stream V :=
  .chars text.toList .start

/-- The items of a list as tokens: token `i` is at offset and column `i` of the first row. -/
def ofList (items : List V) : Stream V :=
  .values items 0

end Stream

namespace Cursor

/-- Where the cursor stands. -/
def position : Cursor V → Position
  | .token p _ _ | .finish p | .stalled p _ => p

/-- How many tokens come before the cursor. -/
def offset (c : Cursor V) : Nat :=
  c.position.offset

/-- The token at the cursor, `none` at the end. -/
def token? : Cursor V → Option V
  | .token _ value _ => some value
  | _ => none

/-- Whether no token is left. -/
def isEnd : Cursor V → Bool
  | .token .. => false
  | _ => true

/-- The failure that ended a derived stream early. -/
def stall? : Cursor V → Option (Failure V)
  | .stalled _ failure => some failure
  | _ => none

/-- The cursor in a trace. -/
def outline [MatchValue V] (c : Cursor V) : Outline :=
  .record "Cursor" ([("position", c.position.outline),
      ("token", .option MatchValue.outline c.token?)]
    ++ if c.stall?.isSome then [("stalled", .bool true)] else [])

end Cursor

namespace Success

/-- The consumed region. -/
def span (s : Success V) : Span :=
  ⟨s.start.position, s.stop.position⟩

/-- How many tokens were consumed. -/
def consumed (s : Success V) : Nat :=
  s.stop.offset - s.start.offset

end Success

namespace Expected

/-- The expectation in a message. -/
def describe [MatchValue V] : Expected V → String
  | .token value => MatchValue.describe value
  | .label name => name
  | .rule name => name
  | .anyToken => "any token"
  | .endOfInput => "end of input"

/-- The expectation in a trace. -/
def outline [MatchValue V] : Expected V → Outline
  | .token value => .applied "Token" [MatchValue.outline value]
  | .label name => .applied "Label" [.string name]
  | .rule name => .applied "Rule" [.string name]
  | .anyToken => .word "AnyToken"
  | .endOfInput => .word "EndOfInput"

end Expected

/-- A list without the items that equal the one before them. -/
def dropRepeats {α : Type} [DecidableEq α] : List α → List α
  | a :: b :: as => if a = b then dropRepeats (b :: as) else a :: dropRepeats (b :: as)
  | as => as

namespace Failure

/-- A token was refused at `position`. -/
def of (position : Cursor V) (expected : Expected V) : Failure V :=
  { position, furthest := position, expected := [expected] }

/-- A failure at `position` that names nothing it was looking for. -/
def unexpected (position : Cursor V) : Failure V :=
  { position, furthest := position, expected := [] }

/-- The same failure of a match that was tried at `start`. -/
def startingAt (failure : Failure V) (start : Cursor V) : Failure V :=
  { failure with position := start }

/-- The items of `ours`, then those of `theirs` that are not yet listed. -/
def union [DecidableEq V] (ours theirs : List (Expected V)) : List (Expected V) :=
  theirs.foldl (fun all e => if e ∈ all then all else all ++ [e]) ours

/-- Two failures of one match. The one that got further counts, and the expectations of two that
got equally far are united. -/
def merge [DecidableEq V] (ours theirs : Failure V) : Failure V :=
  if ours.furthest.offset < theirs.furthest.offset then
    { ours with furthest := theirs.furthest, expected := theirs.expected }
  else if theirs.furthest.offset = ours.furthest.offset then
    { ours with expected := union ours.expected theirs.expected }
  else ours

/-- A rule that failed without getting past its start was itself expected there. -/
def relabel (failure : Failure V) (rule : String) : Failure V :=
  if failure.furthest.offset = failure.position.offset then
    { failure with expected := [.rule rule] }
  else failure

variable [MatchValue V]

/-- What would have been accepted, as in "expected a, b or c". -/
def description (failure : Failure V) : String :=
  let items := dropRepeats (failure.expected.map Expected.describe)
  match items.getLast? with
  | none => "unexpected input"
  | some last =>
    match items.dropLast with
    | [] => "expected " ++ last
    | first => "expected " ++ ", ".intercalate first ++ " or " ++ last

/-- What stands at the furthest cursor. -/
def found (failure : Failure V) : String :=
  match failure.furthest.token? with
  | some value => MatchValue.describe value
  | none => "end of input"

/-- The failure in one sentence. -/
def message (failure : Failure V) : String :=
  failure.description ++ " at " ++ failure.furthest.position.text ++ ", found " ++ failure.found

/-- The failure in a trace. -/
def outline (failure : Failure V) : Outline :=
  .record "Failure" [
    ("position", failure.position.position.outline),
    ("furthest", failure.furthest.position.outline),
    ("expected", .items (failure.expected.map Expected.outline))]

end Failure

end Humus.Peg
