import Humus.Peg.Grammar
import Humus.Dispatch.Loop

/-!
# The network of a match

Matching is a conversation of actors. A request asks a pattern to match at a cursor and names who
is told of a success and who of a failure; those addressees hold what has still to be done. The
addressees are data, so that the state of a match at any moment is a value.

## Main definitions

* `OnSuccess V`, `OnFailure V`, `OnCursor V`: the addressees of answers, with the rest of the work
* `Delivery V`: a message on its way to an actor
* `Cell V`: one position of a derived stream, which remembers its cursor
* `World V`: everything that deliveries change
-/

namespace Humus.Peg

open Dispatch (Effect Loop Stop)

mutual

/-- Who is told of a success. -/
inductive OnSuccess (V : Type) where
  /-- The one who started the match of this number. -/
  | report (matcher : Nat)
  /-- A sequence that began at `start`, with items left to match and the values of those before,
  newest first. -/
  | nextItem (start : Cursor V) (rest : List (Pattern V)) (values : List V)
      (ok : OnSuccess V) (fail : OnFailure V)
  /-- A repetition that began at `start`, with the values so far, newest first. -/
  | again (body : Pattern V) (needsOne : Bool) (start : Cursor V) (values : List V)
      (ok : OnSuccess V) (fail : OnFailure V)
  /-- An option whose body matched. -/
  | found (ok : OnSuccess V)
  /-- A negative lookahead whose body matched. -/
  | unwanted (here : Cursor V) (fail : OnFailure V)
  /-- A rule with a transform. -/
  | transform (ref : RuleRef) (f : Transform V) (ok : OnSuccess V)
  /-- A cell that has stepped over what precedes its token. -/
  | skipped (cell : Nat)
  /-- A cell whose token was matched, tried at `here`. -/
  | lexed (cell : Nat) (here : Cursor V)

/-- Who is told of a failure. -/
inductive OnFailure (V : Type) where
  /-- The one who started the match of this number. -/
  | report (matcher : Nat)
  /-- A sequence that began at `start`. -/
  | backTo (start : Cursor V) (fail : OnFailure V)
  /-- A choice at `input`, with alternatives left to try and the merged failure of those
  before. -/
  | nextAlternative (input : Cursor V) (rest : List (Pattern V)) (failed : Option (Failure V))
      (ok : OnSuccess V) (fail : OnFailure V)
  /-- A repetition whose body did not match at `here`. -/
  | enough (needsOne : Bool) (start here : Cursor V) (values : List V)
      (ok : OnSuccess V) (fail : OnFailure V)
  /-- An option whose body did not match. -/
  | missing (here : Cursor V) (ok : OnSuccess V)
  /-- A negative lookahead whose body did not match. -/
  | absent (here : Cursor V) (ok : OnSuccess V)
  /-- A rule, which may report the failure under its own name. -/
  | relabel (rule : String) (fail : OnFailure V)
  /-- A cell that has nothing to step over before its token. -/
  | unskipped (cell : Nat) (here : Cursor V)
  /-- A cell whose token was refused at `here`. -/
  | unlexed (cell : Nat) (here : Cursor V)

end

/-- Who asked a stream for its cursor. -/
inductive OnCursor (V : Type) where
  /-- A match of one token, to be answered once the cursor behind it is known. -/
  | consumed (start : Cursor V) (value : V) (ok : OnSuccess V)
  /-- A match that begins at the cursor. -/
  | matcher (pattern : Pattern V) (ok : OnSuccess V) (fail : OnFailure V)
  /-- A walk that notes every cursor up to the end. -/
  | walker
  /-- A cell that reads the stream below it. -/
  | reader (cell : Nat)

/-- The question whether a pattern matches at a cursor. -/
structure Request (V : Type) where
  input : Cursor V
  ok : OnSuccess V
  fail : OnFailure V

/-- A message on its way to an actor. -/
inductive Delivery (V : Type) where
  /-- A question to a pattern. -/
  | request (pattern : Pattern V) (request : Request V)
  /-- A question to the actor that counts questions and passes them on. -/
  | tallied (counter : String) (body : Pattern V) (request : Request V)
  /-- A question to the actor that never answers. -/
  | ignored
  | success (customer : OnSuccess V) (success : Success V)
  | failure (customer : OnFailure V) (failure : Failure V)
  | cursor (customer : OnCursor V) (cursor : Cursor V)
  /-- A question to a stream. -/
  | ask (stream : Stream V) (customer : OnCursor V)

/-- What a position of a derived stream is computed from. -/
inductive Base (V : Type) where
  /-- The first cursor of a stream below. -/
  | stream (stream : Stream V)
  /-- This cursor of the stream below. -/
  | cursor (cursor : Cursor V)

/-- What a cell knows of its cursor. -/
inductive Memo (V : Type) where
  /-- Nobody has asked yet. -/
  | idle
  /-- The cursor is being computed for these customers. -/
  | pending (customers : List (OnCursor V))
  | ready (cursor : Cursor V)

/-- One position of a derived stream. -/
structure Cell (V : Type) where
  base : Base V
  /-- What is stepped over before a token. -/
  skip : Option (Pattern V)
  token : Pattern V
  /-- How many tokens come before. -/
  index : Nat
  memo : Memo V

/-- One use of a transform: the rule, the raw value and the consumed region. -/
structure Invocation (V : Type) where
  ref : RuleRef
  value : V
  span : Span

/-- The answer to the match of a number. -/
structure Answer (V : Type) where
  matcher : Nat
  outcome : Except (Failure V) (Success V)

/-- Everything that deliveries change. -/
structure World (V : Type) where
  /-- The grammars by number, `none` for one that no longer exists. -/
  grammars : Array (Option (Grammar V)) := #[]
  /-- The positions of all derived streams. -/
  cells : Array (Cell V) := #[]
  /-- How many requests each counting actor has seen. -/
  counters : List (String × Nat) := []
  /-- The uses of transforms, newest first. -/
  invocations : List (Invocation V) := []
  /-- The answers to matches, newest first. -/
  answers : List (Answer V) := []
  /-- The cursors of a walk, newest first. -/
  walked : List (Cursor V) := []

/-- What the handling of one delivery asks for. -/
abbrev Effects (V : Type) := List (Effect (Delivery V) Fault)

namespace World

variable {V : Type}

/-- The grammar of this number. -/
def grammar? (w : World V) (id : Nat) : Option (Grammar V) :=
  (w.grammars[id]?).join

/-- Add a grammar. Answers its number. -/
def addGrammar (w : World V) (g : Grammar V) : Nat × World V :=
  (w.grammars.size, { w with grammars := w.grammars.push (some g) })

/-- Put `g` in the place of the grammar of this number; `none` removes it. -/
def setGrammar (w : World V) (id : Nat) (g : Option (Grammar V)) : World V :=
  { w with grammars := w.grammars.setIfInBounds id g }

/-- Seal the grammar of this number. -/
def sealGrammar (w : World V) (id : Nat) : World V :=
  match w.grammar? id with
  | some g => if g.isSealed then w else w.setGrammar id (some { g with isSealed := true })
  | none => w

/-- Add a cell. Answers its number. -/
def addCell (w : World V) (cell : Cell V) : Nat × World V :=
  (w.cells.size, { w with cells := w.cells.push cell })

/-- Change what a cell knows. -/
def setMemo (w : World V) (id : Nat) (memo : Memo V) : World V :=
  { w with cells := w.cells.modify id ({ · with memo }) }

/-- Let there be a counting actor of this name. A new one has seen no request. -/
def addCounter (w : World V) (counter : String) : World V :=
  if (w.counters.lookup counter).isSome then w
  else { w with counters := w.counters ++ [(counter, 0)] }

/-- One more request at the counting actor of this name. -/
def count (w : World V) (counter : String) : World V :=
  { w with counters := increment w.counters }
where
  /-- One more under the name, which is added on its first mention. -/
  increment : List (String × Nat) → List (String × Nat)
    | [] => [(counter, 1)]
    | (name, n) :: counts =>
      if name = counter then (name, n + 1) :: counts else (name, n) :: increment counts

/-- A derived stream: token `i` is the value of match `i` of `token` over `source`, after
stepping over whatever `skip` matches. -/
def derive (w : World V) (source : Stream V) (skip : Option (Pattern V)) (token : Pattern V) :
    Stream V × World V :=
  let (cell, w) := w.addCell { base := .stream source, skip, token, index := 0, memo := .idle }
  (.derived cell, w)

end World

end Humus.Peg
