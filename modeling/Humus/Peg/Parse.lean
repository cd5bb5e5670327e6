import Humus.Peg.Matching

/-!
# Parsing

A parse is one match on an event loop of its own. The loop stops when the match is answered, when
a fault halts it, or when the number of deliveries reaches a limit.

Every run takes an amount of fuel, the number of deliveries after which it is given up without a
result. A result does not depend on the amount.

## Main definitions

* `ParseError`, `ParseError.message`: why a parse has no match, and the same in one sentence
* `parse`, `parseAt`: match a pattern at the first cursor of a stream, or at a cursor
* `collect`: all cursors of a stream
* `startAll`: several matches on one event loop
-/

namespace Humus.Peg

open Dispatch (Loop Stop)

/-- What stopped an event loop, in one sentence. -/
def stopMessage : Stop Fault → String
  | .fault fault => fault.message
  | .limit limit => "event loop exceeded its dispatch limit of " ++ toString limit ++ " messages"

/-- Why a parse has no match. -/
inductive ParseError (V : Type) where
  /-- The pattern did not match. -/
  | failed (failure : Failure V)
  /-- A fault or the limit stopped the event loop. -/
  | halted (stop : Stop Fault)
  /-- The event loop went idle and nobody had answered. -/
  | incomplete

/-- The error in one sentence. -/
def ParseError.message {V : Type} [MatchValue V] : ParseError V → String
  | .failed failure => failure.message
  | .halted stop => stopMessage stop
  | .incomplete => "the event loop went idle before the match finished"

/-- What a parse comes to. -/
abbrev Outcome (V : Type) := Except (ParseError V) (Success V)

/-- What several matches on one event loop come to. -/
structure JointOutcome (V : Type) where
  /-- The number of deliveries, or what stopped them. -/
  run : Except (Stop Fault) Nat
  /-- The messages that still wait. -/
  pending : Nat
  /-- The deliveries of the loop since it was made. -/
  dispatched : Nat
  /-- The answers in the order of their arrival. -/
  answers : List (Answer V)

variable {V : Type} [MatchValue V] [DecidableEq V]

/-- Run a new event loop on some first deliveries. -/
def runLoop (fuel : Nat) (limit : Option Nat) (first : List (Delivery V)) (w : World V) :
    Option (Except (Stop Fault) Nat × Loop (Delivery V) Fault × World V) :=
  (first.foldl Loop.send (Loop.fresh limit)).run receive fuel w

/-- The outcome of a run in which one match was started. -/
def outcomeOf (run : Except (Stop Fault) Nat) (answers : List (Answer V)) : Outcome V :=
  match run, answers with
  | .error stop, _ => .error (.halted stop)
  | .ok _, [] => .error .incomplete
  | .ok _, ⟨_, .ok s⟩ :: _ => .ok s
  | .ok _, ⟨_, .error f⟩ :: _ => .error (.failed f)

/-- Run one match that begins with `first`. -/
def runMatch (fuel : Nat) (limit : Option Nat) (first : Delivery V) (w : World V) :
    Option (Outcome V × World V) := do
  let (run, _, w) ← runLoop fuel limit [first] { w with answers := [] }
  return (outcomeOf run w.answers, { w with answers := [] })

/-- The addressee that starts a match, whose answer is reported under a number. -/
def matcher (pattern : Pattern V) (number : Nat) : OnCursor V :=
  .matcher pattern (.report number) (.report number)

/-- Match `pattern` at the first cursor of `stream`. -/
def parse (fuel : Nat) (limit : Option Nat) (pattern : Pattern V) (stream : Stream V)
    (w : World V) : Option (Outcome V × World V) :=
  runMatch fuel limit (.ask stream (matcher pattern 0)) w

/-- Match `pattern` at `c`. -/
def parseAt (fuel : Nat) (limit : Option Nat) (pattern : Pattern V) (c : Cursor V)
    (w : World V) : Option (Outcome V × World V) :=
  runMatch fuel limit (.cursor (matcher pattern 0) c) w

/-- All cursors of `stream`, in order. The last one is its end. -/
def collect (fuel : Nat) (limit : Option Nat) (stream : Stream V) (w : World V) :
    Option (Except (Stop Fault) (List (Cursor V)) × World V) := do
  let (run, _, w) ← runLoop fuel limit [.ask stream .walker] { w with walked := [] }
  return (run.map fun _ => w.walked.reverse, { w with walked := [] })

/-- Start one match for each pattern and stream, in order, on one event loop. Answer `i` is that
of the match number `i`. -/
def startAll (fuel : Nat) (limit : Option Nat) (jobs : List (Pattern V × Stream V))
    (w : World V) : Option (JointOutcome V × World V) := do
  let first := jobs.mapIdx fun i (pattern, stream) => .ask stream (matcher pattern i)
  let (run, loop, w) ← runLoop fuel limit first { w with answers := [] }
  return (⟨run, loop.pending, loop.dispatched, w.answers.reverse⟩, { w with answers := [] })

end Humus.Peg
