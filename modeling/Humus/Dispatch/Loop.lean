import Humus.Dispatch.Queue
import Humus.Text.Outline

/-!
# Event loops

An event loop delivers messages one at a time, in the order in which they were sent. Handling a
message changes the state of the receivers and asks for effects: further messages, or a halt
because of a fault. A halt discards every message that waits, and the loop takes no new one until
a run has reported the fault.

## Main definitions

* `Script σ Msg Fault`: how the receivers, with state `σ`, handle a message
* `Loop Msg Fault`: the waiting messages, the limit of a run, and the fault that stopped the loop
* `Loop.step`: deliver one message
* `Loop.run`: deliver until nothing waits, a fault has been raised, or the limit is reached
-/

namespace Humus.Dispatch

open Text (Outline)

/-- What the handling of a message asks for. -/
inductive Effect (Msg Fault : Type) where
  /-- Send a message. -/
  | send (message : Msg)
  /-- Stop the loop. -/
  | halt (fault : Fault)

/-- How receivers with state `σ` handle a message: the effects, in order, and the new state. -/
abbrev Script (σ Msg Fault : Type) :=
  Msg → σ → List (Effect Msg Fault) × σ

/-- Why a run stopped before the loop was idle. -/
inductive Stop (Fault : Type) where
  /-- The loop was halted. -/
  | fault (fault : Fault)
  /-- The run delivered as many messages as it may, and more were waiting. -/
  | limit (limit : Nat)

/-- An event loop. -/
structure Loop (Msg Fault : Type) where
  /-- The messages that wait for delivery. -/
  queue : Queue Msg := .empty
  /-- How many messages one run may deliver, `none` when any number. -/
  limit : Option Nat := none
  /-- How many messages were delivered so far. -/
  dispatched : Nat := 0
  /-- The fault that halted the loop, until a run reports it. -/
  halted : Option Fault := none

namespace Loop

variable {σ Msg Fault : Type}

/-- A loop on which nothing happened yet. -/
def fresh (limit : Option Nat) : Loop Msg Fault :=
  { limit }

/-- How many messages wait. -/
def pending (loop : Loop Msg Fault) : Nat :=
  loop.queue.size

/-- Let `message` wait for its delivery. A halted loop drops it. -/
def send (loop : Loop Msg Fault) (message : Msg) : Loop Msg Fault :=
  match loop.halted with
  | some _ => loop
  | none => { loop with queue := loop.queue.push message }

/-- Discard the waiting messages because of `fault`. Of several faults the first is kept. -/
def halt (loop : Loop Msg Fault) (fault : Fault) : Loop Msg Fault :=
  { loop with queue := .empty, halted := some (loop.halted.getD fault) }

/-- Carry out one effect. -/
def perform (loop : Loop Msg Fault) : Effect Msg Fault → Loop Msg Fault
  | .send message => loop.send message
  | .halt fault => loop.halt fault

/-- Deliver the next message, `none` when nothing waits. -/
@[inline]
def step (script : Script σ Msg Fault) (loop : Loop Msg Fault) (state : σ) :
    Option (Loop Msg Fault × σ) :=
  match loop.queue.pop? with
  | none => none
  | some (message, queue) =>
    let (effects, state) := script message state
    some (effects.foldl perform { loop with queue, dispatched := loop.dispatched + 1 }, state)

/-- Whether a run that began after `first` deliveries has used up its limit while messages
wait. -/
def exceeded (first : Nat) (loop : Loop Msg Fault) : Option Nat :=
  match loop.limit with
  | some limit =>
    if limit ≤ loop.dispatched - first && !loop.queue.isEmpty then some limit else none
  | none => none

/-- A run that began after `first` deliveries. A fault is reported first, then the limit. `none`
when `fuel` deliveries were not enough to finish. -/
def runFrom (script : Script σ Msg Fault) (first : Nat) :
    Nat → Loop Msg Fault → σ → Option (Except (Stop Fault) Nat × Loop Msg Fault × σ)
  | 0, _, _ => none
  | fuel + 1, loop, state =>
    match loop.halted with
    | some fault => some (.error (.fault fault), { loop with halted := none }, state)
    | none =>
      match loop.exceeded first with
      | some limit => some (.error (.limit limit), { loop with queue := .empty }, state)
      | none =>
        match loop.step script state with
        | none => some (.ok (loop.dispatched - first), loop, state)
        | some (loop, state) => runFrom script first fuel loop state

/-- Deliver until nothing waits, a fault has been raised, or the limit of the loop is reached.
Answers the number of deliveries of this run. -/
def run (script : Script σ Msg Fault) (fuel : Nat) (loop : Loop Msg Fault) (state : σ) :
    Option (Except (Stop Fault) Nat × Loop Msg Fault × σ) :=
  runFrom script loop.dispatched fuel loop state

/-- The loop as traces show it. -/
def outline (fault : Fault → Outline) (loop : Loop Msg Fault) : Outline :=
  .record "EventLoop" [
    ("pending", .nat loop.pending),
    ("dispatched", .nat loop.dispatched),
    ("halted", .option fault loop.halted),
    ("config", .record "EventLoopConfig" [("dispatch_limit", .option .nat loop.limit)])]

end Loop

end Humus.Dispatch
