import Humus.Dispatch.Loop

/-!
# Troupes

A troupe is a cast of named actors that pass integers to each other, each according to a part
written in advance. It shows what an event loop delivers, and when.

## Main definitions

* `Part`: what one actor does on receiving a number
* `Troupe Fault`: a cast on an event loop, and the numbers received so far
* `Cue`, `Troupe.play`: the calls on the loop from outside
-/

namespace Humus.Dispatch

open Text (Outline)

/-- What an actor does on receiving `n`, in this order. -/
structure Part (Fault : Type) where
  /-- Halt the loop. -/
  halt : Option Fault := none
  /-- Send `n + step` to each of these actors. -/
  relay : List String := []
  /-- The number added by `relay`. -/
  step : Int := 0
  /-- Send `n - 1` to itself while `n` is positive, and then `n` to this actor. -/
  countdown : Option String := none

/-- A number on its way to an actor. -/
structure Line where
  recipient : String
  number : Int

/-- A cast of named actors on one event loop. -/
structure Troupe (Fault : Type) where
  cast : List (String × Part Fault)
  loop : Loop Line Fault
  /-- The numbers received, newest first. -/
  seen : List Line := []

/-- A call on the loop from outside. -/
inductive Cue (Fault : Type) where
  | send (line : Line)
  | step
  | run
  | halt (fault : Fault)
  | describe

/-- What a call answers. -/
inductive Response (Fault : Type) where
  | nothing
  | delivered (any : Bool)
  | ran (result : Except (Stop Fault) Nat)
  | description (outline : Outline)

namespace Troupe

variable {Fault : Type}

/-- Send `line`, unless the cast has no actor of that name. -/
def sendTo (cast : List (String × Part Fault)) (line : Line) : List (Effect Line Fault) :=
  if (cast.lookup line.recipient).isSome then [.send line] else []

/-- How the cast handles a number: the receipt is noted, then the part is followed. -/
def script (cast : List (String × Part Fault)) : Script (List Line) Line Fault := fun line seen =>
  match cast.lookup line.recipient with
  | none => ([], line :: seen)
  | some part =>
    let halts := part.halt.toList.map Effect.halt
    let relays := part.relay.flatMap fun name => sendTo cast ⟨name, line.number + part.step⟩
    let counts := part.countdown.toList.flatMap fun name =>
      if 0 < line.number then sendTo cast ⟨line.recipient, line.number - 1⟩
      else sendTo cast ⟨name, line.number⟩
    (halts ++ relays ++ counts, line :: seen)

/-- Answer one call. `none` when a run did not finish within `fuel` deliveries. -/
def play (fault : Fault → Outline) (fuel : Nat) (troupe : Troupe Fault) :
    Cue Fault → Option (Response Fault × Troupe Fault)
  | .send line =>
    let loop := (sendTo troupe.cast line).foldl Loop.perform troupe.loop
    some (.nothing, { troupe with loop })
  | .step =>
    match troupe.loop.step (script troupe.cast) troupe.seen with
    | none => some (.delivered false, troupe)
    | some (loop, seen) => some (.delivered true, { troupe with loop, seen })
  | .run => do
    let (result, loop, seen) ← troupe.loop.run (script troupe.cast) fuel troupe.seen
    some (.ran result, { troupe with loop, seen })
  | .halt f => some (.nothing, { troupe with loop := troupe.loop.halt f })
  | .describe => some (.description (troupe.loop.outline fault), troupe)

end Troupe

end Humus.Dispatch
