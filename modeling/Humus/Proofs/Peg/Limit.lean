import Humus.Proofs.Dispatch.Idle
import Humus.Proofs.Dispatch.Limit
import Humus.Peg.Parse

/-!
# Limited parses

A parse and a walk are runs of a loop of their own, and their results are read off those runs. So a
limit changes a parse or a walk exactly where it changes a run of the loop: when more deliveries
would be made than it allows.

## Main results

* `runMatch_same_or_cut`: what a match under a limit comes to
* `dispatch_limit_exact`: the limit of a run, of a parse and of a walk is exact
-/

namespace Humus.Peg

open Dispatch (Loop LimitExact Script Terminates)

variable {V : Type} [MatchValue V] [DecidableEq V]

/-- A run of a new loop, without the loop that it leaves behind, is read off the run within the
limit. -/
theorem runLoop_map_eq (fuel : Nat) (limit : Option Nat) (first : Delivery V) (w : World V) :
    (runLoop fuel limit [first] w).map (fun r => (r.1, r.2.2)) =
      (Loop.runWithin receive (Loop.send (.fresh none) first) w limit fuel).map
        fun r => (r.1, r.2.2) := by
  unfold runLoop Loop.runWithin
  rw [Option.map_map]
  rfl

/-- A limit is exact for whatever is read off the run of a new loop and the world after it. -/
theorem limitExact_runLoop {β : Type} (first : Delivery V) (w : World V)
    (f : Except (Dispatch.Stop Fault) Nat × World V → β) {cut : Nat → β → Prop}
    (hcut : ∀ limit w', cut limit (f (.error (.limit limit), w'))) :
    LimitExact ((Loop.send (.fresh none) first).StopsAfter receive w)
      (fun limit fuel => (runLoop fuel limit [first] w).map fun r => f (r.1, r.2.2)) cut := by
  have hrun : (fun limit fuel => (runLoop fuel limit [first] w).map fun r => f (r.1, r.2.2)) =
      fun limit fuel => (Loop.runWithin receive (Loop.send (.fresh none) first) w limit fuel).map
        fun r => f (r.1, r.2.2) := by
    ext1 limit
    ext1 fuel
    have hmap := congrArg (Option.map f) (runLoop_map_eq fuel limit first w)
    rwa [Option.map_map, Option.map_map] at hmap
  rw [hrun]
  apply (Loop.limitExact_run receive (Loop.send (.fresh none) first) w).map
  rintro limit ⟨result, loop', w'⟩ ⟨rfl, -⟩
  exact hcut limit w'

/-- What a parse reads off a run and the world after it. -/
def parseResult (r : Except (Dispatch.Stop Fault) Nat × World V) : Outcome V × World V :=
  (outcomeOf r.1 r.2.answers, { r.2 with answers := [] })

/-- What a walk reads off a run and the world after it. -/
def walkResult (r : Except (Dispatch.Stop Fault) Nat × World V) :
    Except (Dispatch.Stop Fault) (List (Cursor V)) × World V :=
  (r.1.map fun _ => r.2.walked.reverse, { r.2 with walked := [] })

theorem runMatch_eq_map (fuel : Nat) (limit : Option Nat) (first : Delivery V) (w : World V) :
    runMatch fuel limit first w =
      (runLoop fuel limit [first] { w with answers := [] }).map
        fun r => parseResult (r.1, r.2.2) := by
  unfold runMatch
  rcases runLoop fuel limit [first] { w with answers := [] } with _ | r <;> rfl

theorem parse_eq_map (fuel : Nat) (limit : Option Nat) (p : Pattern V) (stream : Stream V)
    (w : World V) :
    parse fuel limit p stream w =
      (runLoop fuel limit [.ask stream (matcher p 0)] { w with answers := [] }).map
        fun r => parseResult (r.1, r.2.2) :=
  runMatch_eq_map fuel limit _ w

/-- A match under a limit comes to what it comes to without one, or it reports the limit. -/
theorem runMatch_same_or_cut {first : Delivery V} {w : World V} {r : Outcome V × World V}
    (h : Terminates (fun fuel => runMatch fuel none first w) (· = r)) (limit : Nat) :
    Terminates (fun fuel => runMatch fuel (some limit) first w) (· = r) ∨
      Terminates (fun fuel => runMatch fuel (some limit) first w)
        (·.1 = .error (.halted (.limit limit))) := by
  have hexact : LimitExact ((Loop.send (.fresh none) first).StopsAfter receive
      { w with answers := [] }) (fun limit fuel => runMatch fuel limit first w)
      (fun limit r => r.1 = .error (.halted (.limit limit))) := by
    simp only [runMatch_eq_map]
    apply limitExact_runLoop _ _ parseResult
    intro limit w'
    rfl
  exact hexact.same_or_cut h limit

theorem collect_eq_map (fuel : Nat) (limit : Option Nat) (stream : Stream V) (w : World V) :
    collect fuel limit stream w =
      (runLoop fuel limit [.ask stream .walker] { w with walked := [] }).map
        fun r => walkResult (r.1, r.2.2) := by
  unfold collect
  rcases runLoop fuel limit [.ask stream .walker] { w with walked := [] } with _ | r <;> rfl

/-- **The limit of a run is exact.** Let the loop, left alone, make `d` deliveries before it is
halted or idle. A run whose limit is at least `d` comes to the same result and leaves the same loop
and the same state as a run without a limit, and one with a smaller limit reports that limit after
as many deliveries. A loop that never stops has no result without a limit, and reports any limit.
The same holds of the outcome of a parse and of the cursors of a walk, for every pattern, stream and
world. -/
theorem dispatch_limit_exact {σ Msg Trouble : Type} (script : Script σ Msg Trouble)
    (loop : Loop Msg Trouble) (s : σ) (p : Pattern V) (stream : Stream V) (w : World V) :
    LimitExact (loop.StopsAfter script s) (loop.runWithin script s)
      (fun limit r =>
        r.1 = .error (.limit limit) ∧ r.2.1.dispatched = loop.dispatched + limit) ∧
    LimitExact
      ((Loop.send (.fresh none) (.ask stream (matcher p 0))).StopsAfter receive
        { w with answers := [] })
      (fun limit fuel => parse fuel limit p stream w)
      (fun limit r => r.1 = .error (.halted (.limit limit))) ∧
    LimitExact
      ((Loop.send (.fresh none) (.ask stream .walker)).StopsAfter receive { w with walked := [] })
      (fun limit fuel => collect fuel limit stream w)
      (fun limit r => r.1 = .error (.limit limit)) := by
  refine ⟨Loop.limitExact_run script loop s, ?_, ?_⟩
  · simp only [parse_eq_map]
    apply limitExact_runLoop _ _ parseResult
    intro limit w'
    rfl
  · simp only [collect_eq_map]
    apply limitExact_runLoop _ _ walkResult
    intro limit w'
    rfl

end Humus.Peg
