import Humus.Proofs.Dispatch.Limit
import Mathlib.Data.List.DropRight

/-!
# Records

Whatever is asked of an event loop from outside, and whatever its receivers ask for while they
handle a message, can be written down as a list of events: a message is accepted or dropped,
delivered or discarded, the loop is halted, a run reports. The record alone says what the loop is at
each of these moments. Messages are settled in the order in which they were accepted, and a fault is
reported by the next run, the first one if there are several.

## Main definitions

* `Event`: what happens on a loop, one delivery, effect or report at a time
* `Loop.happen`, `Loop.Allows`: what an event makes of a loop, and when it is possible
* `Call`, `Loop.calls`: calls on a loop from outside, with the record of what happened
* `Event.unreported`: the fault that a record leaves to be reported
* `Loop.advanceEvents`: what happens in a number of deliveries, whether a run makes them or not
* `Loop.noting`: the same receivers, which also note what they receive
* `Loop.ahead`: the same loop, with more deliveries in its past
* `Loop.Reports`: when a run ends, with what, and what becomes of the loop

## Main results

* `Loop.traces_calls`: the record of any calls is possible, and leads to the loop they leave
* `Loop.Account.happen`: every possible event keeps the account of a record
* `Loop.Account.exists_runFrom_fault`: a run comes to the fault that is raised in one of its
  deliveries
* `Loop.runFrom_noting`: the deliveries of the record are what receivers can note
* `Loop.calls_ahead`: past deliveries do not show in what happens later
* `Loop.delivery_discipline`: messages and faults are never lost, doubled or reordered
-/

namespace Humus.Dispatch

variable {σ Msg Fault : Type}

/-- What happens on a loop. -/
inductive Event (Msg Fault : Type) where
  /-- A message was sent, and waits. -/
  | accepted (message : Msg)
  /-- A message was sent to a halted loop. -/
  | dropped (message : Msg)
  /-- The loop was halted, and these messages do not wait any more. -/
  | halted (fault : Fault) (lost : List Msg)
  /-- A message was handed to its receiver. -/
  | delivered (message : Msg)
  /-- A run ended with a fault. -/
  | reported (fault : Fault)
  /-- A run ended at its limit, and these messages do not wait any more. -/
  | cutOff (limit : Nat) (lost : List Msg)
  /-- A run ended after so many deliveries, and nothing waits. -/
  | idle (count : Nat)

namespace Event

/-- The message that an event accepts. -/
def accepts : Event Msg Fault → List Msg
  | accepted message => [message]
  | _ => []

/-- The message that an event hands to its receiver. -/
def handles : Event Msg Fault → List Msg
  | delivered message => [message]
  | _ => []

/-- The messages that an event discards. -/
def discards : Event Msg Fault → List Msg
  | halted _ lost => lost
  | cutOff _ lost => lost
  | _ => []

/-- The fault that an event raises. -/
def raises : Event Msg Fault → Option Fault
  | halted fault _ => some fault
  | _ => none

/-- Whether a run ended with a fault. -/
def reportsFault : Event Msg Fault → Bool
  | reported _ => true
  | _ => false

/-- Whether a run ended. -/
def endsRun : Event Msg Fault → Bool
  | reported _ | cutOff _ _ | idle _ => true
  | _ => false

/-- The end of a run with this result, at which messages may be lost. -/
def ofResult (lost : List Msg) : Except (Stop Fault) Nat → Event Msg Fault
  | .error (.fault fault) => reported fault
  | .error (.limit limit) => cutOff limit lost
  | .ok count => idle count

variable (log : List (Event Msg Fault))

/-- The messages that were accepted, in order. -/
def allAccepted : List Msg := log.flatMap accepts

/-- The messages that were handed to their receivers, in order. -/
def allHandled : List Msg := log.flatMap handles

/-- The messages that were discarded, in order. -/
def allDiscarded : List Msg := log.flatMap discards

/-- The messages that were handled or discarded, in order. -/
def allSettled : List Msg := log.flatMap fun event => event.handles ++ event.discards

/-- The first fault raised since a run last reported one. -/
def unreported : Option Fault :=
  ((log.rtakeWhile fun event => !event.reportsFault).filterMap raises).head?

variable {log} {event : Event Msg Fault}

theorem allAccepted_snoc : allAccepted (log ++ [event]) = allAccepted log ++ event.accepts := by
  simp [allAccepted]

theorem allHandled_snoc : allHandled (log ++ [event]) = allHandled log ++ event.handles := by
  simp [allHandled]

theorem allSettled_snoc :
    allSettled (log ++ [event]) = allSettled log ++ (event.handles ++ event.discards) := by
  simp [allSettled]

theorem allHandled_append (log more : List (Event Msg Fault)) :
    allHandled (log ++ more) = allHandled log ++ allHandled more := by
  simp [allHandled]

theorem unreported_snoc (h : event.reportsFault = false) :
    unreported (log ++ [event]) = (unreported log).or event.raises := by
  unfold unreported
  rw [List.rtakeWhile_concat_pos _ _ _ (by rw [h]; rfl), List.filterMap_append, List.head?_append]
  cases hraises : event.raises <;> simp [hraises]

theorem unreported_reported {fault : Fault} :
    unreported (log ++ [reported fault]) = (none : Option Fault) := by
  unfold unreported
  rw [List.rtakeWhile_concat_neg _ _ _ (by simp [reportsFault])]
  rfl

/-- What was handled is part of what was settled, in the same order. -/
theorem allHandled_sublist (log : List (Event Msg Fault)) :
    (allHandled log).Sublist (allSettled log) := by
  induction log with
  | nil => exact .refl _
  | cons event log ih => exact (List.sublist_append_left _ _).append ih

/-- What was settled was either handled or discarded. -/
theorem length_allSettled (log : List (Event Msg Fault)) :
    (allSettled log).length = (allHandled log).length + (allDiscarded log).length := by
  induction log with
  | nil => rfl
  | cons event log ih =>
    simp only [allSettled, allHandled, allDiscarded, List.flatMap_cons, List.length_append] at ih ⊢
    omega

end Event

open Event

namespace Loop

variable {script : Script σ Msg Fault} {loop now : Loop Msg Fault} {s : σ}
  {event : Event Msg Fault} {past log : List (Event Msg Fault)}

/-! ## The record of a loop -/

/-- What carrying out an effect comes to. -/
def eventOf (loop : Loop Msg Fault) : Effect Msg Fault → Event Msg Fault
  | .send message =>
    match loop.halted with
    | none => .accepted message
    | some _ => .dropped message
  | .halt fault => .halted fault loop.queue.toList

/-- What carrying out some effects comes to. -/
def eventsOf : Loop Msg Fault → List (Effect Msg Fault) → List (Event Msg Fault)
  | _, [] => []
  | loop, effect :: effects => loop.eventOf effect :: (loop.perform effect).eventsOf effects

/-- What happens in one delivery. -/
def stepEvents (script : Script σ Msg Fault) (loop : Loop Msg Fault) (s : σ) :
    List (Event Msg Fault) :=
  match loop.queue.pop? with
  | none => []
  | some (message, queue) =>
    .delivered message ::
      eventsOf { loop with queue, dispatched := loop.dispatched + 1 } (script message s).1

/-- What happens in the next `k` deliveries, or in those that are left if there are fewer. -/
def advanceEvents (script : Script σ Msg Fault) :
    Nat → Loop Msg Fault → σ → List (Event Msg Fault)
  | 0, _, _ => []
  | k + 1, loop, s =>
    match loop.step script s with
    | none => []
    | some (loop', s') => loop.stepEvents script s ++ advanceEvents script k loop' s'

/-- What happens in a run that began after `first` deliveries, or in as many deliveries of it as
`fuel` allows. -/
def runEventsFrom (script : Script σ Msg Fault) (first : Nat) :
    Nat → Loop Msg Fault → σ → List (Event Msg Fault)
  | 0, _, _ => []
  | fuel + 1, loop, s =>
    match loop.halted with
    | some fault => [.reported fault]
    | none =>
      match loop.exceeded first with
      | some limit => [.cutOff limit loop.queue.toList]
      | none =>
        match loop.step script s with
        | none => [.idle (loop.dispatched - first)]
        | some (loop', s') => loop.stepEvents script s ++ runEventsFrom script first fuel loop' s'

/-- What happens in a run. -/
def runEvents (script : Script σ Msg Fault) (fuel : Nat) (loop : Loop Msg Fault) (s : σ) :
    List (Event Msg Fault) :=
  runEventsFrom script loop.dispatched fuel loop s

end Loop

/-- A call on a loop from outside. The receivers may have changed since the call before, so that
each says how it finds them. -/
inductive Call (σ Msg Fault : Type) where
  | send (message : Msg)
  | halt (fault : Fault)
  | step (state : σ)
  | run (fuel : Nat) (state : σ)

namespace Loop

variable {script : Script σ Msg Fault} {loop now : Loop Msg Fault} {s : σ}
  {event : Event Msg Fault} {past log : List (Event Msg Fault)}

/-- Make one call: what happens, and the loop afterwards. There is none behind a run that is not
over. -/
def call (script : Script σ Msg Fault) (loop : Loop Msg Fault) :
    Call σ Msg Fault → List (Event Msg Fault) × Option (Loop Msg Fault)
  | .send message => ([loop.eventOf (.send message)], some (loop.send message))
  | .halt fault => ([loop.eventOf (.halt fault)], some (loop.halt fault))
  | .step s => (loop.stepEvents script s, some (((loop.step script s).map (·.1)).getD loop))
  | .run fuel s => (loop.runEvents script fuel s, (loop.run script fuel s).map (·.2.1))

/-- Make some calls, as far as the runs among them come to an end. -/
def calls (script : Script σ Msg Fault) :
    Loop Msg Fault → List (Call σ Msg Fault) → List (Event Msg Fault) × Option (Loop Msg Fault)
  | loop, [] => ([], some loop)
  | loop, c :: cs =>
    match loop.call script c with
    | (events, none) => (events, none)
    | (events, some next) => (events ++ (next.calls script cs).1, (next.calls script cs).2)

/-! ## What a record says of the loop -/

/-- What an event makes of a loop. -/
def happen (loop : Loop Msg Fault) : Event Msg Fault → Loop Msg Fault
  | .accepted message => { loop with queue := loop.queue.push message }
  | .halted fault _ => loop.halt fault
  | .delivered _ =>
    match loop.queue.pop? with
    | none => loop
    | some (_, queue) => { loop with queue, dispatched := loop.dispatched + 1 }
  | .reported _ => { loop with halted := none }
  | .cutOff _ _ => { loop with queue := .empty }
  | .dropped _ | .idle _ => loop

/-- Which events are possible. -/
inductive Allows (loop : Loop Msg Fault) : Event Msg Fault → Prop
  | accepted {message : Msg} (h : loop.halted = none) : Allows loop (.accepted message)
  | dropped {message : Msg} (h : loop.halted ≠ none) : Allows loop (.dropped message)
  | halted {fault : Fault} : Allows loop (.halted fault loop.queue.toList)
  | delivered {message : Msg} {rest : List Msg} (h : loop.queue.toList = message :: rest) :
      Allows loop (.delivered message)
  | reported {fault : Fault} (h : loop.halted = some fault) : Allows loop (.reported fault)
  | cutOff {limit : Nat} (h : loop.halted = none) (hlimit : loop.limit = some limit) :
      Allows loop (.cutOff limit loop.queue.toList)
  | idle {count : Nat} (h : loop.halted = none) (hrest : loop.queue.toList = []) :
      Allows loop (.idle count)

/-- Possible events, one after the other, that lead from one loop to another. -/
inductive Traces : Loop Msg Fault → List (Event Msg Fault) → Loop Msg Fault → Prop
  | nil {loop : Loop Msg Fault} : Traces loop [] loop
  | cons {loop loop' : Loop Msg Fault} {event : Event Msg Fault} {log : List (Event Msg Fault)}
      (head : loop.Allows event) (tail : Traces (loop.happen event) log loop') :
      Traces loop (event :: log) loop'

variable {loop' loop'' : Loop Msg Fault}

theorem Traces.single (h : loop.Allows event) : Traces loop [event] (loop.happen event) :=
  .cons h .nil

theorem Traces.append {log' : List (Event Msg Fault)} (h : Traces loop log loop')
    (h' : Traces loop' log' loop'') : Traces loop (log ++ log') loop'' := by
  induction h with
  | nil => exact h'
  | cons head _ ih => exact .cons head (ih h')

/-- The record determines the loop. -/
theorem Traces.foldl_happen (h : Traces loop log loop') : log.foldl happen loop = loop' := by
  induction h with
  | nil => rfl
  | cons _ _ ih => exact ih

theorem Traces.of_append {log' : List (Event Msg Fault)} (h : Traces loop (log ++ log') loop') :
    Traces loop log (log.foldl happen loop) ∧ Traces (log.foldl happen loop) log' loop' := by
  induction log generalizing loop with
  | nil => exact ⟨.nil, h⟩
  | cons event log ih =>
    obtain _ | ⟨head, tail⟩ := h
    exact ⟨.cons head (ih tail).1, (ih tail).2⟩

/-- An effect that is carried out is one possible event. -/
theorem traces_perform (effect : Effect Msg Fault) :
    Traces loop [loop.eventOf effect] (loop.perform effect) := by
  cases effect with
  | halt fault => exact .single .halted
  | send message =>
    rcases hhalted : loop.halted with _ | fault
    · have hevent : loop.eventOf (.send message) = .accepted message := by
        simp only [eventOf, hhalted]
      have hloop : loop.perform (.send message) = loop.happen (.accepted message) := by
        simp only [perform, Loop.send, happen, hhalted]
      rw [hevent, hloop]
      exact .single (.accepted hhalted)
    · have hevent : loop.eventOf (.send message) = .dropped message := by
        simp only [eventOf, hhalted]
      have hloop : loop.perform (.send message) = loop.happen (.dropped message) := by
        simp only [perform, Loop.send, happen, hhalted]
      rw [hevent, hloop]
      exact .single (.dropped (hhalted ▸ Option.some_ne_none fault))

theorem traces_foldl_perform (effects : List (Effect Msg Fault)) :
    Traces loop (loop.eventsOf effects) (effects.foldl perform loop) := by
  induction effects generalizing loop with
  | nil => exact .nil
  | cons effect effects ih => exact (traces_perform effect).append ih

/-- A delivery is a possible event, and so is each effect that the receiver asked for. -/
theorem traces_step {s' : σ} (h : loop.step script s = some (loop', s')) :
    Traces loop (loop.stepEvents script s) loop' := by
  rcases hpop : loop.queue.pop? with _ | ⟨message, queue⟩
  · rw [Loop.step, hpop] at h
    cases h
  · rw [Loop.step, hpop] at h
    obtain ⟨rfl, -⟩ := Prod.mk.inj (Option.some.inj h)
    have hdelivered := Traces.single (Allows.delivered (Queue.toList_of_pop? hpop))
    rw [show loop.happen (.delivered message) =
      { loop with queue, dispatched := loop.dispatched + 1 } by simp only [happen, hpop]]
      at hdelivered
    rw [stepEvents, hpop]
    exact hdelivered.append (traces_foldl_perform _)

theorem stepEvents_of_step_eq_none (h : loop.step script s = none) :
    loop.stepEvents script s = [] := by
  rw [step_eq_none_iff, ← Queue.pop?_eq_none_iff] at h
  rw [stepEvents, h]

/-- A run does only what is possible, whether it comes to an end or not. -/
theorem traces_runFrom (script : Script σ Msg Fault) (first fuel : Nat) (loop : Loop Msg Fault)
    (s : σ) :
    ∃ last, Traces loop (runEventsFrom script first fuel loop s) last ∧
      ∀ r, loop.runFrom script first fuel s = some r → r.2.1 = last := by
  induction fuel generalizing loop s with
  | zero => exact ⟨loop, .nil, nofun⟩
  | succ fuel ih =>
    simp only [runEventsFrom, runFrom]
    rcases hhalted : loop.halted with _ | fault
    · rcases hexceeded : loop.exceeded first with _ | limit
      · rcases hstep : loop.step script s with _ | ⟨loop₁, s₁⟩
        · refine ⟨loop, .single (.idle hhalted (step_eq_none_iff.mp hstep)), ?_⟩
          rintro _ ⟨⟩
          rfl
        · obtain ⟨last, htraces, hlast⟩ := ih loop₁ s₁
          exact ⟨last, (traces_step hstep).append htraces, hlast⟩
      · refine ⟨_, .single (.cutOff hhalted (limit_of_exceeded hexceeded)), ?_⟩
        rintro _ ⟨⟩
        simp only [happen, hhalted]
    · refine ⟨_, .single (.reported hhalted), ?_⟩
      rintro _ ⟨⟩
      rfl

theorem traces_call (script : Script σ Msg Fault) (loop : Loop Msg Fault) (c : Call σ Msg Fault) :
    ∃ last, Traces loop (loop.call script c).1 last ∧
      ∀ next, (loop.call script c).2 = some next → next = last := by
  cases c with
  | send message =>
    refine ⟨_, traces_perform (.send message), ?_⟩
    rintro _ ⟨⟩
    rfl
  | halt fault =>
    refine ⟨_, traces_perform (.halt fault), ?_⟩
    rintro _ ⟨⟩
    rfl
  | step s =>
    simp only [call]
    rcases hstep : loop.step script s with _ | ⟨loop₁, s₁⟩
    · rw [stepEvents_of_step_eq_none hstep]
      refine ⟨loop, .nil, ?_⟩
      rintro _ ⟨⟩
      rfl
    · refine ⟨loop₁, traces_step hstep, ?_⟩
      rintro _ ⟨⟩
      rfl
  | run fuel s =>
    obtain ⟨last, htraces, hlast⟩ := traces_runFrom script loop.dispatched fuel loop s
    refine ⟨last, htraces, fun next hnext => ?_⟩
    obtain ⟨r, hr, rfl⟩ := Option.map_eq_some_iff.mp hnext
    exact hlast r hr

/-- **The record of any calls is possible**, and leads to the loop that they leave behind. -/
theorem traces_calls (script : Script σ Msg Fault) (loop : Loop Msg Fault)
    (cs : List (Call σ Msg Fault)) :
    ∃ last, Traces loop (loop.calls script cs).1 last ∧
      ∀ next, (loop.calls script cs).2 = some next → next = last := by
  induction cs generalizing loop with
  | nil =>
    refine ⟨loop, .nil, ?_⟩
    rintro _ ⟨⟩
    rfl
  | cons c cs ih =>
    obtain ⟨last, htraces, hlast⟩ := traces_call script loop c
    simp only [calls]
    rcases hcall : loop.call script c with ⟨events, _ | next⟩
    · rw [hcall] at htraces
      exact ⟨last, htraces, nofun⟩
    · rw [hcall] at htraces hlast
      obtain rfl := hlast next rfl
      obtain ⟨last, hrest, hlast⟩ := ih next
      exact ⟨last, htraces.append hrest, hlast⟩

/-! ## The account of a record -/

/-- What holds of a loop on which `past` has happened. -/
structure Account (past : List (Event Msg Fault)) (now : Loop Msg Fault) : Prop where
  /-- While a loop is halted, nothing waits. -/
  waits : now.halted ≠ none → now.queue.toList = []
  /-- What was accepted was settled in this order, or still waits. -/
  order : allAccepted past = allSettled past ++ now.queue.toList
  /-- The deliveries are counted. -/
  counted : now.dispatched = (allHandled past).length
  /-- The loop keeps the fault that is to be reported. -/
  fault : now.halted = unreported past

theorem account_fresh (limit : Option Nat) : Account [] (fresh limit : Loop Msg Fault) :=
  ⟨fun _ => rfl, rfl, rfl, rfl⟩

/-- An account is kept when the messages that leave the queue are settled, and those that are
accepted wait behind the others. -/
theorem Account.snoc (h : Account past now) {next : Loop Msg Fault}
    (hwaits : next.halted ≠ none → next.queue.toList = [])
    (hqueue : now.queue.toList ++ event.accepts =
      event.handles ++ event.discards ++ next.queue.toList)
    (hcounted : next.dispatched = now.dispatched + event.handles.length)
    (hfault : next.halted = unreported (past ++ [event])) : Account (past ++ [event]) next := by
  refine ⟨hwaits, ?_, ?_, hfault⟩
  · rw [allAccepted_snoc, allSettled_snoc, h.order, List.append_assoc, hqueue]
    simp only [List.append_assoc]
  · rw [allHandled_snoc, List.length_append, ← h.counted, hcounted]

/-- What is to be reported when the event is not itself a report. -/
theorem Account.unreported_snoc (h : Account past now) (hevent : event.reportsFault = false) :
    unreported (past ++ [event]) = now.halted.or event.raises := by
  rw [Event.unreported_snoc hevent, ← h.fault]

/-- **Every possible event keeps the account.** -/
theorem Account.happen (h : Account past now) (hevent : now.Allows event) :
    Account (past ++ [event]) (now.happen event) := by
  cases hevent with
  | accepted hhalted =>
    refine h.snoc (fun hne => absurd hhalted hne) ?_ rfl ?_
    · simp [Loop.happen, accepts, handles, discards]
    · rw [h.unreported_snoc rfl]
      exact (Option.or_none).symm
  | dropped =>
    refine h.snoc h.waits ?_ rfl ?_
    · simp [Loop.happen, accepts, handles, discards]
    · rw [h.unreported_snoc rfl]
      exact (Option.or_none).symm
  | halted =>
    refine h.snoc (fun _ => rfl) ?_ rfl ?_
    · simp [Loop.happen, Loop.halt, accepts, handles, discards]
    · -- the first fault is kept
      rw [h.unreported_snoc rfl]
      cases hhalted : now.halted <;> simp [Loop.happen, Loop.halt, raises, hhalted]
  | @delivered message rest hqueue =>
    obtain ⟨queue, hpop, rfl⟩ := Queue.exists_pop? hqueue
    have hnow : now.happen (.delivered message) =
        { now with queue, dispatched := now.dispatched + 1 } := by
      simp only [Loop.happen, hpop]
    rw [hnow]
    refine h.snoc (fun hne => ?_) ?_ rfl ?_
    · -- nothing is delivered on a halted loop
      rw [h.waits hne] at hqueue
      cases hqueue
    · rw [hqueue]
      exact List.append_nil _
    · rw [h.unreported_snoc rfl]
      exact (Option.or_none).symm
  | reported hhalted =>
    refine h.snoc (fun hne => absurd rfl hne) ?_ rfl unreported_reported.symm
    simp [Loop.happen, accepts, handles, discards]
  | cutOff hhalted =>
    refine h.snoc (fun _ => rfl) ?_ rfl ?_
    · simp [Loop.happen, accepts, handles, discards]
    · rw [h.unreported_snoc rfl]
      exact (Option.or_none).symm
  | idle hhalted hrest =>
    refine h.snoc h.waits ?_ rfl ?_
    · simp [Loop.happen, accepts, handles, discards]
    · rw [h.unreported_snoc rfl]
      exact (Option.or_none).symm

/-- **Possible events keep the account**, one after the other. -/
theorem Account.traces (h : Account past now) (htraces : Traces now log loop') :
    Account (past ++ log) loop' := by
  induction htraces generalizing past with
  | nil => rwa [List.append_nil]
  | cons head _ ih =>
    rw [← List.singleton_append, ← List.append_assoc]
    exact ih (h.happen head)

/-- The account of whole queues, counted. -/
theorem Account.length_allAccepted (h : Account past now) :
    (allAccepted past).length = now.dispatched + now.pending + (allDiscarded past).length := by
  have hsettled := length_allSettled past
  rw [h.order, List.length_append, Queue.length_toList, h.counted, hsettled]
  show _ + now.pending = _
  omega

theorem Account.allHandled_sublist (h : Account past now) :
    (allHandled past).Sublist (allAccepted past) := by
  rw [h.order]
  exact (Event.allHandled_sublist past).trans (List.sublist_append_left _ _)

/-! ## The end of a run -/

/-- What happens because of some effects is what one of them comes to. -/
theorem exists_of_mem_eventsOf {effects : List (Effect Msg Fault)}
    (h : event ∈ loop.eventsOf effects) :
    ∃ (now : Loop Msg Fault) (effect : Effect Msg Fault), event = now.eventOf effect := by
  induction effects generalizing loop with
  | nil => cases h
  | cons effect effects ih =>
    rcases List.mem_cons.mp h with rfl | h
    · exact ⟨loop, effect, rfl⟩
    · exact ih h

/-- An effect ends no run, and nothing is handed to a receiver meanwhile. -/
theorem eventOf_quiet (now : Loop Msg Fault) (effect : Effect Msg Fault) :
    (now.eventOf effect).endsRun = false ∧ (now.eventOf effect).handles = [] := by
  unfold eventOf
  split
  · split <;> exact ⟨rfl, rfl⟩
  · exact ⟨rfl, rfl⟩

/-- A delivery ends no run. -/
theorem endsRun_of_mem_stepEvents (h : event ∈ loop.stepEvents script s) :
    event.endsRun = false := by
  unfold stepEvents at h
  split at h
  · cases h
  · rcases List.mem_cons.mp h with rfl | h
    · rfl
    · obtain ⟨now, effect, rfl⟩ := exists_of_mem_eventsOf h
      exact (eventOf_quiet now effect).1

theorem endsRun_of_mem_advanceEvents {k : Nat} (h : event ∈ loop.advanceEvents script k s) :
    event.endsRun = false := by
  induction k generalizing loop s with
  | zero => cases h
  | succ k ih =>
    unfold advanceEvents at h
    split at h
    · cases h
    · rcases List.mem_append.mp h with h | h
      · exact endsRun_of_mem_stepEvents h
      · exact ih h

theorem advanceEvents_of_step_eq_none (h : loop.step script s = none) (k : Nat) :
    loop.advanceEvents script k s = [] := by
  cases k with
  | zero => rfl
  | succ k => rw [advanceEvents, h]

/-- A run that comes to an end has made some deliveries within its limit, and reports its result as
the last thing that happens. -/
theorem exists_runEventsFrom {first fuel : Nat} {result : Except (Stop Fault) Nat} {s' : σ}
    (hfirst : first ≤ loop.dispatched)
    (h : loop.runFrom script first fuel s = some (result, loop', s')) :
    ∃ k lost, (∀ limit, loop.limit = some limit → k ≤ limit - (loop.dispatched - first)) ∧
      loop.runEventsFrom script first fuel s =
        loop.advanceEvents script k s ++ [.ofResult lost result] := by
  induction fuel generalizing loop s with
  | zero => cases h
  | succ fuel ih =>
    simp only [runFrom] at h
    simp only [runEventsFrom]
    rcases hhalted : loop.halted with _ | fault
    · rw [hhalted] at h
      rcases hexceeded : loop.exceeded first with _ | limit
      · rw [hexceeded] at h
        rcases hstep : loop.step script s with _ | ⟨loop₁, s₁⟩
        · rw [hstep] at h
          cases h
          exact ⟨0, [], fun _ _ => Nat.zero_le _, rfl⟩
        · rw [hstep] at h
          obtain ⟨hwaits, hdispatched, hlimit₁⟩ := dispatched_step hstep
          obtain ⟨k, lost, hk, hevents⟩ := ih (by omega) h
          refine ⟨k + 1, lost, fun limit hlimit => ?_, ?_⟩
          · have hlt := lt_of_exceeded_eq_none hexceeded hwaits hlimit
            have hle := hk limit (hlimit₁.trans hlimit)
            omega
          · simp only [advanceEvents, hstep, hevents, List.append_assoc]
      · rw [hexceeded] at h
        cases h
        exact ⟨0, loop.queue.toList, fun _ _ => Nat.zero_le _, rfl⟩
    · rw [hhalted] at h
      cases h
      exact ⟨0, [], fun _ _ => Nat.zero_le _, rfl⟩

/-- **A run comes to the fault** that is raised before it or in one of its deliveries, when its
limit allows them: there is a result, and it is this one. -/
theorem Account.exists_runFrom_fault (h : Account log loop) {first k : Nat} {fault : Fault}
    (hfirst : first ≤ loop.dispatched)
    (hlimit : ∀ limit, loop.limit = some limit → loop.dispatched - first + k ≤ limit)
    (hfault : unreported (log ++ loop.advanceEvents script k s) = some fault) :
    ∃ loop' s', loop.runFrom script first (k + 1) s = some (.error (.fault fault), loop', s') := by
  -- the account goes along with the deliveries, and says at each of them what is to be reported
  induction k generalizing log loop s with
  | zero =>
    have hhalted : loop.halted = some fault := by
      rwa [advanceEvents, List.append_nil, ← h.fault] at hfault
    exact ⟨_, _, runFrom_of_halted hhalted script s first 0⟩
  | succ k ih =>
    rcases hstep : loop.step script s with _ | ⟨loop₁, s₁⟩
    · have hhalted : loop.halted = some fault := by
        rwa [advanceEvents_of_step_eq_none hstep, List.append_nil, ← h.fault] at hfault
      exact ⟨_, _, runFrom_of_halted hhalted script s first (k + 1)⟩
    · obtain ⟨hwaits, hdispatched, hlimit₁⟩ := dispatched_step hstep
      -- a halted loop has nothing to deliver
      have hhalted : loop.halted = none := by
        by_contra hne
        exact hwaits (h.waits hne)
      have hexceeded : loop.exceeded first = none := by
        apply exceeded_of_lt
        intro limit hloop
        have hle := hlimit limit hloop
        omega
      have hnext : unreported ((log ++ loop.stepEvents script s) ++
          loop₁.advanceEvents script k s₁) = some fault := by
        rwa [advanceEvents, hstep, ← List.append_assoc] at hfault
      obtain ⟨loop', s', hrun⟩ := ih (h.traces (traces_step hstep)) (by omega)
        (fun limit hloop => by
          have hle := hlimit limit (hlimit₁.symm.trans hloop)
          omega) hnext
      exact ⟨loop', s', (runFrom_of_step hhalted hexceeded hstep _).trans hrun⟩

/-- A run reports the fault of the loop, and no other result while there is one. -/
theorem Allows.ofResult_iff {lost : List Msg} {result : Except (Stop Fault) Nat}
    (h : now.Allows (.ofResult lost result)) (fault : Fault) :
    result = .error (.fault fault) ↔ now.halted = some fault := by
  rcases result with (own | limit) | count
  · obtain _ | _ | _ | _ | hhalted := h
    rw [hhalted]
    constructor
    · rintro ⟨⟩
      rfl
    · rintro ⟨⟩
      rfl
  · obtain _ | _ | _ | _ | _ | ⟨hhalted, -⟩ := h
    rw [hhalted]
    constructor <;> nofun
  · obtain _ | _ | _ | _ | _ | _ | ⟨hhalted, -⟩ := h
    rw [hhalted]
    constructor <;> nofun

/-! ## Receivers that note what they receive -/

/-- The same receivers, which also note each message on its receipt. -/
def noting (script : Script σ Msg Fault) : Script (σ × List Msg) Msg Fault := fun message state =>
  ((script message state.1).1, (script message state.1).2, state.2 ++ [message])

theorem step_noting (seen : List Msg) :
    loop.step (noting script) (s, seen) =
      (loop.step script s).map fun next =>
        (next.1, next.2, seen ++ allHandled (loop.stepEvents script s)) := by
  have heffects : ∀ (effects : List (Effect Msg Fault)) (loop : Loop Msg Fault),
      allHandled (loop.eventsOf effects) = [] := by
    intro effects loop
    apply List.flatMap_eq_nil_iff.mpr
    intro event hmem
    obtain ⟨now, effect, rfl⟩ := exists_of_mem_eventsOf hmem
    exact (eventOf_quiet now effect).2
  unfold Loop.step stepEvents
  rcases loop.queue.pop? with _ | ⟨message, queue⟩
  · rfl
  · show some (_, _, seen ++ [message]) =
      some (_, _, seen ++ (message :: allHandled (eventsOf _ _)))
    rw [heffects]

/-- **The deliveries of a record are what the receivers can note**: it leaves none out, and invents
none. -/
theorem runFrom_noting (script : Script σ Msg Fault) (first fuel : Nat) (loop : Loop Msg Fault)
    (s : σ) (seen : List Msg) :
    loop.runFrom (noting script) first fuel (s, seen) =
      (loop.runFrom script first fuel s).map fun r =>
        (r.1, r.2.1, r.2.2, seen ++ allHandled (loop.runEventsFrom script first fuel s)) := by
  induction fuel generalizing loop s seen with
  | zero => rfl
  | succ fuel ih =>
    simp only [runFrom, runEventsFrom]
    rcases loop.halted with _ | fault
    · rcases loop.exceeded first with _ | limit
      · simp only [step_noting]
        rcases loop.step script s with _ | ⟨loop₁, s₁⟩
        · simp [allHandled, handles]
        · simp only [Option.map_some, ih, allHandled_append, List.append_assoc]
      · simp [allHandled, handles]
    · simp [allHandled, handles]

/-! ## Deliveries of the past -/

/-- The same loop, on which `count` more deliveries were made in the past. -/
def ahead (count : Nat) (loop : Loop Msg Fault) : Loop Msg Fault :=
  { loop with dispatched := count + loop.dispatched }

variable {count : Nat}

theorem perform_ahead (effect : Effect Msg Fault) :
    (loop.ahead count).perform effect = (loop.perform effect).ahead count := by
  rcases effect with message | fault
  · obtain ⟨queue, limit, dispatched, _ | fault⟩ := loop <;> rfl
  · rfl

theorem foldl_perform_ahead (effects : List (Effect Msg Fault)) :
    effects.foldl perform (loop.ahead count) = (effects.foldl perform loop).ahead count := by
  induction effects generalizing loop with
  | nil => rfl
  | cons effect effects ih => rw [List.foldl_cons, List.foldl_cons, perform_ahead, ih]

theorem eventsOf_ahead (loop : Loop Msg Fault) (effects : List (Effect Msg Fault)) :
    (loop.ahead count).eventsOf effects = loop.eventsOf effects := by
  induction effects generalizing loop with
  | nil => rfl
  | cons effect effects ih =>
    show _ :: _ = _ :: _
    rw [perform_ahead, ih]
    cases effect <;> rfl

theorem step_ahead (script : Script σ Msg Fault) (s : σ) :
    (loop.ahead count).step script s =
      (loop.step script s).map fun next => (next.1.ahead count, next.2) := by
  have hqueue : (loop.ahead count).queue = loop.queue := rfl
  unfold Loop.step
  rw [hqueue]
  rcases loop.queue.pop? with _ | ⟨message, queue⟩
  · rfl
  · show some (_, _) = some (_, _)
    rw [← foldl_perform_ahead]
    rfl

theorem stepEvents_ahead (script : Script σ Msg Fault) (s : σ) :
    (loop.ahead count).stepEvents script s = loop.stepEvents script s := by
  have hqueue : (loop.ahead count).queue = loop.queue := rfl
  unfold stepEvents
  rw [hqueue]
  rcases loop.queue.pop? with _ | ⟨message, queue⟩
  · rfl
  · exact congrArg (.delivered message :: ·)
      (eventsOf_ahead { loop with queue, dispatched := loop.dispatched + 1 } _)

theorem exceeded_ahead (first : Nat) :
    (loop.ahead count).exceeded (count + first) = loop.exceeded first := by
  simp only [exceeded, ahead, Nat.add_sub_add_left]

variable (count) in
/-- A run goes the same way, with the same record, whatever was delivered before it. -/
theorem runFrom_ahead (script : Script σ Msg Fault) (first fuel : Nat) (loop : Loop Msg Fault)
    (s : σ) :
    (loop.ahead count).runFrom script (count + first) fuel s =
        (loop.runFrom script first fuel s).map (fun r => (r.1, r.2.1.ahead count, r.2.2)) ∧
      (loop.ahead count).runEventsFrom script (count + first) fuel s =
        loop.runEventsFrom script first fuel s := by
  induction fuel generalizing loop s with
  | zero => exact ⟨rfl, rfl⟩
  | succ fuel ih =>
    have hhalted : (loop.ahead count).halted = loop.halted := rfl
    have hdispatched : (loop.ahead count).dispatched - (count + first) = loop.dispatched - first :=
      Nat.add_sub_add_left _ _ _
    simp only [runFrom, runEventsFrom, hhalted, exceeded_ahead, step_ahead, stepEvents_ahead,
      hdispatched]
    rcases loop.halted with _ | fault
    · rcases loop.exceeded first with _ | limit
      · rcases loop.step script s with _ | ⟨loop₁, s₁⟩
        · exact ⟨rfl, rfl⟩
        · obtain ⟨hrun, hevents⟩ := ih loop₁ s₁
          simp only [Option.map_some, hrun, hevents, and_self]
      · exact ⟨rfl, rfl⟩
    · exact ⟨rfl, rfl⟩

theorem call_ahead (script : Script σ Msg Fault) (loop : Loop Msg Fault) (c : Call σ Msg Fault) :
    (loop.ahead count).call script c =
      ((loop.call script c).1, (loop.call script c).2.map (ahead count)) := by
  cases c with
  | send message =>
    simp only [call, Option.map_some]
    exact congrArg (fun next => ([loop.eventOf (.send message)], some next))
      (perform_ahead (.send message))
  | halt fault => rfl
  | step s =>
    simp only [call, stepEvents_ahead, step_ahead, Option.map_some]
    cases loop.step script s <;> rfl
  | run fuel s =>
    obtain ⟨hrun, hevents⟩ := runFrom_ahead count script loop.dispatched fuel loop s
    simp only [call, run, runEvents]
    rw [show (loop.ahead count).dispatched = count + loop.dispatched from rfl, hrun, hevents,
      Option.map_map, Option.map_map]
    rfl

/-- **Past deliveries do not show** in what happens later. -/
theorem calls_ahead (script : Script σ Msg Fault) (loop : Loop Msg Fault)
    (cs : List (Call σ Msg Fault)) :
    (loop.ahead count).calls script cs =
      ((loop.calls script cs).1, (loop.calls script cs).2.map (ahead count)) := by
  induction cs generalizing loop with
  | nil => rfl
  | cons c cs ih =>
    simp only [calls, call_ahead]
    rcases loop.call script c with ⟨events, _ | next⟩
    · rfl
    · simp only [Option.map_some, ih]

theorem Traces.limit_eq (h : Traces loop log loop') : loop'.limit = loop.limit := by
  induction h with
  | nil => rfl
  | @cons loop _ event _ _ _ ih =>
    rw [ih]
    cases event with
    | delivered =>
      simp only [Loop.happen]
      split <;> rfl
    | _ => rfl

/-- A loop on which nothing waits and no fault is to be reported is a fresh one with a past. -/
theorem Rests.eq_ahead (h : loop.Rests none) :
    loop = (fresh loop.limit).ahead loop.dispatched := by
  obtain ⟨⟨_ | ⟨m, front⟩, back⟩, limit, dispatched, halted⟩ := loop
  · obtain ⟨hqueue, rfl⟩ := h
    obtain rfl : back = [] := List.reverse_eq_nil_iff.mp hqueue
    rfl
  · cases h.toList_queue

/-! ## The discipline of delivery -/

/-- What a run reports at its end, and the loop that it leaves behind a fault. -/
theorem Account.exists_runEvents (h : Account log loop) {fuel : Nat}
    {result : Except (Stop Fault) Nat} {s' : σ}
    (hrun : loop.run script fuel s = some (result, loop', s')) :
    ∃ k lost, (∀ limit, loop.limit = some limit → k ≤ limit) ∧
      loop.runEvents script fuel s = loop.advanceEvents script k s ++ [.ofResult lost result] ∧
      ∀ fault,
        (result = .error (.fault fault) ↔
          unreported (log ++ loop.advanceEvents script k s) = some fault) ∧
        (result = .error (.fault fault) → loop' = (fresh loop.limit).ahead loop'.dispatched) := by
  obtain ⟨k, lost, hk, hevents⟩ := exists_runEventsFrom (Nat.le_refl _) hrun
  obtain ⟨last, htraces, hlast⟩ := traces_runFrom script loop.dispatched fuel loop s
  obtain rfl : loop' = last := hlast _ hrun
  rw [hevents] at htraces
  -- the account is taken right before the report
  obtain ⟨hmeanwhile, hreport⟩ := htraces.of_append
  have haccount := h.traces hmeanwhile
  obtain _ | ⟨hallows, hnil⟩ := hreport
  refine ⟨k, lost, fun limit hlimit => ?_, hevents, fun fault => ⟨?_, ?_⟩⟩
  · have hle := hk limit hlimit
    omega
  · rw [hallows.ofResult_iff, haccount.fault]
  · rintro rfl
    have hhalted := (hallows.ofResult_iff fault).mp rfl
    have hempty := haccount.waits (by rw [hhalted]; nofun)
    obtain rfl := hnil.foldl_happen
    rw [← htraces.limit_eq]
    exact Rests.eq_ahead ⟨hempty, rfl⟩

/-- How the runs end of a loop on which `log` has happened, with receivers in state `s`. -/
structure Reports (script : Script σ Msg Fault) (log : List (Event Msg Fault))
    (loop : Loop Msg Fault) (s : σ) : Prop where
  /-- A run comes to a fault if and only if the fault is to be reported, before the run or after
  some of the deliveries that its limit allows. -/
  fault_iff (fault : Fault) :
    Terminates (fun fuel => loop.run script fuel s) (fun r => r.1 = .error (.fault fault)) ↔
      ∃ k, (∀ limit, loop.limit = some limit → k ≤ limit) ∧
        unreported (log ++ loop.advanceEvents script k s) = some fault
  /-- A fault that is to be reported before the run is reported at once. -/
  at_once {fault : Fault} (h : unreported log = some fault) (fuel : Nat) :
    loop.run script (fuel + 1) s = some (.error (.fault fault), { loop with halted := none }, s)
  /-- A run comes to an end, unless it has no limit and nothing stops the loop. -/
  ends_iff :
    Terminates (fun fuel => loop.run script fuel s) (fun _ => True) ↔
      (loop.limit = none → ∃ d, loop.StopsAfter script s d)
  /-- What happens in a run that comes to an end is what happens in some deliveries within its
  limit, and then the report. It is a fault if and only if one is to be reported, and that one. -/
  record {fuel : Nat} {result : Except (Stop Fault) Nat} {loop' : Loop Msg Fault} {s' : σ}
    (h : loop.run script fuel s = some (result, loop', s')) :
    ∃ k lost, (∀ limit, loop.limit = some limit → k ≤ limit) ∧
      loop.runEvents script fuel s = loop.advanceEvents script k s ++ [.ofResult lost result] ∧
      (∀ event ∈ loop.advanceEvents script k s, event.endsRun = false) ∧
      ∀ fault, result = .error (.fault fault) ↔
        unreported (log ++ loop.advanceEvents script k s) = some fault
  /-- From the report of a fault on, calls have the record that they have on a fresh loop. -/
  afresh {fuel : Nat} {fault : Fault} {loop' : Loop Msg Fault} {s' : σ}
    (h : loop.run script fuel s = some (.error (.fault fault), loop', s'))
    (more : List (Call σ Msg Fault)) :
    loop'.calls script more =
      (((fresh loop.limit).calls script more).1,
        ((fresh loop.limit).calls script more).2.map (ahead loop'.dispatched))
  /-- What the record says was delivered is what the receivers note. -/
  noted (fuel : Nat) (seen : List Msg) :
    loop.run (noting script) fuel (s, seen) =
      (loop.run script fuel s).map fun r =>
        (r.1, r.2.1, r.2.2, seen ++ allHandled (loop.runEvents script fuel s))

/-- **A loop reports what its record says.** -/
theorem Account.reports (h : Account log loop) (script : Script σ Msg Fault) (s : σ) :
    Reports script log loop s where
  fault_iff fault := by
    constructor
    · rintro ⟨⟨_, loop', s'⟩, rfl, N, hrun⟩
      obtain ⟨k, -, hk, -, hfault⟩ := h.exists_runEvents (hrun N (Nat.le_refl N))
      exact ⟨k, hk, (hfault fault).1.mp rfl⟩
    · rintro ⟨k, hk, hfault⟩
      have hlimit : ∀ limit, loop.limit = some limit →
          loop.dispatched - loop.dispatched + k ≤ limit := by
        intro limit hloop
        have hle := hk limit hloop
        omega
      obtain ⟨loop', s', hrun⟩ := h.exists_runFrom_fault (Nat.le_refl _) hlimit hfault
      exact (runFrom_mono script loop.dispatched loop s).terminates hrun rfl
  at_once := by
    intro fault hfault fuel
    apply runFrom_of_halted
    rw [h.fault, hfault]
  ends_iff := terminates_run_iff script loop s
  record := by
    intro fuel result loop' s' hrun
    obtain ⟨k, lost, hk, hevents, hfault⟩ := h.exists_runEvents hrun
    refine ⟨k, lost, hk, hevents, ?_, fun fault => (hfault fault).1⟩
    intro event hmem
    exact endsRun_of_mem_advanceEvents hmem
  afresh := by
    intro fuel fault loop' s' hrun more
    obtain ⟨k, lost, -, -, hfault⟩ := h.exists_runEvents hrun
    rw [(hfault fault).2 rfl]
    exact calls_ahead script (fresh loop.limit) more
  noted fuel seen := runFrom_noting script loop.dispatched fuel loop s seen

/-- **Messages and faults are never lost, doubled or reordered**, whatever calls are made on a loop
and whatever its receivers do. At each moment of the record, while the loop is halted, nothing
waits; what was accepted has been handled or discarded in the order of acceptance, or still waits;
and every accepted message is counted once. Each event is one that the loop allows at that moment:
messages are accepted while it is not halted, and discarded by a halt or a limit only. A run, given
enough fuel, reports a fault if and only if one was raised since the last report, and it reports the
first. From then on the calls have the record that they have on a fresh loop. -/
theorem delivery_discipline (script : Script σ Msg Fault) (limit : Option Nat)
    (cs : List (Call σ Msg Fault)) (log : List (Event Msg Fault)) (last : Option (Loop Msg Fault))
    (hcalls : (fresh limit).calls script cs = (log, last)) :
    (∀ past later, log = past ++ later →
      let now := past.foldl happen (fresh limit)
      (now.halted ≠ none → now.pending = 0) ∧
      allAccepted past = allSettled past ++ now.queue.toList ∧
      (allHandled past).Sublist (allAccepted past) ∧
      (allAccepted past).length = now.dispatched + now.pending + (allDiscarded past).length ∧
      ∀ event ∈ later.head?, now.Allows event) ∧
    ∀ loop, last = some loop →
      log.foldl happen (fresh limit) = loop ∧ loop.limit = limit ∧
      ∀ s, Reports script log loop s := by
  obtain ⟨reached, htraces, hreached⟩ := traces_calls script (fresh limit) cs
  rw [hcalls] at htraces hreached
  constructor
  · rintro past later rfl
    obtain ⟨hpast, hlater⟩ := htraces.of_append
    have haccount := (account_fresh limit).traces hpast
    rw [List.nil_append] at haccount
    refine ⟨fun hne => ?_, haccount.order, haccount.allHandled_sublist,
      haccount.length_allAccepted, fun event hevent => ?_⟩
    · rw [Loop.pending, ← Queue.length_toList, haccount.waits hne, List.length_nil]
    · obtain _ | ⟨head, -⟩ := hlater
      · cases hevent
      · obtain rfl := Option.some.inj hevent
        exact head
  · rintro loop rfl
    obtain rfl := hreached loop rfl
    have haccount := (account_fresh limit).traces htraces
    rw [List.nil_append] at haccount
    exact ⟨htraces.foldl_happen, htraces.limit_eq, haccount.reports script⟩

/-- Receivers of numbers: 0 is taken, 1 sends 0 and 2, and 2 halts the loop twice. -/
def bounce : Script Unit Nat String := fun message s =>
  match message with
  | 0 => ([], s)
  | 1 => ([.send 0, .send 2], s)
  | _ => ([.halt "first", .send 0, .halt "second"], s)

/-- The discipline of a loop that a receiver halts in the third and last delivery of a run: the run
ends, it reports the first fault, and the loop accepts and delivers again. -/
theorem delivery_discipline_bounce :
    ∃ log loop,
      (fresh (some 3)).calls bounce [.send 1, .send 0, .step ()] = (log, some loop) ∧
      (allHandled log, allAccepted log) = ([1], [1, 0, 0, 2]) ∧
      Terminates (fun fuel => loop.run bounce fuel ()) (fun r => r.1 = .error (.fault "first")) ∧
      ∃ loop', loop.run bounce 4 () = some (.error (.fault "first"), loop', ()) ∧
        (loop'.calls bounce [.send 0, .step ()]).1 = [.accepted 0, .delivered 0] := by
  obtain ⟨-, hloop⟩ := delivery_discipline bounce (some 3) [.send 1, .send 0, .step ()] _ _ rfl
  have hreports := (hloop _ rfl).2.2 ()
  have hends := (hreports.fault_iff "first").mpr ⟨3, fun _ h => (Option.some.inj h).le, rfl⟩
  have hafresh := hreports.afresh
    (rfl : Loop.run bounce 4 _ () = some (.error (.fault "first"), _, ()))
  refine ⟨_, _, rfl, rfl, hends, _, rfl, ?_⟩
  rw [hafresh]
  rfl

end Loop

end Humus.Dispatch
