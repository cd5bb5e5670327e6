import Humus.Proofs.Dispatch.Thread

/-!
# Going idle

A loop without a limit on which any number of messages wait delivers them in the order in which they
were sent, and whatever is sent meanwhile after them, until none waits. A run that goes idle is a
list of deliveries, each of a message to the state at that time.

## Main definitions

* `Idles script q s es s'`: from the waiting messages `q` and the state `s`, the deliveries `es`
  lead to idleness in the state `s'`
* `Loop.Queued loop q`: the messages `q` wait, and nothing stops the loop

## Main results

* `exists_idles`: a loop goes idle if every delivery decreases a measure
* `Idles.exists_runFrom`: what leads to idleness is run to its end
* `Loop.Queued.exists_idles`: a run that goes idle consists of deliveries
-/

namespace Humus.Dispatch

variable {σ Msg Fault : Type}

/-- From the messages `q` that wait and the state `s`, the deliveries `es` lead to idleness in the
state `s'`. Each delivery is listed with the state that it finds. -/
inductive Idles (script : Script σ Msg Fault) : List Msg → σ → List (Msg × σ) → σ → Prop where
  | idle {s} : Idles script [] s [] s
  | deliver {m q s ms s₁ es s'} : script m s = (ms.map .send, s₁) →
      Idles script (q ++ ms) s₁ es s' → Idles script (m :: q) s ((m, s) :: es) s'

variable {script : Script σ Msg Fault} {q ms : List Msg} {m : Msg} {s s' : σ}
  {es : List (Msg × σ)}

/-- **A loop goes idle** if every delivery sends messages only, keeps `I`, and decreases the number
that `I` speaks of. -/
theorem exists_idles {I : Nat → List Msg → σ → Prop} {n : Nat}
    (hstep : ∀ n m q s, I n (m :: q) s →
      ∃ ms s' k, script m s = (ms.map .send, s') ∧ k < n ∧ I k (q ++ ms) s')
    (h : I n q s) : ∃ es s' k, Idles script q s es s' ∧ I k [] s' := by
  induction n using Nat.strongRecOn generalizing q s with
  | ind n ih =>
    cases q with
    | nil => exact ⟨[], s, n, .idle, h⟩
    | cons m q =>
      obtain ⟨ms, s₁, k, hscript, hlt, hk⟩ := hstep n m q s h
      obtain ⟨es, s', k', hidles, hk'⟩ := ih k hlt hk
      exact ⟨(m, s) :: es, s', k', .deliver hscript hidles, hk'⟩

/-- What an event asks for is messages, unless a halt is among it. -/
theorem eq_map_send_or_halt (effects : List (Effect Msg Fault)) :
    (∃ ms : List Msg, effects = ms.map .send) ∨ ∃ f, .halt f ∈ effects := by
  induction effects with
  | nil => exact .inl ⟨[], rfl⟩
  | cons effect effects ih =>
    cases effect with
    | halt f => exact .inr ⟨f, List.mem_cons_self⟩
    | send m =>
      rcases ih with ⟨ms, rfl⟩ | ⟨f, hf⟩
      · exact .inl ⟨m :: ms, rfl⟩
      · exact .inr ⟨f, List.mem_cons_of_mem _ hf⟩

theorem eq_of_map_send {ms ms' : List Msg}
    (h : ms.map (Effect.send : Msg → Effect Msg Fault) = ms'.map .send) : ms = ms' :=
  (List.map_inj_right fun _ _ h => Effect.send.inj h).mp h

namespace Loop

variable {loop : Loop Msg Fault} {first : Nat}

/-- The messages `q` wait, in this order, and nothing stops the loop. -/
structure Queued (loop : Loop Msg Fault) (q : List Msg) : Prop where
  toList_queue : loop.queue.toList = q
  not_halted : loop.halted = none
  no_limit : loop.limit = none

theorem Queued.send (h : loop.Queued q) (m : Msg) : (loop.send m).Queued (q ++ [m]) := by
  have hsend : loop.send m = { loop with queue := loop.queue.push m } := by
    rw [Loop.send, h.not_halted]
  rw [hsend]
  exact ⟨by rw [Queue.toList_push, h.toList_queue], h.not_halted, h.no_limit⟩

theorem Queued.foldl_send (h : loop.Queued q) (ms : List Msg) :
    (ms.foldl Loop.send loop).Queued (q ++ ms) := by
  induction ms generalizing loop q with
  | nil => rwa [List.append_nil]
  | cons m ms ih =>
    rw [List.append_cons]
    exact ih (h.send m)

/-- A new loop on which first messages were sent. -/
theorem queued_fresh (ms : List Msg) :
    (ms.foldl Loop.send (fresh none : Loop Msg Fault)).Queued ms :=
  Queued.foldl_send ⟨rfl, rfl, rfl⟩ ms

theorem foldl_perform_send (ms : List Msg) (loop : Loop Msg Fault) :
    (ms.map Effect.send).foldl perform loop = ms.foldl Loop.send loop := by
  rw [List.foldl_map]
  rfl

/-- A loop that is halted stays so. -/
theorem halted_foldl_perform {effects : List (Effect Msg Fault)}
    (h : loop.halted.isSome ∨ ∃ f, .halt f ∈ effects) :
    (effects.foldl perform loop).halted.isSome := by
  induction effects generalizing loop with
  | nil =>
    rcases h with h | ⟨f, hf⟩
    · exact h
    · cases hf
  | cons effect effects ih =>
    refine ih ?_
    cases effect with
    | halt f => exact .inl rfl
    | send m =>
      rcases h with h | ⟨f, hf⟩
      · left
        simp only [perform, Loop.send]
        split
        · exact h
        · exact h
      · rcases List.mem_cons.mp hf with hf | hf
        · cases hf
        · exact .inr ⟨f, hf⟩

theorem Queued.exceeded (h : loop.Queued q) (first : Nat) : loop.exceeded first = none := by
  rw [Loop.exceeded, h.no_limit]

variable (script) in
/-- The delivery of the next of the messages that wait. -/
theorem Queued.step (h : loop.Queued (m :: q)) (s : σ) :
    ∃ rest : Loop Msg Fault, rest.Queued q ∧
      loop.step script s = some ((script m s).1.foldl perform rest, (script m s).2) := by
  obtain ⟨queue, hpop, hqueue⟩ := Queue.exists_pop? h.toList_queue
  refine ⟨{ loop with queue, dispatched := loop.dispatched + 1 },
    ⟨hqueue, h.not_halted, h.no_limit⟩, ?_⟩
  rw [Loop.step, hpop]

variable (script) in
/-- A run on which nothing waits is over. -/
theorem Queued.runFrom_nil (h : loop.Queued []) (first fuel : Nat) (s : σ) :
    loop.runFrom script first (fuel + 1) s = some (.ok (loop.dispatched - first), loop, s) := by
  have hstep : loop.step script s = none := Loop.step_eq_none_iff.mpr h.toList_queue
  simp only [Loop.runFrom, h.not_halted, h.exceeded, hstep]

variable (script) in
/-- A run delivers the next message first. -/
theorem Queued.runFrom_cons (h : loop.Queued (m :: q)) (s : σ) :
    ∃ rest : Loop Msg Fault, rest.Queued q ∧ ∀ first fuel,
      loop.runFrom script first (fuel + 1) s =
        ((script m s).1.foldl perform rest).runFrom script first fuel (script m s).2 := by
  obtain ⟨rest, hrest, hstep⟩ := h.step script s
  refine ⟨rest, hrest, fun first fuel => ?_⟩
  simp only [Loop.runFrom, h.not_halted, h.exceeded, hstep]

/-- **A run that goes idle consists of deliveries.** -/
theorem Queued.exists_idles (h : loop.Queued q) {fuel n : Nat} {loop' : Loop Msg Fault}
    (hrun : loop.runFrom script first fuel s = some (.ok n, loop', s')) :
    loop'.Queued [] ∧ ∃ es, Idles script q s es s' := by
  induction fuel generalizing loop q s with
  | zero => cases hrun
  | succ fuel ih =>
    cases q with
    | nil =>
      rw [h.runFrom_nil] at hrun
      cases hrun
      exact ⟨h, [], .idle⟩
    | cons m q =>
      obtain ⟨rest, hrest, hcons⟩ := h.runFrom_cons script s
      rw [hcons] at hrun
      -- what sends only is a step on the way to an idle loop
      rcases eq_map_send_or_halt (script m s).1 with ⟨ms, hms⟩ | ⟨f, hf⟩
      · rw [hms, foldl_perform_send] at hrun
        obtain ⟨hloop', es, hidles⟩ := ih (hrest.foldl_send ms) hrun
        exact ⟨hloop', _, .deliver (Prod.ext hms rfl) hidles⟩
      · -- a halted loop reports its fault
        have hhalted : ((script m s).1.foldl perform rest).halted.isSome :=
          halted_foldl_perform (.inr ⟨f, hf⟩)
        obtain ⟨g, hg⟩ := Option.isSome_iff_exists.mp hhalted
        cases fuel with
        | zero => cases hrun
        | succ fuel =>
          simp only [Loop.runFrom, hg] at hrun
          cases hrun

end Loop

/-- **What leads to idleness is run to its end.** -/
theorem Idles.exists_runFrom (h : Idles script q s es s') {loop : Loop Msg Fault}
    (hloop : loop.Queued q) (first : Nat) :
    ∃ N n loop', loop'.Queued [] ∧
      ∀ fuel, N ≤ fuel → loop.runFrom script first fuel s = some (.ok n, loop', s') := by
  induction h generalizing loop with
  | @idle s =>
    refine ⟨1, loop.dispatched - first, loop, hloop, fun fuel hle => ?_⟩
    obtain ⟨fuel, rfl⟩ : ∃ k, fuel = k + 1 := ⟨fuel - 1, by omega⟩
    exact hloop.runFrom_nil script first fuel s
  | @deliver m q s ms s₁ es s' hscript _ ih =>
    obtain ⟨rest, hrest, hcons⟩ := hloop.runFrom_cons script s
    rw [hscript, Loop.foldl_perform_send] at hcons
    obtain ⟨N, n, loop', hloop', hN⟩ := ih (hrest.foldl_send ms)
    -- one delivery more than the rest takes
    refine ⟨N + 1, n, loop', hloop', fun fuel hle => ?_⟩
    obtain ⟨fuel, rfl⟩ : ∃ k, fuel = k + 1 := ⟨fuel - 1, by omega⟩
    rw [hcons]
    exact hN fuel (by omega)

/-- A new loop on which these messages were sent is run to idleness. -/
theorem Idles.exists_run (h : Idles script q s es s') :
    ∃ N n loop', loop'.Queued [] ∧ ∀ fuel, N ≤ fuel →
      (q.foldl Loop.send (Loop.fresh none)).run script fuel s = some (.ok n, loop', s') :=
  h.exists_runFrom (Loop.queued_fresh q) _

end Humus.Dispatch
