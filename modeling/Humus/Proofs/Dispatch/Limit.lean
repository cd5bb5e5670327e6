import Humus.Proofs.Dispatch.Fuel
import Humus.Proofs.Dispatch.Thread
import Mathlib.Tactic.ByContra

/-!
# Limits

A limit cuts a run off before the delivery that would exceed it, and changes nothing else. How many
deliveries a run makes is said of single steps, without a run: the loop is busy before each of them,
and it is halted or idle after the last. A loop that is never halted nor idle stops after no number
of deliveries.

## Main definitions

* `Loop.Busy loop`: a message waits and the loop is not halted
* `Loop.StopsAfter script loop s d`: left alone, the loop makes `d` deliveries
* `LimitExact stops run cut`: `run` under each limit, given after how many deliveries it stops

## Main results

* `Loop.runFrom_advance`: a run that is not cut off goes on from any of its deliveries
* `Loop.runFrom_withLimit_none`: a run that goes idle does so without the limit
* `Loop.limitExact_run`: the limit of a run is exact
* `Loop.terminates_run_iff`: a run ends unless nothing limits it and nothing stops the loop
* `LimitExact.map`: so is that of whatever is read off the run
-/

namespace Humus.Dispatch

variable {σ Msg Fault α β : Type}

/-- How `run limit` stops, given after how many deliveries it stops when it has no limit. A limit
that is not exceeded does not show in the result; one that is exceeded leads to a result that is
`cut` at it. -/
structure LimitExact (stops : Nat → Prop) (run : Option Nat → Nat → Option α)
    (cut : Nat → α → Prop) : Prop where
  stopped : ∀ d, stops d → ∃ a, Terminates (run none) (· = a) ∧
    ∀ limit, (d ≤ limit → Terminates (run (some limit)) (· = a)) ∧
      (limit < d → Terminates (run (some limit)) (cut limit))
  endless : (∀ d, ¬ stops d) → (∀ fuel, run none fuel = none) ∧
    ∀ limit, Terminates (run (some limit)) (cut limit)

theorem FuelMonotone.map {run : Nat → Option α} (h : FuelMonotone run) (f : α → β) :
    FuelMonotone fun fuel => (run fuel).map f := by
  intro fuel fuel' result hle hresult
  rw [Option.map_eq_some_iff] at hresult ⊢
  obtain ⟨a, ha, hf⟩ := hresult
  exact ⟨a, h fuel fuel' a hle ha, hf⟩

theorem Terminates.map {run : Nat → Option α} {P : α → Prop} {Q : β → Prop} (f : α → β)
    (h : Terminates run P) (hPQ : ∀ a, P a → Q (f a)) :
    Terminates (fun fuel => (run fuel).map f) Q := by
  obtain ⟨a, ha, N, hrun⟩ := h
  refine ⟨f a, hPQ a ha, N, fun fuel hle => ?_⟩
  show (run fuel).map f = some (f a)
  rw [hrun fuel hle, Option.map_some]

/-- A limit that is exact for a run is exact for whatever is read off it. -/
theorem LimitExact.map {stops : Nat → Prop} {run : Option Nat → Nat → Option α}
    {cut : Nat → α → Prop} {cut' : Nat → β → Prop} (h : LimitExact stops run cut) (f : α → β)
    (hcut : ∀ limit a, cut limit a → cut' limit (f a)) :
    LimitExact stops (fun limit fuel => (run limit fuel).map f) cut' := by
  constructor
  · intro d hd
    obtain ⟨a, hnone, hlimit⟩ := h.stopped d hd
    refine ⟨f a, hnone.map f fun b hb => congrArg f hb, fun limit => ⟨fun hle => ?_, fun hlt => ?_⟩⟩
    · exact ((hlimit limit).1 hle).map f fun b hb => congrArg f hb
    · exact ((hlimit limit).2 hlt).map f fun b => hcut limit b
  · intro hd
    obtain ⟨hnone, hlimit⟩ := h.endless hd
    refine ⟨fun fuel => ?_, fun limit => (hlimit limit).map f fun b => hcut limit b⟩
    show (run none fuel).map f = none
    rw [hnone fuel, Option.map_none]

/-- A limit leaves the result of a run as it is, or it cuts the run off. -/
theorem LimitExact.same_or_cut {stops : Nat → Prop} {run : Option Nat → Nat → Option α}
    {cut : Nat → α → Prop} (h : LimitExact stops run cut) {a : α}
    (ha : Terminates (run none) (· = a)) (limit : Nat) :
    Terminates (run (some limit)) (· = a) ∨ Terminates (run (some limit)) (cut limit) := by
  by_cases hstops : ∃ d, stops d
  · obtain ⟨d, hd⟩ := hstops
    obtain ⟨b, hb, hlimit⟩ := h.stopped d hd
    obtain ⟨_, rfl, rfl⟩ := ha.exists_and hb
    rcases Nat.lt_or_ge limit d with hlt | hle
    · exact .inr ((hlimit limit).2 hlt)
    · exact .inl ((hlimit limit).1 hle)
  · exact .inr ((h.endless (not_exists.mp hstops)).2 limit)

namespace Loop

variable {script : Script σ Msg Fault} {loop : Loop Msg Fault} {s : σ}

/-- A message waits and the loop is not halted, so that a run without a limit goes on. -/
structure Busy (loop : Loop Msg Fault) : Prop where
  waits : loop.queue.toList ≠ []
  not_halted : loop.halted = none

variable (script) in
/-- Left alone, the loop makes `d` deliveries and is then halted or idle. -/
def StopsAfter (loop : Loop Msg Fault) (s : σ) (d : Nat) : Prop :=
  (∀ k, k < d → (advance script k loop s).1.Busy) ∧ ¬ (advance script d loop s).1.Busy

/-- The same loop under another limit. -/
def withLimit (loop : Loop Msg Fault) (limit : Option Nat) : Loop Msg Fault :=
  { loop with limit }

@[simp] theorem busy_withLimit {limit : Option Nat} : (loop.withLimit limit).Busy ↔ loop.Busy :=
  ⟨fun h => ⟨h.waits, h.not_halted⟩, fun h => ⟨h.waits, h.not_halted⟩⟩

/-! ## Steps -/

theorem perform_withLimit (limit : Option Nat) (effect : Effect Msg Fault) :
    (loop.withLimit limit).perform effect = (loop.perform effect).withLimit limit := by
  rcases effect with message | fault
  · obtain ⟨queue, own, dispatched, _ | fault⟩ := loop <;> rfl
  · rfl

theorem foldl_perform_withLimit (limit : Option Nat) (effects : List (Effect Msg Fault)) :
    effects.foldl perform (loop.withLimit limit) =
      (effects.foldl perform loop).withLimit limit := by
  induction effects generalizing loop with
  | nil => rfl
  | cons effect effects ih => rw [List.foldl_cons, List.foldl_cons, perform_withLimit, ih]

theorem step_withLimit (limit : Option Nat) :
    (loop.withLimit limit).step script s =
      (loop.step script s).map fun next => (next.1.withLimit limit, next.2) := by
  have hqueue : (loop.withLimit limit).queue = loop.queue := rfl
  unfold Loop.step
  rw [hqueue]
  rcases loop.queue.pop? with _ | ⟨message, queue⟩
  · rfl
  · show some (_, _) = some (_, _)
    rw [← foldl_perform_withLimit]
    rfl

/-- No limit changes what single steps do. -/
theorem advance_withLimit (limit : Option Nat) (k : Nat) :
    advance script k (loop.withLimit limit) s =
      ((advance script k loop s).1.withLimit limit, (advance script k loop s).2) := by
  induction k generalizing loop s with
  | zero => rfl
  | succ k ih =>
    unfold advance
    rw [step_withLimit]
    rcases loop.step script s with _ | ⟨loop₁, s₁⟩
    · rfl
    · exact ih

theorem dispatched_foldl_perform (effects : List (Effect Msg Fault)) :
    (effects.foldl perform loop).dispatched = loop.dispatched := by
  induction effects generalizing loop with
  | nil => rfl
  | cons effect effects ih =>
    rw [List.foldl_cons, ih]
    rcases effect with message | fault
    · show (loop.send message).dispatched = loop.dispatched
      unfold Loop.send
      split <;> rfl
    · rfl

/-- What is delivered has waited. A delivery counts, and leaves the limit as it is. -/
theorem dispatched_step {loop₁ : Loop Msg Fault} {s₁ : σ}
    (h : loop.step script s = some (loop₁, s₁)) :
    loop.queue.toList ≠ [] ∧ loop₁.dispatched = loop.dispatched + 1 ∧
      loop₁.limit = loop.limit := by
  rcases hpop : loop.queue.pop? with _ | ⟨message, queue⟩
  · rw [Loop.step, hpop] at h
    cases h
  · rw [Loop.step, hpop] at h
    obtain ⟨rfl, -⟩ := Prod.mk.inj (Option.some.inj h)
    refine ⟨?_, dispatched_foldl_perform _, limit_foldl_perform _ _⟩
    rw [Queue.toList_of_pop? hpop]
    exact List.cons_ne_nil _ _

variable (script s) in
/-- A busy loop makes a delivery. -/
theorem Busy.step (h : loop.Busy) :
    ∃ loop₁ s₁, loop.step script s = some (loop₁, s₁) ∧
      loop₁.dispatched = loop.dispatched + 1 ∧ loop₁.limit = loop.limit := by
  rcases hstep : loop.step script s with _ | ⟨loop₁, s₁⟩
  · exact absurd (step_eq_none_iff.mp hstep) h.waits
  · exact ⟨loop₁, s₁, rfl, (dispatched_step hstep).2⟩

/-- Each of the deliveries of a busy loop is counted. -/
theorem dispatched_advance {k : Nat} (h : ∀ j, j < k → (advance script j loop s).1.Busy) :
    (advance script k loop s).1.dispatched = loop.dispatched + k := by
  induction k generalizing loop s with
  | zero => rfl
  | succ k ih =>
    have hbusy₀ : loop.Busy := h 0 k.succ_pos
    obtain ⟨loop₁, s₁, hstep, hdispatched, -⟩ := hbusy₀.step script s
    have hadvance := advance_succ hstep
    rw [hadvance, ih fun j hj => hadvance j ▸ h (j + 1) (Nat.succ_lt_succ hj), hdispatched]
    omega

/-! ## Runs -/

variable {first : Nat}

/-- A loop that is halted ends a run with its fault. -/
theorem runFrom_of_halted {fault : Fault} (h : loop.halted = some fault)
    (script : Script σ Msg Fault) (s : σ) (first fuel : Nat) :
    loop.runFrom script first (fuel + 1) s =
      some (.error (.fault fault), { loop with halted := none }, s) := by
  simp only [runFrom, h]

/-- A loop that is halted or idle ends a run in the same way under any limit. -/
theorem exists_runFrom_of_not_busy (h : ¬ loop.Busy) (script : Script σ Msg Fault) (s : σ)
    (first : Nat) :
    ∃ (result : Except (Stop Fault) Nat) (loop' : Loop Msg Fault), ∀ limit fuel,
      (loop.withLimit limit).runFrom script first (fuel + 1) s =
        some (result, loop'.withLimit limit, s) := by
  rcases hhalted : loop.halted with _ | fault
  · have hempty : loop.queue.toList = [] := by
      by_contra hwaits
      exact h ⟨hwaits, hhalted⟩
    refine ⟨.ok (loop.dispatched - first), loop, fun limit fuel => ?_⟩
    -- an empty queue exceeds no limit
    have hrests : (loop.withLimit limit).Rests none := ⟨hempty, hhalted⟩
    have hstep : (loop.withLimit limit).step script s = none :=
      step_eq_none_iff.mpr hrests.toList_queue
    simp only [runFrom, hrests.halted, hrests.exceeded, hstep]
    rfl
  · refine ⟨.error (.fault fault), { loop with halted := none }, fun limit fuel => ?_⟩
    have hhalted' : (loop.withLimit limit).halted = some fault := hhalted
    exact runFrom_of_halted hhalted' script s first fuel

/-- A busy loop whose run has used up its limit ends it there. -/
theorem Busy.runFrom_exceeded (h : loop.Busy) (script : Script σ Msg Fault) (s : σ) {limit : Nat}
    (hlimit : loop.limit = some limit) (hle : limit ≤ loop.dispatched - first) (fuel : Nat) :
    loop.runFrom script first (fuel + 1) s =
      some (.error (.limit limit), { loop with queue := .empty }, s) := by
  have hempty : loop.queue.isEmpty = false := by
    rw [← Bool.not_eq_true, Queue.isEmpty_iff]
    exact h.waits
  have hexceeded : loop.exceeded first = some limit := by
    simp [exceeded, hlimit, hle, hempty]
  simp only [runFrom, h.not_halted, hexceeded]

/-- A loop on which a message waits, and that does not exceed its limit, has not used it up. -/
theorem lt_of_exceeded_eq_none {limit : Nat} (h : loop.exceeded first = none)
    (hwaits : loop.queue.toList ≠ []) (hlimit : loop.limit = some limit) :
    loop.dispatched - first < limit := by
  have hempty : loop.queue.isEmpty = false := by
    rw [← Bool.not_eq_true, Queue.isEmpty_iff]
    exact hwaits
  simpa [exceeded, hlimit, hempty] using h

/-- A loop whose limit is not used up does not exceed it. -/
theorem exceeded_of_lt (h : ∀ limit, loop.limit = some limit → loop.dispatched - first < limit) :
    loop.exceeded first = none := by
  unfold exceeded
  split
  · rename_i limit hlimit
    have hlt : ¬ limit ≤ loop.dispatched - first := Nat.not_le.mpr (h limit hlimit)
    simp [hlt]
  · rfl

/-- A loop that is not halted and does not exceed its limit goes on behind the next delivery. -/
theorem runFrom_of_step {loop₁ : Loop Msg Fault} {s₁ : σ} (hhalted : loop.halted = none)
    (hexceeded : loop.exceeded first = none) (hstep : loop.step script s = some (loop₁, s₁))
    (fuel : Nat) :
    loop.runFrom script first (fuel + 1) s = loop₁.runFrom script first fuel s₁ := by
  simp only [runFrom, hhalted, hexceeded, hstep]

/-- **A run that is not cut off goes on from any of its deliveries.** -/
theorem runFrom_advance {k : Nat} (hbusy : ∀ j, j < k → (advance script j loop s).1.Busy)
    (hlimit : ∀ limit, loop.limit = some limit → loop.dispatched - first + k ≤ limit)
    (hfirst : first ≤ loop.dispatched) (fuel : Nat) :
    loop.runFrom script first (k + fuel) s =
      (advance script k loop s).1.runFrom script first fuel (advance script k loop s).2 := by
  induction k generalizing loop s with
  | zero => rw [Nat.zero_add]; rfl
  | succ k ih =>
    have hbusy₀ : loop.Busy := hbusy 0 k.succ_pos
    obtain ⟨loop₁, s₁, hstep, hdispatched, hlimit₁⟩ := hbusy₀.step script s
    have hadvance := advance_succ hstep
    have hexceeded : loop.exceeded first = none := by
      apply exceeded_of_lt
      intro limit h
      have := hlimit limit h
      omega
    have hsucc : loop.runFrom script first (k + 1 + fuel) s =
        loop₁.runFrom script first (k + fuel) s₁ := by
      rw [show k + 1 + fuel = k + fuel + 1 by omega]
      exact runFrom_of_step hbusy₀.not_halted hexceeded hstep _
    -- the rest is made within what is left of the limit
    rw [hsucc, hadvance]
    apply ih
    · intro j hj
      rw [← hadvance]
      exact hbusy (j + 1) (Nat.succ_lt_succ hj)
    · intro limit h
      have := hlimit limit (hlimit₁ ▸ h)
      omega
    · omega

theorem exceeded_withLimit_none (first : Nat) : (loop.withLimit none).exceeded first = none := rfl

/-- A run that goes idle under a limit goes idle in the same way without one. -/
theorem runFrom_withLimit_none {fuel n : Nat} {loop' : Loop Msg Fault} {s' : σ}
    (hrun : loop.runFrom script first fuel s = some (.ok n, loop', s')) :
    (loop.withLimit none).runFrom script first fuel s = some (.ok n, loop'.withLimit none, s') := by
  induction fuel generalizing loop s with
  | zero => cases hrun
  | succ fuel ih =>
    have hhalted : (loop.withLimit none).halted = loop.halted := rfl
    simp only [runFrom] at hrun
    simp only [runFrom, hhalted, exceeded_withLimit_none, step_withLimit]
    split at hrun
    · cases hrun
    · split at hrun
      · cases hrun
      · rcases hstep : loop.step script s with _ | ⟨loop₁, s₁⟩
        · rw [hstep] at hrun
          cases hrun
          rfl
        · rw [hstep] at hrun
          exact ih hrun

/-- What a run of the loop under each limit comes to. The limit itself is left out of the loop that
the run leaves behind. -/
def runWithin (script : Script σ Msg Fault) (loop : Loop Msg Fault) (s : σ) (limit : Option Nat)
    (fuel : Nat) : Option (Except (Stop Fault) Nat × Loop Msg Fault × σ) :=
  ((loop.withLimit limit).run script fuel s).map fun (result, loop', s') =>
    (result, loop'.withLimit none, s')

theorem runWithin_mono (script : Script σ Msg Fault) (loop : Loop Msg Fault) (s : σ)
    (limit : Option Nat) : FuelMonotone (runWithin script loop s limit) :=
  (runFrom_mono script loop.dispatched (loop.withLimit limit) s).map _

/-- The run under a limit from one of its deliveries on. -/
theorem run_withLimit_advance {k : Nat}
    (hbusy : ∀ j, j < k → (advance script j loop s).1.Busy) {limit : Option Nat}
    (hlimit : ∀ n, limit = some n → k ≤ n) (fuel : Nat) :
    (loop.withLimit limit).run script (k + fuel) s =
      ((advance script k loop s).1.withLimit limit).runFrom script loop.dispatched fuel
        (advance script k loop s).2 := by
  have hbusy' : ∀ j, j < k → (advance script j (loop.withLimit limit) s).1.Busy := by
    simpa only [advance_withLimit, busy_withLimit] using hbusy
  have hlimit' : ∀ n, (loop.withLimit limit).limit = some n →
      (loop.withLimit limit).dispatched - loop.dispatched + k ≤ n := by
    intro n hn
    show loop.dispatched - loop.dispatched + k ≤ n
    have hle := hlimit n hn
    omega
  have hrun := runFrom_advance hbusy' hlimit' (Nat.le_refl _) fuel
  rwa [advance_withLimit] at hrun

/-- A run that the limit does not cut off ends where the loop, left alone, stops. -/
theorem StopsAfter.exists_runWithin {d : Nat} (h : loop.StopsAfter script s d) :
    ∃ r, ∀ limit, (∀ n, limit = some n → d ≤ n) →
      Terminates (runWithin script loop s limit) (· = r) := by
  obtain ⟨hbusy, hstop⟩ := h
  obtain ⟨result, loop', hend⟩ := exists_runFrom_of_not_busy hstop script
    (advance script d loop s).2 loop.dispatched
  refine ⟨(result, loop'.withLimit none, (advance script d loop s).2), fun limit hlimit => ?_⟩
  have hrun : runWithin script loop s limit (d + 1) =
      some (result, loop'.withLimit none, (advance script d loop s).2) := by
    unfold runWithin
    rw [run_withLimit_advance hbusy hlimit, hend]
    rfl
  exact (runWithin_mono script loop s limit).terminates hrun rfl

/-- A limit cuts a run off when as many deliveries were made and the loop is still busy. -/
theorem runWithin_cut {limit : Nat} (hbusy : ∀ k, k ≤ limit → (advance script k loop s).1.Busy) :
    Terminates (runWithin script loop s (some limit)) fun r =>
      r.1 = .error (.limit limit) ∧ r.2.1.dispatched = loop.dispatched + limit := by
  have hbefore : ∀ k, k < limit → (advance script k loop s).1.Busy :=
    fun k hk => hbusy k (Nat.le_of_lt hk)
  have hdispatched := dispatched_advance hbefore
  have hlast : ((advance script limit loop s).1.withLimit (some limit)).Busy :=
    busy_withLimit.mpr (hbusy limit (Nat.le_refl _))
  have hle : limit ≤
      ((advance script limit loop s).1.withLimit (some limit)).dispatched - loop.dispatched := by
    show limit ≤ (advance script limit loop s).1.dispatched - loop.dispatched
    omega
  -- as many deliveries are made as without a limit, and the next one is refused
  have hrun : runWithin script loop s (some limit) (limit + 1) = some (.error (.limit limit),
      { (advance script limit loop s).1.withLimit none with queue := .empty },
      (advance script limit loop s).2) := by
    unfold runWithin
    rw [run_withLimit_advance hbefore fun n hn => Nat.le_of_eq (Option.some.inj hn),
      hlast.runFrom_exceeded script _ rfl hle]
    rfl
  exact (runWithin_mono script loop s (some limit)).terminates hrun ⟨rfl, hdispatched⟩

/-- **The limit of a run is exact**: it shows in nothing but the runs that would make more
deliveries, and those it cuts off behind the last one that it allows. -/
theorem limitExact_run (script : Script σ Msg Fault) (loop : Loop Msg Fault) (s : σ) :
    LimitExact (loop.StopsAfter script s) (runWithin script loop s) fun limit r =>
      r.1 = .error (.limit limit) ∧ r.2.1.dispatched = loop.dispatched + limit := by
  constructor
  · intro d hd
    obtain ⟨r, hr⟩ := hd.exists_runWithin
    refine ⟨r, hr none (by rintro n ⟨⟩), fun limit => ⟨fun hle => ?_, fun hlt => ?_⟩⟩
    · exact hr (some limit) fun n hn => Option.some.inj hn ▸ hle
    · exact runWithin_cut fun k hk => hd.1 k (Nat.lt_of_le_of_lt hk hlt)
  · intro hd
    -- the loop is busy for ever: the first time it is not would be the number of its deliveries
    have hbusy : ∀ k, (advance script k loop s).1.Busy := by
      intro k
      induction k using Nat.strongRecOn with
      | ind k ih =>
        by_contra hk
        exact hd k ⟨ih, hk⟩
    refine ⟨fun fuel => ?_, fun limit => runWithin_cut fun k _ => hbusy k⟩
    have hrun : (loop.withLimit none).run script (fuel + 0) s = none :=
      run_withLimit_advance (fun j _ => hbusy j) (by rintro n ⟨⟩) 0
    unfold runWithin
    rw [← Nat.add_zero fuel, hrun]
    rfl

/-- A loop of which some run without a limit has a result stops after a number of deliveries. -/
theorem exists_stopsAfter {fuel : Nat} {r : Except (Stop Fault) Nat × Loop Msg Fault × σ}
    (hrun : (loop.withLimit none).run script fuel s = some r) :
    ∃ d, loop.StopsAfter script s d := by
  by_contra hd
  have hnone := ((limitExact_run script loop s).endless (not_exists.mp hd)).1 fuel
  rw [runWithin, hrun] at hnone
  cases hnone

/-- **A run ends** if it has a limit or the loop stops, and then only. -/
theorem terminates_run_iff (script : Script σ Msg Fault) (loop : Loop Msg Fault) (s : σ) :
    Terminates (fun fuel => loop.run script fuel s) (fun _ => True) ↔
      (loop.limit = none → ∃ d, loop.StopsAfter script s d) := by
  have hexact := limitExact_run script loop s
  -- whatever some run under the limit of the loop comes to, the loop itself comes to an end
  have hends : ∀ P, Terminates (runWithin script loop s loop.limit) P →
      Terminates (fun fuel => loop.run script fuel s) fun _ => True := by
    rintro P ⟨_, -, N, hrun⟩
    obtain ⟨r, hr, -⟩ := Option.map_eq_some_iff.mp (hrun N (Nat.le_refl N))
    exact (runFrom_mono script loop.dispatched loop s).terminates hr trivial
  constructor
  · rintro ⟨r, -, N, hrun⟩ hlimit
    apply exists_stopsAfter
    rw [← hrun N (Nat.le_refl N), withLimit, ← hlimit]
  · intro hstops
    rcases hlimit : loop.limit with _ | limit
    · obtain ⟨d, hd⟩ := hstops hlimit
      obtain ⟨a, hnone, -⟩ := hexact.stopped d hd
      exact hends _ (hlimit ▸ hnone)
    · by_cases hd : ∃ d, loop.StopsAfter script s d
      · obtain ⟨d, hd⟩ := hd
        obtain ⟨a, ha, -⟩ := hexact.stopped d hd
        rcases hexact.same_or_cut ha limit with hsame | hcut
        · exact hends _ (hlimit ▸ hsame)
        · exact hends _ (hlimit ▸ hcut)
      · exact hends _ (hlimit ▸ (hexact.endless (not_exists.mp hd)).2 limit)

end Loop

end Humus.Dispatch
