import Humus.Dispatch.Loop
import Mathlib.Tactic.SplitIfs

/-!
# Threads

A loop on which one message waits, and whose receivers answer every message with one message, runs
a single thread: one message waits at every moment. A thread is followed until it comes to a
message of interest, or until it ends because a receiver halts the loop or sends nothing.

## Main definitions

* `Safe script I Q H n m s`: for `n` deliveries, the thread at `m` goes on or has come to `Q`, or it
  has ended in a state of `H`, and meanwhile `I` holds of the state
* `Reaches script Q H m s`: the thread at `m` comes to `Q`, or ends in a state of `H`
* `Loop.Holds loop m`: the message `m` waits, and no other
* `Loop.advance script k loop s`: the loop and the state after `k` deliveries

## Main results

* `Safe.bind`, `Reaches.bind`: threads compose
* `Loop.runFrom_safe`: how a run of a safe thread ends, if it ends
* `Loop.exists_runFrom`: a thread that comes to an end is run to its end
* `Loop.advance_safe`: what waits after each delivery of a safe thread
-/

namespace Humus.Dispatch

variable {σ Msg Fault : Type}

/-- The handling of a message goes on with one message in `Q`, or ends the thread in a state of
`H`: with a fault, or silently. -/
def After (Q : Msg → σ → Prop) (H : Option Fault → σ → Prop) :
    List (Effect Msg Fault) × σ → Prop
  | ([.send m], s) => Q m s
  | ([.halt f], s) => H (some f) s
  | ([], s) => H none s
  | _ => False

/-- For `n` deliveries, the thread at `m` goes on or has come to `Q`, or it has ended in `H`.
Whatever the thread is at, `I` holds of the state. -/
def Safe (script : Script σ Msg Fault) (I : σ → Prop) (Q : Msg → σ → Prop)
    (H : Option Fault → σ → Prop) : Nat → Msg → σ → Prop
  | 0, _, s => I s
  | n + 1, m, s =>
    I s ∧ (Q m s ∨ After (Safe script I Q H n) (fun f s => I s ∧ H f s) (script m s))

/-- The thread at `m` comes to `Q` or ends in `H`. -/
inductive Reaches (script : Script σ Msg Fault) (Q : Msg → σ → Prop)
    (H : Option Fault → σ → Prop) : Msg → σ → Prop where
  | here {m s} : Q m s → Reaches script Q H m s
  | send {m s m' s'} : script m s = ([.send m'], s') → Reaches script Q H m' s' →
      Reaches script Q H m s
  | stop {m s} : After (fun _ _ => False) H (script m s) → Reaches script Q H m s

variable {script : Script σ Msg Fault} {I I' : σ → Prop} {Q Q' : Msg → σ → Prop}
  {H H' : Option Fault → σ → Prop}

theorem After.imp {p : List (Effect Msg Fault) × σ} (h : After Q H p)
    (hQ : ∀ m s, Q m s → Q' m s) (hH : ∀ f s, H f s → H' f s) : After Q' H' p := by
  obtain ⟨effects, s⟩ := p
  match effects, h with
  | [], h => exact hH _ _ h
  | [.send m], h => exact hQ _ _ h
  | [.halt f], h => exact hH _ _ h

theorem Safe.here {m : Msg} {s : σ} (hs : I s) (h : Q m s) (n : Nat) : Safe script I Q H n m s := by
  cases n with
  | zero => exact hs
  | succ n => exact ⟨hs, .inl h⟩

theorem Safe.step {n : Nat} {m : Msg} {s : σ} (hs : I s)
    (h : ∀ k, k < n → After (Safe script I Q H k) (fun f s => I s ∧ H f s) (script m s)) :
    Safe script I Q H n m s := by
  cases n with
  | zero => exact hs
  | succ n => exact ⟨hs, .inr (h n n.lt_succ_self)⟩

/-- **Threads compose**: what the first comes to, the second goes on with. -/
theorem Safe.bind {n : Nat} {m : Msg} {s : σ} (h : Safe script I Q H n m s)
    (hI : ∀ s, I s → I' s)
    (hQ : ∀ k, k ≤ n → ∀ m s, I s → Q m s → Safe script I' Q' H' k m s)
    (hH : ∀ f s, H f s → H' f s) : Safe script I' Q' H' n m s := by
  induction n generalizing m s with
  | zero => exact hI s h
  | succ n ih =>
    obtain ⟨hs, h | h⟩ := h
    · exact hQ _ (Nat.le_refl _) m s hs h
    · refine ⟨hI s hs, .inr (h.imp (fun m s h => ?_) fun f s h => ⟨hI s h.1, hH f s h.2⟩)⟩
      exact ih h fun k hk => hQ k (Nat.le_succ_of_le hk)

/-- A thread that is safe for any number of deliveries, and has not come to `Q`, goes on so. -/
theorem Safe.forall_after {m : Msg} {s : σ} (h : ∀ n, Safe script I Q H n m s) (hm : ¬ Q m s) :
    After (fun m' s' => script m s = ([.send m'], s') ∧ ∀ n, Safe script I Q H n m' s')
      (fun f s => I s ∧ H f s) (script m s) := by
  have hnext : ∀ n, After (Safe script I Q H n) (fun f s => I s ∧ H f s) (script m s) :=
    fun n => (h (n + 1)).2.resolve_left hm
  have hafter := hnext 0
  generalize script m s = p at hnext hafter
  obtain ⟨effects, s'⟩ := p
  match effects, hafter with
  | [], hH => exact hH
  | [.send m'], _ => exact ⟨rfl, hnext⟩
  | [.halt f], hH => exact hH

theorem Reaches.step {m : Msg} {s : σ} (h : After (Reaches script Q H) H (script m s)) :
    Reaches script Q H m s := by
  generalize he : script m s = p at h
  obtain ⟨effects, s'⟩ := p
  match effects, h with
  | [], h => exact .stop (by rw [he]; exact h)
  | [.send m'], h => exact .send he h
  | [.halt f], h => exact .stop (by rw [he]; exact h)

theorem Reaches.bind {m : Msg} {s : σ} (h : Reaches script Q H m s)
    (hQ : ∀ m s, Q m s → Reaches script Q' H' m s) (hH : ∀ f s, H f s → H' f s) :
    Reaches script Q' H' m s := by
  induction h with
  | here h => exact hQ _ _ h
  | send hs _ ih => exact .send hs ih
  | stop h => exact .stop (h.imp (fun _ _ h => h) hH)

/-- How a run of a thread ends. -/
inductive Ends (script : Script σ Msg Fault) (Q : Msg → σ → Prop) (H : Option Fault → σ → Prop) :
    Except (Stop Fault) Nat → σ → Prop where
  /-- The message that the thread came to was the last. -/
  | answered {m s s' n} : Q m s → script m s = ([], s') → Ends script Q H (.ok n) s'
  /-- The loop went idle before. -/
  | idle {s n} : H none s → Ends script Q H (.ok n) s
  /-- The loop was halted. -/
  | fault {f s} : H (some f) s → Ends script Q H (.error (.fault f)) s

namespace Loop

variable {loop : Loop Msg Fault} {m : Msg} {s : σ}

/-- One message waits, and the loop is not halted. -/
structure Holds (loop : Loop Msg Fault) (m : Msg) : Prop where
  toList_queue : loop.queue.toList = [m]
  not_halted : loop.halted = none

/-- No message waits. The loop may be halted. -/
structure Rests (loop : Loop Msg Fault) (f : Option Fault) : Prop where
  toList_queue : loop.queue.toList = []
  halted : loop.halted = f

/-- Nothing is delivered if and only if nothing waits. -/
theorem step_eq_none_iff : loop.step script s = none ↔ loop.queue.toList = [] := by
  unfold Loop.step
  rw [← Queue.pop?_eq_none_iff]
  rcases loop.queue.pop? with _ | ⟨message, queue⟩
  · exact ⟨fun _ => rfl, fun _ => rfl⟩
  · constructor <;> nofun

theorem holds_send_fresh (limit : Option Nat) (m : Msg) :
    ((fresh limit : Loop Msg Fault).send m).Holds m :=
  ⟨rfl, rfl⟩

/-- What an effect does to a loop leaves its limit alone. -/
theorem limit_foldl_perform (effects : List (Effect Msg Fault)) (loop : Loop Msg Fault) :
    (effects.foldl perform loop).limit = loop.limit := by
  induction effects generalizing loop with
  | nil => rfl
  | cons e effects ih =>
    rw [List.foldl_cons, ih]
    cases e with
    | send m => simp only [perform, Loop.send]; split <;> rfl
    | halt f => rfl

/-- On a loop where nothing waits, a thread leaves one message to wait, or none. -/
theorem Rests.performed {effects : List (Effect Msg Fault)} (h : loop.Rests none)
    (hafter : After Q H (effects, s)) :
    (∃ m, (effects.foldl perform loop).Holds m ∧ Q m s) ∨
      ∃ f, (effects.foldl perform loop).Rests f ∧ H f s := by
  match effects, hafter with
  | [], hH => exact .inr ⟨none, h, hH⟩
  | [.send m], hQ =>
    refine .inl ⟨m, ⟨?_, ?_⟩, hQ⟩
    · simp [perform, Loop.send, h.halted, h.toList_queue]
    · simp [perform, Loop.send, h.halted]
  | [.halt f], hH =>
    refine .inr ⟨some f, ⟨rfl, ?_⟩, hH⟩
    simp [perform, Loop.halt, h.halted]

variable (script) in
/-- The delivery of the one message that waits, and what then waits. -/
theorem Holds.step (h : loop.Holds m) (s : σ) :
    ∃ loop' : Loop Msg Fault, loop.step script s = some (loop', (script m s).2) ∧
      loop'.limit = loop.limit ∧
      ∀ Q H, After Q H (script m s) →
        (∃ m', loop'.Holds m' ∧ Q m' (script m s).2) ∨ ∃ f, loop'.Rests f ∧ H f (script m s).2 := by
  obtain ⟨q, hpop, hq⟩ := Queue.exists_pop? h.toList_queue
  have hrests : ({ loop with queue := q, dispatched := loop.dispatched + 1 } :
      Loop Msg Fault).Rests none := ⟨hq, h.not_halted⟩
  refine ⟨(script m s).1.foldl perform { loop with queue := q, dispatched := loop.dispatched + 1 },
    ?_, limit_foldl_perform _ _, ?_⟩
  · rw [Loop.step, hpop]
  · intro Q H hafter
    exact hrests.performed hafter

/-- Only a loop with a limit exceeds it. -/
theorem limit_of_exceeded {first n : Nat} (h : loop.exceeded first = some n) :
    loop.limit = some n := by
  unfold Loop.exceeded at h
  split at h
  · rename_i limit hlimit
    split_ifs at h
    rw [hlimit, h]
  · cases h

theorem Rests.exceeded {f : Option Fault} (h : loop.Rests f) (first : Nat) :
    loop.exceeded first = none := by
  have hempty : loop.queue.isEmpty = true := (Queue.isEmpty_iff _).mpr h.toList_queue
  unfold Loop.exceeded
  split
  · simp [hempty]
  · rfl

variable (script) in
/-- A run of a loop that rests ends there. -/
theorem Rests.runFrom {f : Option Fault} (h : loop.Rests f) (hH : H f s) (first fuel : Nat) :
    ∃ result loop', loop.runFrom script first (fuel + 1) s = some (result, loop', s) ∧
      Ends script Q H result s := by
  have hstep : loop.step script s = none := step_eq_none_iff.mpr h.toList_queue
  cases f with
  | some f =>
    exact ⟨.error (.fault f), { loop with halted := none },
      by simp only [Loop.runFrom, h.halted], .fault hH⟩
  | none =>
    exact ⟨.ok (loop.dispatched - first), loop,
      by simp only [Loop.runFrom, h.halted, h.exceeded, hstep], .idle hH⟩

variable (script) in
/-- A run delivers the one message that waits, unless the limit is reached. -/
theorem Holds.runFrom (h : loop.Holds m) {first : Nat} (hlimit : loop.exceeded first = none)
    (s : σ) :
    ∃ loop' : Loop Msg Fault, loop'.limit = loop.limit ∧
      (∀ fuel, loop.runFrom script first (fuel + 1) s =
        loop'.runFrom script first fuel (script m s).2) ∧
      ∀ Q H, After Q H (script m s) →
        (∃ m', loop'.Holds m' ∧ Q m' (script m s).2) ∨
          ∃ f, loop'.Rests f ∧ H f (script m s).2 := by
  obtain ⟨loop', hstep, hl, hafter⟩ := h.step script s
  exact ⟨loop', hl, fun fuel => by simp only [Loop.runFrom, h.not_halted, hlimit, hstep], hafter⟩

variable (hQ : ∀ m s, Q m s → ∃ s', script m s = ([], s'))
include hQ

/-- A run from the message that the thread came to ends with its delivery. -/
theorem Holds.runFrom_here (h : loop.Holds m) (hm : Q m s) {first : Nat}
    (hlimit : loop.exceeded first = none) (fuel : Nat) :
    ∃ result loop' s', loop.runFrom script first (fuel + 2) s = some (result, loop', s') ∧
      Ends script Q H result s' := by
  obtain ⟨s₁, hs⟩ := hQ m s hm
  obtain ⟨loop₁, -, hrun, hafter⟩ := h.runFrom script hlimit s
  -- the last message sends nothing, so that the loop comes to rest
  obtain ⟨_, -, hF⟩ | ⟨f, hrests, rfl, -⟩ :=
    hafter (fun _ _ => False) (fun f s' => f = none ∧ s' = s₁) (by rw [hs]; exact ⟨rfl, rfl⟩)
  · exact hF.elim
  obtain ⟨result, loop', hrun', hends⟩ :=
    hrests.runFrom script (Q := Q) (H := fun f s' => f = none ∧ s' = s₁)
      (s := s₁) ⟨rfl, rfl⟩ first fuel
  refine ⟨result, loop', s₁, by rw [hrun, hs]; exact hrun', ?_⟩
  cases hends with
  | answered hq' hs' => exact .answered hq' hs'
  | idle _ => exact .answered hm hs
  | fault hf => cases hf.1

/-- **How a run of a safe thread ends**, if it ends. -/
theorem runFrom_safe {first fuel : Nat} (hsafe : Safe script I Q H fuel m s) (h : loop.Holds m)
    {result : Except (Stop Fault) Nat} {loop' : Loop Msg Fault} {s' : σ}
    (hrun : loop.runFrom script first fuel s = some (result, loop', s')) :
    Ends script Q (fun f s => I s ∧ H f s) result s' ∨
      ∃ n, loop.limit = some n ∧ result = .error (.limit n) ∧ I s' := by
  induction fuel generalizing loop m s with
  | zero => cases hrun
  | succ fuel ih =>
    cases hlimit : loop.exceeded first with
    | some n =>
      -- nothing is delivered any more, so that the state is the one that the thread was at
      right
      simp only [Loop.runFrom, h.not_halted, hlimit] at hrun
      cases hrun
      exact ⟨n, limit_of_exceeded hlimit, rfl, hsafe.1⟩
    | none =>
      rcases hsafe.2 with hm | hsafe
      · -- The thread has come to its end: one delivery is left, and the idle turn after it.
        cases fuel with
        | zero =>
          obtain ⟨loop₁, -, hrun₁, -⟩ := h.runFrom script hlimit s
          rw [hrun₁] at hrun
          cases hrun
        | succ fuel =>
          obtain ⟨_, _, _, hrun', hends⟩ :=
            h.runFrom_here hQ (H := fun f s => I s ∧ H f s) hm hlimit fuel
          cases hrun.symm.trans hrun'
          exact .inl hends
      · -- The thread goes on with the next message, or it has broken off.
        obtain ⟨loop₁, hl, hrun₁, hafter⟩ := h.runFrom script hlimit s
        rw [hrun₁] at hrun
        rcases hafter _ _ hsafe with ⟨m₁, h₁, hsafe₁⟩ | ⟨f, hrests, hH⟩
        · rw [← hl]
          exact ih hsafe₁ h₁ hrun
        · cases fuel with
          | zero => cases hrun
          | succ fuel =>
            obtain ⟨_, _, hrun', hends⟩ :=
              hrests.runFrom script (Q := Q) (H := fun f s => I s ∧ H f s) hH first fuel
            cases hrun.symm.trans hrun'
            exact .inl hends

/-- **A thread that comes to an end is run to its end**, given enough fuel. -/
theorem exists_runFrom (hreaches : Reaches script Q H m s) (h : loop.Holds m)
    (hlimit : loop.limit = none) (first : Nat) :
    ∃ N, ∀ fuel, N ≤ fuel → ∃ result loop' s',
      loop.runFrom script first fuel s = some (result, loop', s') ∧ Ends script Q H result s' := by
  induction hreaches generalizing loop with
  | here hm =>
    refine ⟨2, fun fuel hfuel => ?_⟩
    obtain ⟨fuel, rfl⟩ := Nat.exists_eq_add_of_le' hfuel
    exact h.runFrom_here hQ hm (by simp [Loop.exceeded, hlimit]) fuel
  | @send m s m' s' hs _ ih =>
    obtain ⟨loop₁, hl, hrun, hafter⟩ :=
      h.runFrom script (show loop.exceeded first = none by simp [Loop.exceeded, hlimit]) s
    obtain ⟨_, hholds, rfl⟩ | ⟨_, -, hF⟩ :=
      hafter (fun m₁ _ => m₁ = m') (fun _ _ => False) (by rw [hs]; rfl)
    · -- One more delivery than the rest of the thread takes.
      obtain ⟨N, hN⟩ := ih hholds (hl.trans hlimit)
      refine ⟨N + 1, fun fuel hfuel => ?_⟩
      obtain ⟨fuel, rfl⟩ := Nat.exists_eq_add_of_le' hfuel
      obtain ⟨result, loop', s'', hrun', hends⟩ := hN (fuel + N) (Nat.le_add_left N fuel)
      refine ⟨result, loop', s'', ?_, hends⟩
      rw [← Nat.add_assoc, hrun, hs]
      exact hrun'
    · exact hF.elim
  | @stop m s hstop =>
    obtain ⟨loop₁, -, hrun, hafter⟩ :=
      h.runFrom script (show loop.exceeded first = none by simp [Loop.exceeded, hlimit]) s
    obtain ⟨_, -, hF⟩ | ⟨f, hrests, hH⟩ := hafter _ _ hstop
    · exact hF.elim
    -- the loop has come to rest, and its next turn ends the run
    · refine ⟨2, fun fuel hfuel => ?_⟩
      obtain ⟨fuel, rfl⟩ := Nat.exists_eq_add_of_le' hfuel
      obtain ⟨result, loop', hrun', hends⟩ :=
        hrests.runFrom script (Q := Q) hH first fuel
      exact ⟨result, loop', _, by rw [hrun]; exact hrun', hends⟩

omit hQ in
/-- The loop and the state of its receivers after `k` deliveries, or after the last one if there
are fewer. -/
def advance (script : Script σ Msg Fault) : Nat → Loop Msg Fault → σ → Loop Msg Fault × σ
  | 0, loop, s => (loop, s)
  | k + 1, loop, s =>
    match loop.step script s with
    | none => (loop, s)
    | some (loop, s) => advance script k loop s

omit hQ in
theorem advance_succ {loop' : Loop Msg Fault} {s' : σ} (h : loop.step script s = some (loop', s'))
    (k : Nat) : advance script (k + 1) loop s = advance script k loop' s' := by
  rw [advance, h]

omit hQ in
theorem Rests.advance {f : Option Fault} (h : loop.Rests f) (k : Nat) (s : σ) :
    Loop.advance script k loop s = (loop, s) := by
  cases k with
  | zero => rfl
  | succ k =>
    have hstep : loop.step script s = none := step_eq_none_iff.mpr h.toList_queue
    rw [Loop.advance, hstep]

/-- **After each delivery of a safe thread** one message waits and `J` holds, or nothing waits and
the thread has ended. -/
theorem advance_safe {J : σ → Prop}
    (hJ : ∀ m s m' s', J s → script m s = ([.send m'], s') → J s')
    (hsafe : ∀ n, Safe script I Q H n m s) (h : loop.Holds m) (hs : J s) (k : Nat) :
    (∃ m', (advance script k loop s).1.Holds m' ∧ J (advance script k loop s).2) ∨
    (∃ m₁ s₁, Q m₁ s₁ ∧ script m₁ s₁ = ([], (advance script k loop s).2) ∧
      (advance script k loop s).1.Rests none) ∨
    ∃ f, (advance script k loop s).1.Rests f ∧ H f (advance script k loop s).2 := by
  -- The induction carries the thread itself: it is safe for any number of deliveries to come.
  induction k generalizing loop m s with
  | zero => exact .inl ⟨m, h, hs⟩
  | succ k ih =>
    obtain ⟨loop₁, hstep, -, hafter⟩ := h.step script s
    rw [advance_succ hstep]
    by_cases hm : Q m s
    · -- The message that waits is the last one.
      obtain ⟨s₁, hscript⟩ := hQ m s hm
      obtain ⟨_, -, hF⟩ | ⟨f, hrests, rfl⟩ :=
        hafter (fun _ _ => False) (fun f _ => f = none) (by rw [hscript]; rfl)
      · exact hF.elim
      · rw [hrests.advance]
        exact .inr (.inl ⟨m, s, hm, by rw [hscript], hrests⟩)
    · -- The thread goes on for any number of deliveries, or it has ended.
      rcases hafter _ _ (Safe.forall_after hsafe hm) with
        ⟨m₁, hholds, hscript, hnext⟩ | ⟨f, hrests, -, hH⟩
      · exact ih hnext hholds (hJ m s m₁ _ hs hscript)
      · rw [hrests.advance]
        exact .inr (.inr ⟨f, hrests, hH⟩)

end Loop

end Humus.Dispatch
