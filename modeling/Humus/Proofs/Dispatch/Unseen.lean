import Humus.Proofs.Dispatch.Thread

/-!
# Unseen differences

Two states of the receivers may differ in a way that only some messages can tell. Until one of those
messages waits, the deliveries of a loop are the same from either state, and the difference stays.

## Main definitions

* `Unseen script T f I`: what `f` changes in a state is seen by the messages of `T` only
* `Loop.Meets script T loop s`: at some time a message of `T` waits

## Main results

* `Unseen.runFrom`: where no message of `T` is met, runs from either state go the same way
* `Unseen.reaches`: where one is met, a thread comes to it from the changed state
-/

namespace Humus.Dispatch

variable {σ Msg Fault : Type}

/-- While `I` holds of the messages that wait and of the state, what `f` changes in the state is not
seen by a message that is not of `T`: its handling asks for the same, and leaves the difference. -/
structure Unseen (script : Script σ Msg Fault) (T : Msg → Prop) (f : σ → σ)
    (I : List Msg → σ → Prop) : Prop where
  script_eq : ∀ m q s, I (m :: q) s → ¬ T m →
    script m (f s) = ((script m s).1, f (script m s).2)
  keeps : ∀ m q s q', I (m :: q) s → ¬ T m →
    (∀ m' ∈ q', m' ∈ q ∨ .send m' ∈ (script m s).1) → I q' (script m s).2

variable {script : Script σ Msg Fault} {T : Msg → Prop} {f : σ → σ} {I : List Msg → σ → Prop}
  {J : σ → Prop} {Q : Msg → σ → Prop} {H : Option Fault → σ → Prop} {m : Msg} {s : σ}

theorem After.map {p : List (Effect Msg Fault) × σ} (h : After Q H p) (f : σ → σ) :
    After (fun m s => ∃ s₁, s = f s₁ ∧ Q m s₁) (fun g s => ∃ s₁, s = f s₁ ∧ H g s₁)
      (p.1, f p.2) := by
  obtain ⟨effects, s⟩ := p
  match effects, h with
  | [], hH => exact ⟨s, rfl, hH⟩
  | [.send m], hQ => exact ⟨s, rfl, hQ⟩
  | [.halt g], hH => exact ⟨s, rfl, hH⟩

namespace Loop

variable {loop : Loop Msg Fault}

variable (script T) in
/-- Left alone, the loop comes to a time at which a message of `T` waits. -/
def Meets (loop : Loop Msg Fault) (s : σ) : Prop :=
  ∃ k, ∃ m ∈ (advance script k loop s).1.queue.toList, T m

/-- What waits after some effects waited before, or was sent. -/
theorem mem_queue_foldl_perform {effects : List (Effect Msg Fault)}
    (h : m ∈ (effects.foldl perform loop).queue.toList) :
    m ∈ loop.queue.toList ∨ .send m ∈ effects := by
  induction effects generalizing loop with
  | nil => exact .inl h
  | cons effect effects ih =>
    rcases ih h with h | h
    · cases effect with
      | halt g => cases h
      | send m' =>
        simp only [perform, Loop.send] at h
        split at h
        · exact .inl h
        · rw [Queue.toList_push, List.mem_append, List.mem_singleton] at h
          rcases h with h | rfl
          · exact .inl h
          · exact .inr List.mem_cons_self
    · exact .inr (List.mem_cons_of_mem _ h)

theorem not_meets_step {loop' : Loop Msg Fault} {s' : σ} (h : ¬ loop.Meets script T s)
    (hstep : loop.step script s = some (loop', s')) : ¬ loop'.Meets script T s' := by
  rintro ⟨k, hk⟩
  rw [← advance_succ hstep] at hk
  exact h ⟨k + 1, hk⟩

end Loop

namespace Unseen

variable {loop : Loop Msg Fault} (h : Unseen script T f I)
include h

/-- **Runs go the same way** from two states whose difference no message of the run can tell. -/
theorem runFrom (hI : I loop.queue.toList s) (hT : ¬ loop.Meets script T (f s)) (first fuel : Nat) :
    loop.runFrom script first fuel (f s) =
      (loop.runFrom script first fuel s).map fun r => (r.1, r.2.1, f r.2.2) := by
  induction fuel generalizing loop s with
  | zero => rfl
  | succ fuel ih =>
    simp only [Loop.runFrom]
    rcases loop.halted with _ | g
    · rcases loop.exceeded first with _ | limit
      · rcases hpop : loop.queue.pop? with _ | ⟨m, queue⟩
        · simp only [Loop.step, hpop]
          rfl
        · -- one message is delivered, and asks for the same in either state
          have hlist := Queue.toList_of_pop? hpop
          rw [hlist] at hI
          have hm : ¬ T m := fun hm => hT ⟨0, m, hlist ▸ List.mem_cons_self, hm⟩
          have hscript := h.script_eq m _ s hI hm
          have hstep := fun s : σ => show loop.step script s =
              some ((script m s).1.foldl Loop.perform
                { loop with queue, dispatched := loop.dispatched + 1 }, (script m s).2) by
            rw [Loop.step, hpop]
          have hnext := Loop.not_meets_step hT (hstep (f s))
          rw [hstep, hstep]
          rw [hscript] at hnext ⊢
          refine ih (h.keeps m _ s _ hI hm fun m' hm' => ?_) hnext
          exact Loop.mem_queue_foldl_perform hm'
      · rfl
    · rfl

variable (hQ : ∀ m s, Q m s → ∃ s', script m s = ([], s'))
  (hJ : ∀ m s m' s', J s → script m s = ([.send m'], s') → J s')
include hQ hJ

/-- **A thread comes to the message that can tell the difference**, if the loop meets one. -/
theorem reaches {I' : σ → Prop} (hsafe : ∀ n, Safe script I' Q H n m s) (hholds : loop.Holds m)
    (hI : I [m] s) (hs : J s) (hT : loop.Meets script T (f s)) :
    Reaches script (fun m s => T m ∧ ∃ s₁, s = f s₁ ∧ J s₁) (fun _ _ => False) m (f s) := by
  obtain ⟨k, hk⟩ := hT
  -- The induction follows the thread of the unchanged state, which is safe.
  induction k generalizing loop m s with
  | zero =>
    obtain ⟨m', hm', hT⟩ := hk
    have hmem : m' ∈ loop.queue.toList := hm'
    rw [hholds.toList_queue, List.mem_singleton] at hmem
    exact .here ⟨hmem ▸ hT, s, rfl, hs⟩
  | succ k ih =>
    by_cases hm : T m
    · exact .here ⟨hm, s, rfl, hs⟩
    have hscript := h.script_eq m [] s hI hm
    have hafter : After (fun m' s' => script m s = ([.send m'], s') ∧
        ∀ n, Safe script I' Q H n m' s') (fun _ _ => True) (script m s) := by
      by_cases hlast : Q m s
      · obtain ⟨s', hs'⟩ := hQ m s hlast
        rw [hs']
        trivial
      · exact (Safe.forall_after hsafe hlast).imp (fun _ _ h => h) fun _ _ _ => trivial
    obtain ⟨loop₁, hstep, -, hperformed⟩ := hholds.step script (f s)
    rw [Loop.advance_succ hstep] at hk
    have hmapped := hafter.map f
    rw [← hscript] at hmapped
    rcases hperformed _ _ hmapped with ⟨m₁, hholds₁, s₁, hs₁, hsend, hnext⟩ | ⟨g, hrests, -⟩
    · rw [hs₁] at hk
      have hmem : ∀ m' ∈ [m₁], m' ∈ [] ∨ Effect.send m' ∈ (script m s).1 := by
        intro m' hm'
        rw [List.mem_singleton.mp hm', hsend]
        exact .inr List.mem_cons_self
      have hI₁ := h.keeps m [] s [m₁] hI hm hmem
      rw [hsend] at hI₁
      refine .send ?_ (ih hnext hholds₁ hI₁ (hJ m s m₁ s₁ hs hsend) hk)
      rw [hscript, hsend]
    · -- nothing waits any more, so that the message cannot be met
      obtain ⟨m', hm', -⟩ := hk
      rw [hrests.advance, hrests.toList_queue] at hm'
      cases hm'

end Unseen

end Humus.Dispatch
