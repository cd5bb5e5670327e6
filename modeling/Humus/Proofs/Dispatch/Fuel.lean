import Humus.Dispatch.Loop

/-!
# Fuel

A run is given up when its fuel is used up. A run that comes to a result comes to the same result
with more fuel, so that a run terminates when it comes to a result with some amount of fuel.

## Main definitions

* `Terminates run P`: with enough fuel `run` comes to one result, which satisfies `P`

## Main results

* `Loop.runFrom_mono`: more fuel does not change a result
* `Terminates.bind`: runs follow one another
-/

namespace Humus.Dispatch

variable {α β : Type}

/-- More fuel does not change a result. -/
def FuelMonotone (run : Nat → Option α) : Prop :=
  ∀ fuel fuel' result, fuel ≤ fuel' → run fuel = some result → run fuel' = some result

/-- With enough fuel the run comes to one result, which satisfies `P`. -/
def Terminates (run : Nat → Option α) (P : α → Prop) : Prop :=
  ∃ result, P result ∧ ∃ N, ∀ fuel, N ≤ fuel → run fuel = some result

section Terminates

variable {run : Nat → Option α} {P Q : α → Prop}

theorem FuelMonotone.const (a : Option α) : FuelMonotone fun _ => a :=
  fun _ _ _ _ => id

/-- Runs that follow one another. -/
theorem FuelMonotone.seq (h : FuelMonotone run) {next : Nat → α → Option β}
    (hnext : ∀ a, FuelMonotone fun fuel => next fuel a) :
    FuelMonotone fun fuel => (run fuel).bind (next fuel) := by
  intro fuel fuel' result hle hresult
  rw [Option.bind_eq_some_iff] at hresult ⊢
  obtain ⟨a, ha, hb⟩ := hresult
  exact ⟨a, h fuel fuel' a hle ha, hnext a fuel fuel' result hle hb⟩

theorem FuelMonotone.bind (h : FuelMonotone run) (f : α → Option β) :
    FuelMonotone fun fuel => (run fuel).bind f :=
  h.seq fun a => .const (f a)

theorem FuelMonotone.terminates (h : FuelMonotone run) {fuel : Nat} {result : α}
    (hrun : run fuel = some result) (hP : P result) : Terminates run P :=
  ⟨result, hP, fuel, fun fuel' hle => h fuel fuel' result hle hrun⟩

/-- Where two runs that follow one another have a result, so has the first of them. -/
theorem FuelMonotone.exists_of_bind (h : FuelMonotone run) {next : α → Option β} {fuel : Nat}
    {b : β} (hb : (run fuel).bind next = some b) :
    ∃ a, Terminates run (· = a) ∧ next a = some b := by
  obtain ⟨a, hrun, hnext⟩ := Option.bind_eq_some_iff.mp hb
  exact ⟨a, h.terminates hrun rfl, hnext⟩

theorem Terminates.imp (h : Terminates run P) (hPQ : ∀ a, P a → Q a) : Terminates run Q := by
  obtain ⟨result, hP, hrun⟩ := h
  exact ⟨result, hPQ result hP, hrun⟩

/-- What a run comes to satisfies all that is known of it. -/
theorem Terminates.exists_and (h : Terminates run P) (h' : Terminates run Q) : ∃ a, P a ∧ Q a := by
  obtain ⟨a, ha, N, hrun⟩ := h
  obtain ⟨b, hb, N', hrun'⟩ := h'
  obtain rfl : a = b := Option.some.inj
    ((hrun _ (Nat.le_max_left N N')).symm.trans (hrun' _ (Nat.le_max_right N N')))
  exact ⟨a, ha, hb⟩

theorem Terminates.of_eq {a : α} (hrun : ∀ fuel, run fuel = some a) (ha : P a) :
    Terminates run P :=
  ⟨a, ha, 0, fun fuel _ => hrun fuel⟩

/-- Runs follow one another. -/
theorem Terminates.bind {next : Nat → α → Option β} {P' : β → Prop} (h : Terminates run P)
    (hnext : ∀ a, P a → Terminates (fun fuel => next fuel a) P') :
    Terminates (fun fuel => (run fuel).bind (next fuel)) P' := by
  obtain ⟨a, ha, N, hrun⟩ := h
  obtain ⟨b, hb, M, hnext⟩ := hnext a ha
  refine ⟨b, hb, max N M, fun fuel hle => ?_⟩
  have hN : N ≤ fuel := by omega
  have hM : M ≤ fuel := by omega
  show (run fuel).bind (next fuel) = some b
  rw [hrun fuel hN, Option.bind_some]
  exact hnext fuel hM

/-- What a run comes to that goes on behind one that terminates. -/
theorem Terminates.bind_iff {next : α → Option β} {b : β} (h : Terminates run P) :
    Terminates (fun fuel => (run fuel).bind next) (· = b) ↔
      ∃ a, Terminates run (· = a) ∧ next a = some b := by
  constructor
  · obtain ⟨a, -, N, hrun⟩ := h
    rintro ⟨_, rfl, M, hb⟩
    have hnext : (run (max N M)).bind next = _ := hb (max N M) (Nat.le_max_right N M)
    rw [hrun _ (Nat.le_max_left N M)] at hnext
    exact ⟨a, ⟨a, rfl, N, hrun⟩, hnext⟩
  · rintro ⟨a, ha, hnext⟩
    apply ha.bind
    rintro _ rfl
    exact .of_eq (fun _ => hnext) rfl

end Terminates

variable {σ Msg Fault : Type}

/-- **More fuel does not change a result** of an event loop. -/
theorem Loop.runFrom_mono (script : Script σ Msg Fault) (first : Nat) (loop : Loop Msg Fault)
    (state : σ) : FuelMonotone fun fuel => Loop.runFrom script first fuel loop state := by
  intro fuel fuel' result hle hrun
  induction fuel generalizing fuel' loop state with
  | zero => cases hrun
  | succ fuel ih =>
    obtain ⟨fuel', rfl⟩ : ∃ n, fuel' = n + 1 := ⟨fuel' - 1, by omega⟩
    -- The two runs part only behind the first delivery.
    simp only [Loop.runFrom] at hrun ⊢
    split at hrun
    · exact hrun
    · split at hrun
      · exact hrun
      · split at hrun
        · exact hrun
        · exact ih _ _ _ (by omega) hrun

end Humus.Dispatch
