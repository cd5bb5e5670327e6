import Humus.Proofs.Peg.Reference
import Humus.Proofs.Peg.Totality

/-!
# Matches in lists of tokens

A row of tokens stands between two places of an input when they are read one after the other. What
is derived from a place of a list of tokens is what a parse from the cursor of that place comes to.

## Main definitions

* `Tape.Holds T x v y`: the token `v` stands at `x`, and `y` comes behind it
* `Tape.Row T x l y`: the tokens `l` stand from `x` up to `y`
* `Tape.Straight T`: behind each token stands one place, and it comes later

## Main results

* `Tape.row_append`: rows follow one another
* `parse_reports`, `parseAt_reports`: what is derived is reported by a parse
* `parse_ok_iff`: the parses that succeed
-/

namespace Humus.Peg

open Dispatch (Terminates)

variable {C V : Type}

namespace Tape

/-- The token `v` stands at `x`, and `y` comes behind it. -/
structure Holds (T : Tape C V) (x : C) (v : V) (y : C) : Prop where
  token? : T.token? x = some v
  next : T.next x (.ok y)
  lt : T.offset x < T.offset y

/-- The tokens `l` stand from `x` up to `y`. -/
inductive Row (T : Tape C V) : C → List V → C → Prop where
  | nil {x} : Row T x [] x
  | cons {x y z v l} : T.Holds x v y → Row T y l z → Row T x (v :: l) z

variable {T : Tape C V} {x y z : C} {v : V} {l l' : List V}

@[simp] theorem row_nil : T.Row x [] y ↔ x = y := by
  constructor
  · rintro ⟨⟩
    rfl
  · rintro rfl
    exact .nil

@[simp] theorem row_cons : T.Row x (v :: l) z ↔ ∃ y, T.Holds x v y ∧ T.Row y l z := by
  constructor
  · rintro (_ | ⟨hv, hl⟩)
    exact ⟨_, hv, hl⟩
  · rintro ⟨y, hv, hl⟩
    exact .cons hv hl

/-- Rows follow one another. -/
@[simp] theorem row_append : T.Row x (l ++ l') z ↔ ∃ y, T.Row x l y ∧ T.Row y l' z := by
  induction l generalizing x with
  | nil => simp
  | cons v l ih =>
    simp only [List.cons_append, row_cons, ih]
    constructor
    · rintro ⟨y, hv, y', hl, hl'⟩
      exact ⟨y', ⟨y, hv, hl⟩, hl'⟩
    · rintro ⟨y', ⟨y, hv, hl⟩, hl'⟩
      exact ⟨y, hv, y', hl, hl'⟩

theorem Row.offset_le (h : T.Row x l y) : T.offset x ≤ T.offset y := by
  induction h with
  | nil => exact le_rfl
  | cons hv _ ih => exact hv.lt.le.trans ih

/-- A row that is not empty leads to a later place. -/
theorem Row.offset_lt (h : T.Row x l y) (hl : l ≠ []) : T.offset x < T.offset y := by
  rcases h with _ | ⟨hv, hl⟩
  · exact absurd rfl hl
  · exact hv.lt.trans_le hl.offset_le

end Tape

/-- Behind each token stands one place, and it comes later. -/
structure Tape.Straight (T : Tape C V) : Prop where
  unique {x r r'} : T.next x r → T.next x r' → r' = r
  exists_next {x v} : T.token? x = some v → ∃ y, T.next x (.ok y)
  lt {x y} : T.next x (.ok y) → T.offset x < T.offset y

theorem Tape.Straight.exists_holds {T : Tape C V} (hT : T.Straight) {x : C} {v : V}
    (hx : T.token? x = some v) : ∃ y, T.Holds x v y := by
  obtain ⟨y, hy⟩ := hT.exists_next hx
  exact ⟨y, hx, hy, hT.lt hy⟩

variable [MatchValue V]

/-- Over a straight input a match comes to one verdict. -/
theorem Tape.Straight.derives_unique [DecidableEq V] {T : Tape C V} {R : Rulebook V}
    (hT : T.Straight) {task : Task C V} {x : C} {o o' : Verdict C V} (h : Derives T R task x o)
    (h' : Derives T R task x o') : o' = o :=
  h.agree (fun _ => rfl) (fun _ => rfl) (fun _ _ _ => hT.unique) o' h'

/-- Over a straight input a match does not go back. -/
theorem Tape.Straight.offset_le [DecidableEq V] {T : Tape C V} {R : Rulebook V} (hT : T.Straight)
    {p : Pattern V} {x y : C} {v : V} (h : Derives T R (.whole p) x (.matched y v)) :
    T.offset x ≤ T.offset y :=
  h.all (I := fun z => T.offset x ≤ T.offset z) (fun _ _ hz hnext => hz.trans (hT.lt hnext).le)
    trivial le_rfl

/-- A list of tokens is straight. -/
theorem Input.straight_items (items : List V) : (Input.items items).tape.Straight where
  unique h h' := h'.2.trans h.2.symm
  exists_next {i v} hx := by
    obtain ⟨hi, -⟩ : ∃ h : i < items.length, items[i] = v := List.getElem?_eq_some_iff.mp hx
    exact ⟨i + 1, hi, rfl⟩
  lt := by
    rintro i _ ⟨-, ⟨⟩⟩
    exact Nat.lt_succ_self i

/-- A token that stands somewhere is matched there. -/
theorem Tape.Holds.terminal [DecidableEq V] {T : Tape C V} {R : Rulebook V} {x y : C} {v : V}
    (h : T.Holds x v y) : Derives T R (.whole (.terminal v)) x (.matched y v) :=
  .terminal (.token h.token? (decide_eq_true rfl) h.next)

/-- The tokens in the middle of a list stand in its input. -/
theorem row_items_append (before l after : List V) :
    (Input.items (before ++ l ++ after)).tape.Row before.length l (before ++ l).length := by
  induction l generalizing before with
  | nil =>
    rw [List.append_nil]
    exact .nil
  | cons v l ih =>
    have hrest := ih (before ++ [v])
    simp only [List.append_assoc, List.singleton_append, List.length_append,
      List.length_singleton] at hrest
    simp only [List.append_assoc, List.cons_append, List.length_append]
    refine .cons ⟨?_, ⟨?_, rfl⟩, ?_⟩ hrest
    · show (before ++ v :: (l ++ after))[before.length]? = some v
      simp
    · show before.length < (before ++ v :: (l ++ after)).length
      simp
    · exact Nat.lt_succ_self before.length

/-- The tokens of a list stand in its input, from any place on. -/
theorem row_items (before l : List V) :
    (Input.items (before ++ l)).tape.Row before.length l (before ++ l).length := by
  have hrow := row_items_append before l []
  rwa [List.append_nil] at hrow

variable [DecidableEq V] {w : World V} {p : Pattern V} {o : Verdict Nat V}

/-- **What is derived is reported** by a parse of the input. -/
theorem parse_reports (input : Input V) (ho : Derives input.tape w.rulebook (.whole p) 0 o) :
    Terminates (fun fuel => parse fuel none p input.stream w) fun r =>
      r.1.report = o.report input.position 0 := by
  obtain ⟨fuel, out, w', hrun, hreport⟩ :=
    (parse_iff_derives input p w (o.report input.position 0)).mpr ⟨o, ho, rfl⟩
  exact (runMatch_mono none (.ask input.stream (matcher p 0)) w).terminates hrun hreport

/-- **A parse succeeds with a value if and only if** a match with that value is derived. -/
theorem parse_ok_iff (input : Input V) (v : V) :
    (Terminates (fun fuel => parse fuel none p input.stream w) fun r =>
      ∃ s, r.1 = .ok s ∧ s.value = v) ↔
      ∃ y, Derives input.tape w.rulebook (.whole p) 0 (.matched y v) := by
  constructor
  · rintro ⟨⟨_, w'⟩, ⟨s, rfl, rfl⟩, N, hrun⟩
    obtain ⟨o, ho, hreport⟩ := (parse_iff_derives input p w _).mp ⟨N, _, w', hrun N le_rfl, rfl⟩
    cases o with
    | matched y v =>
      injection hreport with _ _ hv
      exact ⟨y, hv ▸ ho⟩
    | refused r => cases hreport
    | broken b => cases b <;> cases hreport
  · rintro ⟨y, ho⟩
    apply (parse_reports input ho).imp
    intro r hreport
    obtain ⟨s, hs, -, -, hv⟩ := Outcome.exists_ok hreport
    exact ⟨s, hs, hv⟩

omit [MatchValue V] [DecidableEq V] in
theorem getElem?_valuePlaces {index : Nat} {items : List V} {k : Nat} (hk : k ≤ items.length) :
    (valuePlaces index items)[k]? = some (valuePlace (index + k) (items.drop k)) := by
  induction items generalizing index k with
  | nil =>
    obtain rfl : k = 0 := Nat.le_zero.mp hk
    rfl
  | cons v items ih =>
    rcases k with _ | k
    · rfl
    · have hplace : (valuePlaces (index + 1) items)[k]? =
          some (valuePlace (index + 1 + k) (items.drop k)) := ih (Nat.le_of_succ_le_succ hk)
      rw [show index + 1 + k = index + (k + 1) by omega] at hplace
      exact hplace

/-- **What is derived is reported** by a parse from any cursor of a list. -/
theorem parseAt_reports {items : List V} {k : Nat} (hk : k ≤ items.length)
    (ho : Derives (Input.items items).tape w.rulebook (.whole p) k o) :
    Terminates (fun fuel => parseAt fuel none p (valueCursor k (items.drop k)) w) fun r =>
      r.1.report = o.report (Input.items items).position k := by
  have hx : (valuePlaces 0 items)[k]? = some (valuePlace (0 + k) (items.drop k)) :=
    getElem?_valuePlaces hk
  rw [Nat.zero_add] at hx
  have hposition : ∀ i x, (valuePlaces 0 items)[i]? = some x →
      (Input.items items).position i = x.position := by
    intro i x hi
    have hi := position_of_valuePlaces hi
    rwa [Nat.zero_add] at hi
  -- the cursor is the one that stands at the place
  have hreport := (walks_values 0 items w.rulebook).parseAt_report_iff .empty hposition
    (place?_valueCursor _ k (items.drop k)) hx p (o.report (Input.items items).position k)
  rw [filterMap_valuePlaces] at hreport
  obtain ⟨fuel, out, w', hrun, hout⟩ := hreport.mpr ⟨o, ho, rfl⟩
  exact (runMatch_mono none (.cursor (matcher p 0) _) w).terminates hrun hout

end Humus.Peg
