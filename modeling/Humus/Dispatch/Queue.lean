/-!
# Queues

A first-in, first-out queue: the front list is taken from, the back list, newest first, is added
to, and the back is reversed when the front runs out.

## Main definitions

* `Queue α`: a queue
* `Queue.toList`: its items, the next one first

## Main results

* `toList_push`, `exists_pop?`, `pop?_eq_none_iff`: the operations on the list view
-/

namespace Humus.Dispatch

/-- A first-in, first-out queue. -/
structure Queue (α : Type) where
  /-- The next items, in order. -/
  front : List α := []
  /-- The items after them, newest first. -/
  back : List α := []

namespace Queue

variable {α : Type}

/-- The queue without items. -/
def empty : Queue α := {}

/-- The items, the next one first. -/
def toList (q : Queue α) : List α :=
  q.front ++ q.back.reverse

/-- Add an item behind all others. -/
def push (q : Queue α) (a : α) : Queue α :=
  { q with back := a :: q.back }

/-- The next item and the queue without it. -/
def pop? : Queue α → Option (α × Queue α)
  | ⟨a :: front, back⟩ => some (a, ⟨front, back⟩)
  | ⟨[], back⟩ =>
    match back.reverse with
    | [] => none
    | a :: front => some (a, ⟨front, []⟩)

/-- The number of items. -/
def size (q : Queue α) : Nat :=
  q.front.length + q.back.length

/-- Whether there is no item. -/
def isEmpty (q : Queue α) : Bool :=
  q.front.isEmpty && q.back.isEmpty

@[simp] theorem toList_empty : (empty : Queue α).toList = [] := rfl

@[simp] theorem toList_push (q : Queue α) (a : α) : (q.push a).toList = q.toList ++ [a] := by
  simp [toList, push]

@[simp] theorem length_toList (q : Queue α) : q.toList.length = q.size := by
  simp [toList, size]

theorem isEmpty_iff (q : Queue α) : q.isEmpty = true ↔ q.toList = [] := by
  simp [isEmpty, toList]

theorem toList_of_pop? {q r : Queue α} {a : α} (h : q.pop? = some (a, r)) :
    q.toList = a :: r.toList := by
  obtain ⟨_ | ⟨b, front⟩, back⟩ := q
  · simp only [pop?] at h
    split at h
    · simp at h
    · rename_i hb
      obtain ⟨rfl, rfl⟩ := Prod.mk.inj (Option.some.inj h)
      simp [toList, hb]
  · obtain ⟨rfl, rfl⟩ := Prod.mk.inj (Option.some.inj h)
    simp [toList]

theorem pop?_eq_none_iff (q : Queue α) : q.pop? = none ↔ q.toList = [] := by
  constructor
  · intro h
    obtain ⟨_ | ⟨b, front⟩, back⟩ := q
    · simp only [pop?] at h
      split at h
      · simp_all [toList]
      · simp at h
    · simp [pop?] at h
  · intro h
    cases hp : q.pop? with
    | none => rfl
    | some p => rw [toList_of_pop? hp] at h; simp at h

theorem exists_pop? {q : Queue α} {a : α} {as : List α} (h : q.toList = a :: as) :
    ∃ r, q.pop? = some (a, r) ∧ r.toList = as := by
  rcases hp : q.pop? with _ | ⟨b, r⟩
  · rw [(pop?_eq_none_iff q).mp hp] at h
    cases h
  · rw [toList_of_pop? hp] at h
    obtain ⟨rfl, hr⟩ := List.cons.inj h
    exact ⟨r, rfl, hr⟩

end Queue

end Humus.Dispatch
