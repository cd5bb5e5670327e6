import Humus.Proofs.Dispatch.Unseen
import Humus.Proofs.Peg.Guests

/-!
# Pending memos

A cell that was set to work by a run that never finished is left with a pending memo: its customers
wait for messages that were discarded. Only a message to that cell can tell, and as nobody works for
the cell any more, the only such message is one that asks for its cursor. It is not answered.

## Main definitions

* `World.withMemos w memos`: the world with other memos in some of its cells
* `Apart memos q w`: the messages `q` and those who wait in `w` do not work for those cells
* `Delivery.Asks E m`: the message asks a cell of `E` for its cursor

## Main results

* `receive_withMemos`: a message to another cell is handled alike
* `receive_of_asks_pending`: a cell that is left pending does not answer
* `unseen_withMemos`: the other memos are seen by the messages that ask for them only
-/

namespace Humus.Peg

open Dispatch (Effect Unseen)

variable {V : Type}

/-- The world in which the cells have these memos, if one is given. -/
def World.withMemos (w : World V) (memos : Nat → Option (Memo V)) : World V :=
  { w with cells := w.cells.mapIdx fun id cell =>
      { cell with memo := (memos id).getD cell.memo } }

/-- The message asks a cell of `E` for its cursor. -/
def Delivery.Asks (E : Nat → Prop) (m : Delivery V) : Prop :=
  ∃ id customer, m = .ask (.derived id) customer ∧ E id

/-- The messages `q` and those who wait for a cell do not work for a cell whose memo is another.
Neither are there such cells to be added. -/
structure Apart (memos : Nat → Option (Memo V)) (q : List (Delivery V)) (w : World V) : Prop where
  messages : ∀ m ∈ q, m.Among fun id => memos id = none
  customers : ∀ id, ∀ customer ∈ w.customers id, customer.Among fun id => memos id = none
  new : ∀ id, w.cells.size ≤ id → memos id = none

variable {memos : Nat → Option (Memo V)} {w w' : World V} {id : Nat} {m : Delivery V}
  {q : List (Delivery V)}

/-! ## Cells with other memos -/

namespace World

theorem getElem?_withMemos (w : World V) (memos : Nat → Option (Memo V)) (id : Nat) :
    (w.withMemos memos).cells[id]? =
      w.cells[id]?.map fun cell => { cell with memo := (memos id).getD cell.memo } := by
  rw [withMemos, Array.getElem?_mapIdx]

theorem getElem?_withMemos_of_none (w : World V) (h : memos id = none) :
    (w.withMemos memos).cells[id]? = w.cells[id]? := by
  rw [getElem?_withMemos, h]
  exact Option.map_id_apply

@[simp] theorem size_withMemos (w : World V) (memos : Nat → Option (Memo V)) :
    (w.withMemos memos).cells.size = w.cells.size := by
  simp [withMemos]

theorem customers_withMemos_of_none (w : World V) (h : memos id = none) :
    (w.withMemos memos).customers id = w.customers id :=
  customers_congr (w.getElem?_withMemos_of_none h)

theorem setMemo_withMemos (w : World V) (h : memos id = none) (memo : Memo V) :
    (w.withMemos memos).setMemo id memo = (w.setMemo id memo).withMemos memos := by
  have hcells : ((w.withMemos memos).setMemo id memo).cells =
      ((w.setMemo id memo).withMemos memos).cells := by
    apply Array.ext_getElem?
    intro i
    rw [getElem?_setMemo, getElem?_withMemos, getElem?_withMemos, getElem?_setMemo]
    by_cases hi : id = i
    · subst hi
      rw [if_pos rfl, if_pos rfl, h, Option.map_map, Option.map_map]
      rfl
    · rw [if_neg hi, if_neg hi]
  exact congrArg (fun cells => { w with cells }) hcells

theorem addCell_withMemos (w : World V) (h : memos w.cells.size = none) (cell : Cell V) :
    (w.withMemos memos).addCell cell =
      ((w.addCell cell).1, (w.addCell cell).2.withMemos memos) := by
  have hcells : ((w.withMemos memos).addCell cell).2.cells =
      ((w.addCell cell).2.withMemos memos).cells := by
    simp only [addCell, withMemos, Array.mapIdx_push, h, Option.getD_none]
  refine Prod.ext (w.size_withMemos memos) ?_
  exact congrArg (fun cells => { w with cells }) hcells

theorem sealGrammar_with_cells (w : World V) (cells : Array (Cell V)) (id : Nat) :
    ({ w with cells } : World V).sealGrammar id = { w.sealGrammar id with cells } := by
  have hgrammar : ({ w with cells } : World V).grammar? id = w.grammar? id := rfl
  unfold sealGrammar
  rw [hgrammar]
  split
  · split_ifs <;> rfl
  · rfl

end World

/-! ## What stays apart -/

/-- A message that does not ask for a cell with another memo is handled by a cell without. -/
theorem Apart.cell? (h : Apart memos (m :: q) w) (hm : ¬ m.Asks fun id => memos id ≠ none)
    (id : Nat) (hcell? : m.cell? = some id) : memos id = none := by
  rcases (h.messages m List.mem_cons_self).cell? hcell? with hid | ⟨customer, rfl⟩
  · exact hid
  · by_contra hid
    exact hm ⟨id, customer, rfl, hid⟩

/-! ## What is handled alike -/

theorem resolve_withMemos (w : World V) (h : memos id = none) (c : Cursor V) :
    resolve id c (w.withMemos memos) =
      ((resolve id c w).1, (resolve id c w).2.withMemos memos) := by
  rw [resolve_eq, resolve_eq, w.customers_withMemos_of_none h, w.setMemo_withMemos h]

theorem resolveMatch_withMemos (w : World V) (h : memos id = none)
    (hnew : memos w.cells.size = none) (cell : Cell V) (here : Cursor V) (s : Success V) :
    resolveMatch cell id here s (w.withMemos memos) =
      ((resolveMatch cell id here s w).1, (resolveMatch cell id here s w).2.withMemos memos) := by
  unfold resolveMatch
  split_ifs
  · exact resolve_withMemos w h _
  · simp only [w.addCell_withMemos hnew]
    exact resolve_withMemos _ h _

theorem askCell_withMemos (w : World V) (h : memos id = none) (customer : OnCursor V) :
    askCell id customer (w.withMemos memos) =
      ((askCell id customer w).1, (askCell id customer w).2.withMemos memos) := by
  have hcell := w.getElem?_withMemos_of_none h
  rcases hget : w.cells[id]? with _ | cell
  · rw [hget] at hcell
    simp only [askCell, hget, hcell]
  · rw [hget] at hcell
    cases hmemo : cell.memo with
    | idle =>
      rw [askCell_idle customer hcell hmemo, askCell_idle customer hget hmemo,
        w.setMemo_withMemos h]
    | pending customers =>
      simp only [askCell, hget, hcell, hmemo, w.setMemo_withMemos h]
    | ready c => simp only [askCell, hget, hcell, hmemo]

section Receiving

variable [MatchValue V] [DecidableEq V]

/-- What is done with a message that no cell handles does not depend on the cells. -/
theorem receive_with_cells (hm : m.cell? = none) (w : World V) (cells : Array (Cell V)) :
    receive m { w with cells } = ((receive m w).1, { (receive m w).2 with cells }) := by
  cases m with
  | request p r =>
    cases p with
    | rule ref =>
      have hrulebook : ({ w with cells } : World V).rulebook = w.rulebook := rfl
      show matchRule ref r { w with cells } =
        ((matchRule ref r w).1, { (matchRule ref r w).2 with cells })
      rw [matchRule_eq, matchRule_eq, hrulebook, w.sealGrammar_with_cells]
      split <;> rfl
    | _ => rfl
  | tallied | ignored => rfl
  | success ok s =>
    cases ok with
    | skipped | lexed => cases hm
    | transform ref f ok =>
      simp only [receive, onSuccess]
      split <;> rfl
    | report | nextItem | again | found | unwanted => rfl
  | failure onFailed f =>
    cases onFailed with
    | unskipped | unlexed => cases hm
    | report | backTo | nextAlternative | enough | missing | absent | relabel => rfl
  | cursor customer c =>
    cases customer with
    | reader => cases hm
    | consumed | matcher | walker => rfl
  | ask s customer =>
    cases s with
    | derived => cases hm
    | chars | values | fixed | silent => rfl

/-- **A message to another cell is handled alike.** -/
theorem receive_withMemos (hm : ∀ id, m.cell? = some id → memos id = none)
    (hnew : memos w.cells.size = none) :
    receive m (w.withMemos memos) = ((receive m w).1, (receive m w).2.withMemos memos) := by
  -- what no cell handles is done whatever the cells are
  rcases hcell? : m.cell? with _ | id
  · have hcells := (receive_of_no_cell hcell? w).1
    rw [World.withMemos, receive_with_cells hcell?, World.withMemos, hcells]
  have hid := hm id hcell?
  have hget := w.getElem?_withMemos_of_none hid
  cases m with
  | request | tallied | ignored => cases hcell?
  | success ok s =>
    cases ok with
    | report | nextItem | again | found | unwanted | transform => cases hcell?
    | skipped =>
      cases hcell?
      simp only [receive, onSuccess, withCell, hget]
      split <;> rfl
    | lexed _ here =>
      cases hcell?
      simp only [receive, onSuccess, withCell, hget]
      split
      · exact resolveMatch_withMemos w hid hnew ..
      · rfl
  | failure onFailed f =>
    cases onFailed with
    | report | backTo | nextAlternative | enough | missing | absent | relabel => cases hcell?
    | unskipped =>
      cases hcell?
      simp only [receive, onFailure, withCell, hget]
      split <;> rfl
    | unlexed _ here =>
      cases hcell?
      simp only [receive, onFailure, withCell, hget]
      split
      · exact resolve_withMemos w hid _
      · rfl
  | cursor customer c =>
    cases customer with
    | consumed | matcher | walker => cases hcell?
    | reader =>
      cases hcell?
      simp only [receive, onCursor, withCell, hget]
      split <;> rfl
  | ask s customer =>
    cases s with
    | chars | values | fixed | silent => cases hcell?
    | derived =>
      cases hcell?
      exact askCell_withMemos w hid customer

/-- Whoever asks a cell that is left pending waits for ever. -/
theorem receive_of_asks_pending (hm : m.Asks fun id => memos id ≠ none)
    (hmemos : ∀ id memo, memos id = some memo → memo.isPending = true) (w : World V) :
    ∃ w', receive m (w.withMemos memos) = ([], w') ∧ w'.answers = w.answers := by
  obtain ⟨id, customer, rfl, hid⟩ := hm
  obtain ⟨memo, hmemo⟩ := Option.ne_none_iff_exists'.mp hid
  -- the message to a missing cell is dropped, and a pending cell queues it
  rcases hget : w.cells[id]? with _ | cell
  · have hmissing : (w.withMemos memos).cells[id]? = none := by
      rw [w.getElem?_withMemos, hget]
      rfl
    exact ⟨_, receive_of_missing rfl hmissing, rfl⟩
  · have hcell : (w.withMemos memos).cells[id]? = some { cell with memo } := by
      rw [w.getElem?_withMemos, hget, hmemo]
      rfl
    cases memo with
    | pending customers =>
      refine ⟨(w.withMemos memos).setMemo id (.pending (customers ++ [customer])), ?_, rfl⟩
      show askCell id customer (w.withMemos memos) = _
      simp only [askCell, hcell]
    | idle | ready => cases hmemos id _ hmemo

/-! ## The difference stays unseen -/

/-- A message that does not ask for a cell with another memo leaves everything apart. -/
theorem Apart.receive (h : Apart memos (m :: q) w) (hm : ¬ m.Asks fun id => memos id ≠ none) :
    EffectsAmong (fun id => memos id = none) (receive m w).1 ∧
      (∀ id, ∀ customer ∈ (receive m w).2.customers id,
        customer.Among fun id => memos id = none) ∧
      w.cells.size ≤ (receive m w).2.cells.size := by
  have hamong := h.messages m List.mem_cons_self
  rcases hcell? : m.cell? with _ | id
  · obtain ⟨hcells, -, heffects⟩ := receive_of_no_cell hcell? w
    refine ⟨heffects _ hamong, fun id => ?_, by rw [hcells]⟩
    rw [World.customers_congr (w := w) (by rw [hcells])]
    exact h.customers id
  rcases hcell : w.cells[id]? with _ | cell
  · rw [receive_of_missing hcell? hcell]
    exact ⟨.nil, h.customers, Nat.le_refl _⟩
  · have hdoes := receive_does hcell? hcell
    obtain ⟨heffects, hcustomers⟩ :=
      hdoes.among hcell (h.cell? hm id hcell?) hamong (h.customers id)
    refine ⟨heffects, fun i customer hcustomer => ?_, hdoes.frame.2.1⟩
    exact (hcustomers i customer hcustomer).elim (h.customers i customer) fun h => h

/-- **Other memos are seen by the messages that ask for them only.** -/
theorem unseen_withMemos (memos : Nat → Option (Memo V)) :
    Unseen receive (Delivery.Asks fun id => memos id ≠ none) (·.withMemos memos)
      (Apart memos) where
  script_eq m q w h hm := receive_withMemos (h.cell? hm) (h.new _ (Nat.le_refl _))
  keeps m q w q' h hm hq' := by
    obtain ⟨hsent, hcustomers, hsize⟩ := h.receive hm
    refine ⟨fun m' hm' => ?_, hcustomers, fun id hid => h.new id (hsize.trans hid)⟩
    rcases hq' m' hm' with hm' | hm'
    · exact h.messages m' (List.mem_cons_of_mem _ hm')
    · exact hsent.among m' hm'

end Receiving

end Humus.Peg
