import Humus.Proofs.Peg.Answering
import Humus.Proofs.Peg.Lasting

/-!
# Ledgers

A ledger lists the strands of a running event loop. Every message on its way belongs to one strand,
and so does every customer that waits for a cell of the chart. A busy cell has one strand that
works for it. Each delivery changes the entry of one strand: it goes on, begins to wait, ends, or
ends and lets all those go on that waited for it.

Besides the strands that are known to come to their end there may be guests, of which nothing is
known but that they do not work for a cell of the chart.

## Main definitions

* `World.customers w id`, `World.isBusy w id`: who waits for a cell, and whether it is being computed
* `Delivery.Among E m`: the message is not for the work of a cell that is not in `E`
* `Strand V`: an entry of a ledger
* `Ledger R Q chart L q w`: the ledger `L` accounts for the queue `q` and the world `w`
* `Move R chart m L w chart' L' ms w'`: what the delivery of the message of a strand changes

## Main results

* `Lasts.exists_move`: a strand that comes to an end makes a move
* `Lexed.resolves`: a cell that is told the verdict on its token is done
-/

namespace Humus.Peg

open Dispatch (Effect)

variable {V : Type}

/-! ## Busy cells -/

/-- Who waits for the cursor of a cell. -/
def Memo.customers : Memo V → List (OnCursor V)
  | .pending customers => customers
  | .idle | .ready _ => []

namespace World

/-- Who waits for the cell of this number. -/
def customers (w : World V) (id : Nat) : List (OnCursor V) :=
  match w.cells[id]? with
  | some cell => cell.memo.customers
  | none => []

/-- Whether the cell of this number is being computed. -/
def isBusy (w : World V) (id : Nat) : Bool :=
  w.cells[id]?.any (·.memo.isPending)

theorem customers_congr {w w' : World V} {id : Nat} (h : w'.cells[id]? = w.cells[id]?) :
    w'.customers id = w.customers id := by
  rw [customers, customers, h]

theorem isBusy_congr {w w' : World V} {id : Nat} (h : w'.cells[id]? = w.cells[id]?) :
    w'.isBusy id = w.isBusy id := by
  rw [isBusy, isBusy, h]

theorem customers_of_cell {w : World V} {id : Nat} {cell : Cell V} (h : w.cells[id]? = some cell) :
    w.customers id = cell.memo.customers := by
  rw [customers, h]

theorem isBusy_of_cell {w : World V} {id : Nat} {cell : Cell V} (h : w.cells[id]? = some cell) :
    w.isBusy id = cell.memo.isPending := by
  rw [isBusy, h, Option.any_some]

/-- Only for a busy cell customers wait. -/
theorem isBusy_of_mem_customers {w : World V} {id : Nat} {customer : OnCursor V}
    (h : customer ∈ w.customers id) : w.isBusy id = true := by
  unfold customers at h
  unfold isBusy
  cases hcell : w.cells[id]? with
  | none => simp [hcell] at h
  | some cell =>
    rw [hcell] at h
    cases hm : cell.memo with
    | pending => simp [hm, Memo.isPending]
    | idle | ready => simp [hm, Memo.customers] at h

theorem customers_eq_nil_of_not_isBusy {w : World V} {id : Nat} (h : w.isBusy id = false) :
    w.customers id = [] := by
  rw [List.eq_nil_iff_forall_not_mem]
  intro customer hcustomer
  rw [isBusy_of_mem_customers hcustomer] at h
  cases h

theorem customers_setMemo_self {w : World V} {id : Nat} {memo : Memo V} (h : id < w.cells.size) :
    (w.setMemo id memo).customers id = memo.customers := by
  rw [customers, getElem?_setMemo, if_pos rfl, Array.getElem?_eq_getElem h]
  rfl

theorem isBusy_setMemo_self {w : World V} {id : Nat} {memo : Memo V} (h : id < w.cells.size) :
    (w.setMemo id memo).isBusy id = memo.isPending := by
  rw [isBusy, getElem?_setMemo, if_pos rfl, Array.getElem?_eq_getElem h]
  rfl

theorem getElem?_setMemo_of_ne {w : World V} {id i : Nat} (memo : Memo V) (h : i ≠ id) :
    (w.setMemo id memo).cells[i]? = w.cells[i]? := by
  rw [getElem?_setMemo, if_neg (Ne.symm h)]

/-- Who waits after a memo was changed waits for the cell of the memo, or waited before. -/
theorem mem_customers_setMemo {w : World V} {id i : Nat} {memo : Memo V} {customer : OnCursor V}
    (h : customer ∈ (w.setMemo id memo).customers i) :
    customer ∈ memo.customers ∨ customer ∈ w.customers i := by
  by_cases hi : i = id
  · subst hi
    rw [customers, getElem?_setMemo, if_pos rfl] at h
    cases hget : w.cells[i]? with
    | none => rw [hget] at h; cases h
    | some cell => rw [hget] at h; exact .inl h
  · rw [customers_congr (getElem?_setMemo_of_ne memo hi)] at h
    exact .inr h

theorem getElem?_addCell {w : World V} {cell : Cell V} {i : Nat} (h : i < w.cells.size) :
    (w.addCell cell).2.cells[i]? = w.cells[i]? := by
  rw [addCell, Array.getElem?_push, if_neg h.ne]

/-- Only the cell that is added comes behind the old cells. -/
theorem eq_of_getElem?_addCell {w : World V} {next cell : Cell V} {i : Nat}
    (hle : w.cells.size ≤ i) (hcell : (w.addCell next).2.cells[i]? = some cell) : cell = next := by
  rw [addCell, Array.getElem?_push] at hcell
  split_ifs at hcell
  · exact (Option.some.inj hcell).symm
  · exact absurd (Array.getElem?_eq_some_iff.mp hcell).1 hle.not_gt

end World

/-- A cell that is done gives its cursor to all who wait. -/
theorem resolve_eq (id : Nat) (c : Cursor V) (w : World V) :
    resolve id c w =
      (((w.customers id).map (Delivery.cursor · c)).map .send, w.setMemo id (.ready c)) := by
  have hcustomers : ∀ customers : List (OnCursor V), customers.flatMap (deliver · c) =
      (customers.map (Delivery.cursor · c)).map .send := by
    intro customers
    induction customers with
    | nil => rfl
    | cons customer customers ih =>
      rw [List.flatMap_cons, ih]
      rfl
  simp only [resolve, World.customers, hcustomers]
  cases w.cells[id]? with
  | none => rfl
  | some cell =>
    obtain ⟨base, skip, token, index, memo⟩ := cell
    cases memo <;> rfl

/-! ## Guests -/

mutual

/-- The cells that are told of the success are in `E`. -/
def OnSuccess.Among (E : Nat → Prop) : OnSuccess V → Prop
  | .report _ => True
  | .nextItem _ _ _ ok fail | .again _ _ _ _ ok fail => OnSuccess.Among E ok ∧ OnFailure.Among E fail
  | .found ok | .transform _ _ ok => OnSuccess.Among E ok
  | .unwanted _ fail => OnFailure.Among E fail
  | .skipped id | .lexed id _ => E id

/-- The cells that are told of the failure are in `E`. -/
def OnFailure.Among (E : Nat → Prop) : OnFailure V → Prop
  | .report _ => True
  | .backTo _ fail | .relabel _ fail => OnFailure.Among E fail
  | .nextAlternative _ _ _ ok fail | .enough _ _ _ _ ok fail =>
    OnSuccess.Among E ok ∧ OnFailure.Among E fail
  | .missing _ ok | .absent _ ok => OnSuccess.Among E ok
  | .unskipped id _ | .unlexed id _ => E id

end

/-- The cells that are given the cursor, or told of what it leads to, are in `E`. -/
def OnCursor.Among (E : Nat → Prop) : OnCursor V → Prop
  | .consumed _ _ ok => ok.Among E
  | .matcher _ ok fail => ok.Among E ∧ fail.Among E
  | .walker => True
  | .reader id => E id

/-- The cells whose work the message is for are in `E`. -/
def Delivery.Among (E : Nat → Prop) : Delivery V → Prop
  | .request _ r | .tallied _ _ r => r.ok.Among E ∧ r.fail.Among E
  | .ignored => True
  | .success customer _ => customer.Among E
  | .failure customer _ => customer.Among E
  | .cursor customer _ | .ask _ customer => customer.Among E

section Among

variable {E E' : Nat → Prop}

mutual

theorem OnSuccess.Among.mono (h : ∀ id, E id → E' id) :
    ∀ {c : OnSuccess V}, c.Among E → c.Among E'
  | .report _, _ => trivial
  | .nextItem .., hc | .again .., hc =>
    ⟨OnSuccess.Among.mono h hc.1, OnFailure.Among.mono h hc.2⟩
  | .found ok, hc | .transform _ _ ok, hc => OnSuccess.Among.mono (c := ok) h hc
  | .unwanted _ fail, hc => OnFailure.Among.mono (c := fail) h hc
  | .skipped id, hc | .lexed id _, hc => h id hc

theorem OnFailure.Among.mono (h : ∀ id, E id → E' id) :
    ∀ {c : OnFailure V}, c.Among E → c.Among E'
  | .report _, _ => trivial
  | .backTo _ fail, hc | .relabel _ fail, hc => OnFailure.Among.mono (c := fail) h hc
  | .nextAlternative .., hc | .enough .., hc =>
    ⟨OnSuccess.Among.mono h hc.1, OnFailure.Among.mono h hc.2⟩
  | .missing _ ok, hc | .absent _ ok, hc => OnSuccess.Among.mono (c := ok) h hc
  | .unskipped id _, hc | .unlexed id _, hc => h id hc

end

theorem OnCursor.Among.mono (h : ∀ id, E id → E' id) {customer : OnCursor V}
    (hc : customer.Among E) : customer.Among E' := by
  cases customer with
  | consumed _ _ ok => exact OnSuccess.Among.mono h hc
  | matcher _ ok fail => exact ⟨hc.1.mono h, hc.2.mono h⟩
  | walker => trivial
  | reader id => exact h id hc

theorem Delivery.Among.mono (h : ∀ id, E id → E' id) {m : Delivery V} (hm : m.Among E) :
    m.Among E' := by
  cases m with
  | request _ r | tallied _ _ r => exact ⟨hm.1.mono h, hm.2.mono h⟩
  | ignored => trivial
  | success customer s => exact OnSuccess.Among.mono h hm
  | failure customer f => exact OnFailure.Among.mono h hm
  | cursor customer c => exact OnCursor.Among.mono h hm
  | ask s customer => exact OnCursor.Among.mono h hm

end Among

/-! ## Entries -/

/-- Where a strand is. -/
inductive Post (V : Type) where
  /-- Its message is on its way. -/
  | afoot (m : Delivery V)
  /-- Its customer waits for a cell. -/
  | waiting (id : Nat) (customer : OnCursor V)

/-- An entry of a ledger. -/
structure Strand (V : Type) where
  /-- Whom the strand works for, `none` for a guest. -/
  owner : Option (Owner V)
  /-- How many deliveries it has left, at most. -/
  left : Nat
  post : Post V

namespace Strand

/-- The message that is on its way. -/
def message? (s : Strand V) : Option (Delivery V) :=
  match s.post with
  | .afoot m => some m
  | .waiting .. => none

/-- The customer that waits for the cell `id`. -/
def customer? (id : Nat) (s : Strand V) : Option (OnCursor V) :=
  match s.post with
  | .waiting i customer => if i = id then some customer else none
  | .afoot _ => none

/-- The cell that the strand works for. -/
def worksFor? (s : Strand V) : Option Nat :=
  match s.owner with
  | some (.cell id _) => some id
  | _ => none

/-- The entry when the cell `id` has given the cursor `c` to those who waited. -/
def serve (id : Nat) (c : Cursor V) (s : Strand V) : Strand V :=
  match s.post with
  | .waiting i customer => if i = id then { s with post := .afoot (.cursor customer c) } else s
  | .afoot _ => s

section Views

variable (owner : Option (Owner V)) (n id i : Nat) (m : Delivery V) (customer : OnCursor V)
  (c : Cursor V) (s : Strand V) (post : Post V) (stage : Stage)

@[simp] theorem message?_afoot : message? ⟨owner, n, .afoot m⟩ = some m := rfl

@[simp] theorem message?_waiting : message? ⟨owner, n, .waiting id customer⟩ = none := rfl

@[simp] theorem customer?_afoot : customer? i ⟨owner, n, .afoot m⟩ = none := rfl

@[simp] theorem customer?_waiting :
    customer? i ⟨owner, n, .waiting id customer⟩ = if id = i then some customer else none := rfl

@[simp] theorem worksFor?_cell : worksFor? ⟨some (.cell id stage), n, post⟩ = some id := rfl

@[simp] theorem serve_afoot : serve id c ⟨owner, n, .afoot m⟩ = ⟨owner, n, .afoot m⟩ := rfl

@[simp] theorem owner_serve : (s.serve id c).owner = s.owner := by
  obtain ⟨owner, n, m | ⟨i, customer⟩⟩ := s
  · rfl
  · simp only [serve]
    split_ifs <;> rfl

@[simp] theorem left_serve : (s.serve id c).left = s.left := by
  obtain ⟨owner, n, m | ⟨i, customer⟩⟩ := s
  · rfl
  · simp only [serve]
    split_ifs <;> rfl

@[simp] theorem worksFor?_serve : (s.serve id c).worksFor? = s.worksFor? := by
  rw [worksFor?, owner_serve, worksFor?]

theorem worksFor?_eq_some_iff :
    s.worksFor? = some id ↔ ∃ stage, s.owner = some (.cell id stage) := by
  obtain ⟨_ | (_ | ⟨i, stage⟩), n, post⟩ := s <;> simp [worksFor?]

end Views

/-- The messages of guests are on their way. -/
theorem message?_map_guest (k : Nat) (ms : List (Delivery V)) :
    (ms.map (⟨none, k, .afoot ·⟩)).filterMap message? = ms := by
  rw [List.filterMap_map]
  exact List.filterMap_some

theorem customer?_map_guest (id k : Nat) (ms : List (Delivery V)) :
    (ms.map (⟨none, k, .afoot ·⟩)).filterMap (customer? id) = [] := by
  rw [List.filterMap_map, List.filterMap_eq_nil_iff]
  intro m _
  rfl

/-- Guests work for no cell. -/
theorem worksFor?_map_guest (k : Nat) (ms : List (Delivery V)) :
    (ms.map (⟨none, k, .afoot ·⟩)).filterMap worksFor? = [] := by
  rw [List.filterMap_map, List.filterMap_eq_nil_iff]
  intro m _
  rfl

/-- Those who waited for a cell are on their way, beside those who already were. -/
theorem message?_map_serve (id : Nat) (c : Cursor V) (L : List (Strand V)) :
    ((L.map (serve id c)).filterMap message?).Perm
      (L.filterMap message? ++ (L.filterMap (customer? id)).map (Delivery.cursor · c)) := by
  induction L with
  | nil => exact .refl _
  | cons s L ih =>
    obtain ⟨owner, n, m | ⟨i, customer⟩⟩ := s
    · simpa only [List.map_cons, serve_afoot, List.filterMap_cons, message?_afoot,
        customer?_afoot, List.cons_append] using ih.cons m
    · by_cases hi : i = id
      · subst hi
        simp only [List.map_cons, serve, if_true, List.filterMap_cons, message?_afoot,
          message?_waiting, customer?_waiting]
        exact (ih.cons _).trans List.perm_middle.symm
      · simpa only [List.map_cons, serve, if_neg hi, List.filterMap_cons, message?_waiting,
          customer?_waiting] using ih

/-- Nobody waits for a cell any more that is done. -/
theorem customer?_map_serve_self (id : Nat) (c : Cursor V) (L : List (Strand V)) :
    (L.map (serve id c)).filterMap (customer? id) = [] := by
  rw [List.filterMap_map, List.filterMap_eq_nil_iff]
  rintro ⟨owner, n, m | ⟨i, customer⟩⟩ -
  · rfl
  · by_cases hi : i = id <;> simp [serve, hi]

theorem customer?_map_serve_of_ne {id i : Nat} (hi : i ≠ id) (c : Cursor V) (L : List (Strand V)) :
    (L.map (serve id c)).filterMap (customer? i) = L.filterMap (customer? i) := by
  rw [List.filterMap_map]
  congr 1
  funext s
  obtain ⟨owner, n, m | ⟨j, customer⟩⟩ := s
  · rfl
  · by_cases hj : j = id
    · subst hj
      simp [serve, Ne.symm hi]
    · simp [serve, hj]

end Strand

/-- The cell exists and is not on the chart. -/
def Chart.Off (chart : Chart V) (size id : Nat) : Prop :=
  id < size ∧ chart id = none

variable [MatchValue V] [DecidableEq V]

/-- The customer waits for a cell on behalf of `ω`, and goes on with the place that its source
reads. -/
def Owner.Waits (R : Rulebook V) (chart : Chart V) (n : Nat) (ω : Owner V) (id : Nat)
    (customer : OnCursor V) : Prop :=
  ∃ σ z, chart id = some σ ∧ Reads R σ (.ok z) ∧ ω.Above chart σ.depth ∧
    ∀ chart' c, chart.Le chart' → c.place? chart' = some z → Lasts R n ω chart' (.cursor customer c)

/-- The entry is right: its strand comes to an end, or it is a guest. -/
def Strand.Fits (R : Rulebook V) (chart : Chart V) (size : Nat) : Strand V → Prop
  | ⟨some ω, n, .afoot m⟩ => Lasts R n ω chart m
  | ⟨some ω, n, .waiting id customer⟩ => ω.Waits R chart n id customer
  | ⟨none, _, .afoot m⟩ => m.Among (chart.Off size)
  | ⟨none, _, .waiting id customer⟩ =>
    (∃ σ, chart id = some σ) ∧ customer.Among (chart.Off size)

/-- The ledger `L` accounts for the messages `q` on their way and for the customers in the world
`w`. Only if `Q`, anything is known of the cells that are not on the chart, and every cell of the
chart is known to answer whoever asks. -/
structure Ledger (R : Rulebook V) (Q : Prop) (chart : Chart V) (L : List (Strand V))
    (q : List (Delivery V)) (w : World V) : Prop where
  follows : Follows R chart w
  fits : ∀ s ∈ L, s.Fits R chart w.cells.size
  queue : q.Perm (L.filterMap Strand.message?)
  waiting : ∀ id σ, chart id = some σ → (w.customers id).Perm (L.filterMap (Strand.customer? id))
  nodup : (L.filterMap Strand.worksFor?).Nodup
  works : ∀ id, id ∈ L.filterMap Strand.worksFor? ↔
    w.isBusy id = true ∧ ∃ σ, chart id = some σ
  guests : Q → ∀ id, chart id = none → ∀ customer ∈ w.customers id,
    customer.Among (chart.Off w.cells.size)
  answers : Q → ∀ id σ, chart id = some σ → σ.Answers R

variable {R : Rulebook V} {Q : Prop} {chart chart' : Chart V} {L L' : List (Strand V)}
  {q : List (Delivery V)} {w w' : World V} {m : Delivery V} {s : Strand V} {id n : Nat}
  {σ : Source V} {z : Place V} {customer : OnCursor V} {memo : Memo V} {cell : Cell V}

/-! ## Following -/

theorem Charted.not_isBusy (h : Charted R (fun _ => False) chart w.cells)
    (hid : chart id = some σ) : w.isBusy id = false := by
  obtain ⟨cell, hcell, hfits⟩ := h id σ hid
  have hmemo := hfits.memo
  rw [World.isBusy, hcell, Option.any_some]
  cases hm : cell.memo with
  | idle | ready => rfl
  | pending customers =>
    rw [hm] at hmemo
    exact hmemo.elim

theorem Follows.lt_size (hw : Follows R chart w) (hid : chart id = some σ) :
    id < w.cells.size :=
  hw.charted.lt_size hid

/-- A memo is changed to one that fits. -/
theorem Follows.setMemo (hw : Follows R chart w)
    (hmemo : ∀ σ, chart id = some σ → memo.Fits R True chart σ) :
    Follows R chart (w.setMemo id memo) where
  rulebook := hw.rulebook
  charted := hw.charted.modify hmemo fun _ _ _ => trivial

/-- What a cell remembers is what its source reads. -/
theorem Follows.place?_of_ready (hw : Follows R chart w) (hid : chart id = some σ)
    (hread : Reads R σ (.ok z)) (hcell : w.cells[id]? = some cell) {c : Cursor V}
    (hm : cell.memo = .ready c) : c.place? chart = some z := by
  obtain ⟨cell', hcell', hfits⟩ := hw.charted id σ hid
  cases hcell.symm.trans hcell'
  have hmemo := hfits.memo
  rw [hm] at hmemo
  obtain ⟨x, hx, hc⟩ := hmemo
  cases hread.unique hx
  exact hc

/-! ## Moves -/

/-- A cell of the source `σ` is done: at most its successor was added, which nobody has asked. -/
structure Grows (R : Rulebook V) (σ : Source V) (chart : Chart V) (w : World V) (chart' : Chart V)
    (w' : World V) : Prop where
  quiet : w.Quiet w'
  follows : Follows R chart' w'
  le : chart.Le chart'
  size_le : w.cells.size ≤ w'.cells.size
  cells : ∀ i, i < w.cells.size → w'.cells[i]? = w.cells[i]?
  old : ∀ i, i < w.cells.size → chart' i = chart i
  idle : ∀ i cell, w.cells.size ≤ i → w'.cells[i]? = some cell → cell.memo = .idle
  next : ∀ i τ, w.cells.size ≤ i → chart' i = some τ →
    ∃ p v, Reads R σ (.ok (.token p v τ))

/-- A guest's message was handled: no cell of the chart was changed, and nobody waits for another
cell but guests. -/
structure Strays (chart : Chart V) (w w' : World V) : Prop where
  rulebook : w'.rulebook = w.rulebook
  size_le : w.cells.size ≤ w'.cells.size
  cells : ∀ i σ, chart i = some σ → w'.cells[i]? = w.cells[i]?
  guests : ∀ i, chart i = none → ∀ customer ∈ w'.customers i,
    customer.Among (chart.Off w'.cells.size)

/-- What the delivery of the message `m` of a strand does to the entry of the strand, to the other
entries, and to the world, with the messages that are sent. -/
inductive Move (R : Rulebook V) (chart : Chart V) (m : Delivery V) (w : World V) :
    Strand V → List (Strand V) → Chart V → List (Strand V) → List (Delivery V) → World V → Prop
    where
  /-- The strand goes on. -/
  | relays {ω n ω' m' L w'} : w.Quiet w' → w'.cells = w.cells → ω.Passes chart m ω' m' →
      Lasts R n ω' chart m' →
      Move R chart m w ⟨some ω, n + 1, .afoot m⟩ L chart (⟨some ω', n, .afoot m'⟩ :: L) [m'] w'
  /-- The strand of a match ends with an answer. -/
  | reports {n p σ k f a L} : Finds R p σ f → Says chart (outcomeOf (.ok 0) [a]) f →
      a.matcher = n → m.cell? = none →
      Move R chart m w ⟨some (.matcher n p σ), k, .afoot m⟩ L chart L []
        { w with answers := a :: w.answers }
  /-- A cell is asked that knows its cursor. -/
  | finds {owner k n id customer σ cell c L} : m = .ask (.derived id) customer →
      chart id = some σ → w.cells[id]? = some cell → cell.memo = .ready c →
      (owner ≠ none → n < k) →
      Strand.Fits R chart w.cells.size ⟨owner, n, .afoot (.cursor customer c)⟩ →
      Move R chart m w ⟨owner, k, .afoot m⟩ L chart (⟨owner, n, .afoot (.cursor customer c)⟩ :: L)
        [.cursor customer c] w
  /-- A cell is asked that is being computed. -/
  | waits {owner k n id customer σ cell customers L} : m = .ask (.derived id) customer →
      chart id = some σ → w.cells[id]? = some cell → cell.memo = .pending customers →
      (owner ≠ none → n < k) →
      Strand.Fits R chart w.cells.size ⟨owner, n, .waiting id customer⟩ →
      Move R chart m w ⟨owner, k, .afoot m⟩ L chart (⟨owner, n, .waiting id customer⟩ :: L) []
        (w.setMemo id (.pending (customers ++ [customer])))
  /-- A cell is asked that is set to work by the request. -/
  | employs {owner k n id customer σ cell m' stage j L} : m = .ask (.derived id) customer →
      chart id = some σ → w.cells[id]? = some cell → cell.memo = .idle →
      cell.source? chart = some σ → (owner ≠ none → n < k ∧ j < k) →
      Strand.Fits R chart w.cells.size ⟨owner, n, .waiting id customer⟩ →
      stage.Opens cell.skip cell.token id m' → Lasts R j (.cell id stage) chart m' →
      Move R chart m w ⟨owner, k, .afoot m⟩ L chart
        (⟨owner, n, .waiting id customer⟩ :: ⟨some (.cell id stage), j, .afoot m'⟩ :: L) [m']
        (w.setMemo id (.pending [customer]))
  /-- The strand of a cell ends, and the customers of the cell are served. -/
  | resolves {id stage k σ z c chart' w' L} : chart id = some σ → m.cell? = some id →
      m.asker? = none → Reads R σ (.ok z) → c.place? chart' = some z → Grows R σ chart w chart' w' →
      Move R chart m w ⟨some (.cell id stage), k, .afoot m⟩ L chart' (L.map (Strand.serve id c))
        ((w.customers id).map (Delivery.cursor · c)) (w'.setMemo id (.ready c))
  /-- A guest does whatever it does. -/
  | strays {k L ms w'} : (∀ id σ, chart id = some σ → m.cell? ≠ some id) → Strays chart w w' →
      (∀ m' ∈ ms, m'.Among (chart.Off w'.cells.size)) →
      Move R chart m w ⟨none, k, .afoot m⟩ L chart (ms.map (⟨none, 0, .afoot ·⟩) ++ L) ms w'

/-! ## Every strand makes a move -/

theorem Grows.refl (hw : Follows R chart w) (σ : Source V) : Grows R σ chart w chart w where
  quiet := .refl w
  follows := hw
  le := .refl chart
  size_le := le_rfl
  cells _ _ := rfl
  old _ _ := rfl
  idle _ _ hi hcell := absurd (Array.getElem?_eq_some_iff.mp hcell).1 hi.not_gt
  next _ _ hi hτ := absurd (hw.lt_size hτ) hi.not_gt

/-- The successor of a cell is added. -/
theorem Grows.push (hw : Follows R chart w) {next : Cell V} (hm : next.memo = .idle)
    {τ : Source V} (hnext : next.source? chart = some τ)
    (hread : ∃ p v, Reads R σ (.ok (.token p v τ))) :
    Grows R σ chart w (Function.update chart w.cells.size (some τ)) (w.addCell next).2 where
  quiet := ⟨rfl, rfl, rfl⟩
  follows := by
    obtain ⟨β, hβ, rfl⟩ := Cell.source?_eq_some_iff.mp hnext
    exact ⟨hw.rulebook, (hw.charted.push hm hβ).1⟩
  le := by
    obtain ⟨β, hβ, rfl⟩ := Cell.source?_eq_some_iff.mp hnext
    exact (hw.charted.push hm hβ).2
  size_le := by simp [World.addCell]
  cells i hi := World.getElem?_addCell hi
  old i hi := Function.update_of_ne hi.ne _ _
  idle i cell hi hcell := by
    rw [World.eq_of_getElem?_addCell hi hcell]
    exact hm
  next i τ' hi hτ' := by
    by_cases hsize : i = w.cells.size
    · rw [hsize, Function.update_self] at hτ'
      cases hτ'
      exact hread
    · rw [Function.update_of_ne hsize] at hτ'
      exact absurd (hw.lt_size hτ') hi.not_gt

/-- A cell that is told the verdict on its token knows what its source reads. -/
theorem Lexed.resolves (h : Lexed R chart id m) (hw : Follows R chart w) :
    ∃ σ z c chart' w', chart id = some σ ∧ m.cell? = some id ∧ m.asker? = none ∧ Reads R σ (.ok z) ∧
      c.place? chart' = some z ∧ Grows R σ chart w chart' w' ∧ receive m w = resolve id c w' := by
  obtain ⟨below, skip, token, index, here, y, o, z, hid, hy, htold, hz, hread⟩ := h
  obtain ⟨cell, hcell, hsource⟩ := hw.exists_cell hid
  obtain ⟨-, rfl, rfl, rfl⟩ := Cell.source?_eq_derived_iff.mp hsource
  have hposition : cell.positionAt here = y.positionAt cell.index := by
    simp only [Place.positionAt, Cell.positionAt, Cursor.position_of_place? hy]
  cases htold with
  | @refused f r hp hr =>
    cases hz
    refine ⟨_, _, cell.endAt here f, chart, w, hid, rfl, rfl, hread, cell.place?_endAt hy hp hr,
      .refl hw _, ?_⟩
    simp only [receive, onFailure, withCell, hcell]
  | @matched stop y' v hy' =>
    have hlt : y.offset < y'.offset ↔ here.offset < stop.offset := by
      rw [Cursor.offset_of_place? hy, Cursor.offset_of_place? hy']
    by_cases hconsumed : here.offset < stop.offset
    · -- the token is read, and the next cell begins behind it
      rw [readFrom, if_pos (hlt.mpr hconsumed)] at hz
      cases hz
      set next : Cell V :=
        { cell with base := .cursor stop, index := cell.index + 1, memo := .idle }
      have hsource' : next.source? chart =
          some (.derived (.fixed y') cell.skip cell.token (cell.index + 1)) := by
        simp only [Cell.source?, next, Base.source?, hy', Option.map_some]
      refine ⟨_, _, .token (cell.positionAt here) v (.derived w.cells.size), _, _, hid, rfl, rfl, hread,
        ?_, .push hw rfl hsource' ⟨_, _, hread⟩, ?_⟩
      · simp only [Cursor.place?, Stream.source?, Function.update_self, Option.map_some, hposition]
      · have hne : ¬ (⟨here, stop, v⟩ : Success V).consumed = 0 := by
          show ¬ stop.offset - here.offset = 0
          omega
        simp only [receive, onSuccess, withCell, hcell, resolveMatch, if_neg hne]
        rfl
    · -- a match that consumed nothing ends the stream
      rw [readFrom, if_neg (hlt.not.mpr hconsumed)] at hz
      cases hz
      refine ⟨_, _, .finish (cell.positionAt here), chart, w, hid, rfl, rfl, hread, ?_, .refl hw _, ?_⟩
      · rw [Cursor.place?, hposition]
      · have hnothing : (⟨here, stop, v⟩ : Success V).consumed = 0 := by
          show stop.offset - here.offset = 0
          omega
        simp only [receive, onSuccess, withCell, hcell, resolveMatch, if_pos hnothing]

/-- A request to a cell of the chart, whoever makes it. -/
theorem Follows.exists_move_of_ask (hw : Follows R chart w) (hid : chart id = some σ)
    (hread : Reads R σ (.ok z)) {owner : Option (Owner V)} {k n j : Nat}
    (hemploys : Employs (Lasts R j) chart id σ) (hleft : owner ≠ none → n < k ∧ j < k)
    (hwaits : Strand.Fits R chart w.cells.size ⟨owner, n, .waiting id customer⟩)
    (hfinds : ∀ c, c.place? chart = some z →
      Strand.Fits R chart w.cells.size ⟨owner, n, .afoot (.cursor customer c)⟩)
    (L : List (Strand V)) :
    ∃ L' ms w', receive (.ask (.derived id) customer) w = (ms.map .send, w') ∧
      Move R chart (.ask (.derived id) customer) w ⟨owner, k, .afoot (.ask (.derived id) customer)⟩
        L chart L' ms w' := by
  obtain ⟨cell, hcell, hsource⟩ := hw.exists_cell hid
  cases hm : cell.memo with
  | ready c =>
    refine ⟨_, _, w, ?_, .finds rfl hid hcell hm (fun h => (hleft h).1) (hfinds c ?_)⟩
    · simp only [receive, answerStream, askCell, hcell, hm]
      rfl
    · exact hw.place?_of_ready hid hread hcell hm
  | pending customers =>
    refine ⟨_, _, _, ?_, .waits rfl hid hcell hm (fun h => (hleft h).1) hwaits⟩
    simp only [receive, answerStream, askCell, hcell, hm]
    rfl
  | idle =>
    obtain ⟨m', stage, hbegin, hopens, hm'⟩ := hemploys chart cell (.refl chart) hsource
    refine ⟨_, _, _, ?_, .employs rfl hid hcell hm hsource hleft hwaits hopens hm'⟩
    simp only [receive, answerStream, askCell_idle customer hcell hm, hbegin]
    rfl

/-- **A strand that comes to an end makes a move.** -/
theorem Lasts.exists_move {ω : Owner V} (h : Lasts R n ω chart m) (hw : Follows R chart w)
    (L : List (Strand V)) : ∃ chart' L' ms w', receive m w = (ms.map .send, w') ∧
      Move R chart m w ⟨some ω, n, .afoot m⟩ L chart' L' ms w' := by
  -- at its end a match reports, and the work for a cell answers its customers
  have hends : ω.Ends R chart m → ∃ chart' L' ms w', receive m w = (ms.map .send, w') ∧
      Move R chart m w ⟨some ω, n, .afoot m⟩ L chart' L' ms w' := by
    intro hends
    cases ω with
    | matcher number p σ =>
      obtain ⟨f, hf, hreports⟩ := hends
      cases hreports with
      | @matched start stop x y v hx hy =>
        exact ⟨_, _, _, _, rfl,
          .reports (a := ⟨number, .ok ⟨start, stop, v⟩⟩) hf (.matched hx hy) rfl rfl⟩
      | @refused g x r hx hr =>
        exact ⟨_, _, _, _, rfl, .reports (a := ⟨number, .error g⟩) hf (.refused hx hr) rfl rfl⟩
    | cell id stage =>
      obtain ⟨σ, z, c, chart', w', hid, hcell, hasker, hread, hc, hgrows, hreceive⟩ :=
        hends.2.resolves hw
      refine ⟨_, _, _, _, ?_, .resolves hid hcell hasker hread hc hgrows⟩
      rw [hreceive, resolve_eq, World.customers_congr (hgrows.cells id (hw.lt_size hid))]
  cases n with
  | zero => exact hends h
  | succ n =>
    rcases h with h | hrelays | ⟨id, customer, σ, z, rfl, hid, hread, habove, hemploys, hnext⟩
    · exact hends h
    · obtain ⟨m', w', hreceive, hquiet, hcells, ω', hpasses, hm'⟩ :=
        hrelays chart w (.refl chart) hw
      exact ⟨chart, _, [m'], w', hreceive, .relays hquiet hcells hpasses hm'⟩
    · have hleft : some ω ≠ none → n < n + 1 ∧ n < n + 1 := fun _ => ⟨n.lt_succ_self, n.lt_succ_self⟩
      obtain ⟨L', ms, w', hreceive, hmove⟩ := hw.exists_move_of_ask hid hread hemploys hleft
        ⟨σ, z, hid, hread, habove, hnext⟩ (fun c hc => hnext chart c (.refl chart) hc) L
      exact ⟨chart, L', ms, w', hreceive, hmove⟩

end Humus.Peg
