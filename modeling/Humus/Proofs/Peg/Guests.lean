import Humus.Proofs.Dispatch.Idle
import Humus.Proofs.Peg.Moving

/-!
# Guests

A match or a walk of which nothing is known may fall silent, meet a fault or never end. It is a
guest among the strands of a ledger. Whatever a guest does, the cells of the chart are touched only
where it asks one of them, and then the cell treats it like any other customer.

## Main definitions

* `CellDoes id cell w m p`: what the handling of the message `m` by a cell comes to

## Main results

* `receive_does`: what a cell does with a message
* `CellDoes.frame`, `CellDoes.among`: what that leaves alone, and for whose work it sends
* `receive_of_no_cell`: what is done with a message that no cell handles
* `Ledger.exists_move_of_guest`: a guest that does not halt the loop makes a move
-/

namespace Humus.Peg

open Dispatch (Effect)

variable {V : Type} [MatchValue V] [DecidableEq V] {R : Rulebook V} {chart chart' : Chart V}
  {L L' : List (Strand V)} {q ms : List (Delivery V)} {w w' : World V} {m m' : Delivery V}
  {id i k : Nat} {cell : Cell V} {customer : OnCursor V} {E : Nat → Prop}
  {ok : OnSuccess V} {onFailed : OnFailure V} {effects : Effects V}

/-! ## What a cell does -/

/-- The handling of a message by the cell `id` comes to these effects and this world. -/
inductive CellDoes (id : Nat) (cell : Cell V) (w : World V) :
    Delivery V → Effects V × World V → Prop
    where
  /-- The cell begins the next stage of its work. -/
  | opens {m m' stage} : Delivery.asker? m = none → Stage.Opens cell.skip cell.token id stage m' →
      CellDoes id cell w m ([.send m'], w)
  /-- The cell is set to work. -/
  | begins {customer m' stage} : Stage.Opens cell.skip cell.token id stage m' →
      CellDoes id cell w (.ask (.derived id) customer)
        ([.send m'], w.setMemo id (.pending [customer]))
  /-- The customer waits. -/
  | queues {customer customers} : cell.memo = .pending customers →
      CellDoes id cell w (.ask (.derived id) customer)
        ([], w.setMemo id (.pending (customers ++ [customer])))
  /-- The customer is given the cursor that the cell remembers. -/
  | gives {customer c} : cell.memo = .ready c →
      CellDoes id cell w (.ask (.derived id) customer) ([.send (.cursor customer c)], w)
  /-- The cell is done, and its successor may have been added. Those who waited are served. -/
  | resolves {m c w₁} : Delivery.asker? m = none →
      w₁ = w ∨ (∃ next, next.memo = .idle ∧ w₁ = (w.addCell next).2) →
      CellDoes id cell w m
        ((cell.memo.customers.map (Delivery.cursor · c)).map .send, w₁.setMemo id (.ready c))

omit [MatchValue V] [DecidableEq V] in
theorem Cell.exists_opens_skipAt (cell : Cell V) (id : Nat) (here : Cursor V) :
    ∃ m stage, cell.skipAt id here = [.send m] ∧ Stage.Opens cell.skip cell.token id stage m := by
  rw [Cell.skipAt]
  cases hskip : cell.skip with
  | none => exact ⟨_, .lexing, rfl, .lexing⟩
  | some p => exact ⟨_, .skipping, rfl, .skipping rfl⟩

omit [MatchValue V] [DecidableEq V] in
theorem Cell.exists_opens_begin (cell : Cell V) (id : Nat) :
    ∃ m stage, cell.begin id = [.send m] ∧ Stage.Opens cell.skip cell.token id stage m := by
  rw [Cell.begin]
  cases cell.base with
  | cursor c => exact cell.exists_opens_skipAt id c
  | stream s => exact ⟨_, .reading, rfl, .reading⟩

omit [MatchValue V] [DecidableEq V] in
theorem CellDoes.of_resolve (hcell : w.cells[id]? = some cell) (hm : m.asker? = none)
    {c : Cursor V} {w₁ : World V}
    (hw₁ : w₁ = w ∨ ∃ next : Cell V, next.memo = .idle ∧ w₁ = (w.addCell next).2) :
    CellDoes id cell w m (resolve id c w₁) := by
  have hlt : id < w.cells.size := (Array.getElem?_eq_some_iff.mp hcell).1
  have hcustomers : w₁.customers id = cell.memo.customers := by
    rw [← World.customers_of_cell hcell]
    rcases hw₁ with rfl | ⟨next, -, rfl⟩
    · rfl
    · exact World.customers_congr (World.getElem?_addCell hlt)
  rw [resolve_eq, hcustomers]
  exact .resolves hm hw₁

/-- **What a cell does with a message.** -/
theorem receive_does (hm : m.cell? = some id) (hcell : w.cells[id]? = some cell) :
    CellDoes id cell w m (receive m w) := by
  cases m with
  | request | tallied | ignored => cases hm
  | success ok s =>
    cases ok with
    | report | nextItem | again | found | unwanted | transform => cases hm
    | skipped =>
      cases hm
      simp only [receive, onSuccess, withCell, hcell]
      exact .opens rfl .lexing
    | lexed _ here =>
      cases hm
      simp only [receive, onSuccess, withCell, hcell, resolveMatch]
      split_ifs
      · exact .of_resolve hcell rfl (.inl rfl)
      · exact .of_resolve hcell rfl (.inr ⟨_, rfl, rfl⟩)
  | failure onFailed f =>
    cases onFailed with
    | report | backTo | nextAlternative | enough | missing | absent | relabel => cases hm
    | unskipped =>
      cases hm
      simp only [receive, onFailure, withCell, hcell]
      exact .opens rfl .lexing
    | unlexed _ here =>
      cases hm
      simp only [receive, onFailure, withCell, hcell]
      exact .of_resolve hcell rfl (.inl rfl)
  | cursor customer c =>
    cases customer with
    | consumed | matcher | walker => cases hm
    | reader =>
      cases hm
      simp only [receive, onCursor, withCell, hcell]
      obtain ⟨m', stage, hskip, hopens⟩ := cell.exists_opens_skipAt id c
      rw [hskip]
      exact .opens rfl hopens
  | ask s customer =>
    cases s with
    | chars | values | fixed | silent => cases hm
    | derived =>
      cases hm
      simp only [receive, answerStream]
      cases hmemo : cell.memo with
      | idle =>
        rw [askCell_idle customer hcell hmemo]
        obtain ⟨m', stage, hbegin, hopens⟩ := cell.exists_opens_begin id
        rw [hbegin]
        exact .begins hopens
      | pending customers =>
        simp only [askCell, hcell, hmemo]
        exact .queues hmemo
      | ready c =>
        simp only [askCell, hcell, hmemo]
        exact .gives hmemo

/-- A message to a cell that does not exist is lost. -/
theorem receive_of_missing (hm : m.cell? = some id) (hcell : w.cells[id]? = none) :
    receive m w = ([], w) := by
  cases m with
  | request | tallied | ignored => cases hm
  | success ok s =>
    cases ok with
    | report | nextItem | again | found | unwanted | transform => cases hm
    | skipped | lexed => cases hm; simp only [receive, onSuccess, withCell, hcell]
  | failure onFailed f =>
    cases onFailed with
    | report | backTo | nextAlternative | enough | missing | absent | relabel => cases hm
    | unskipped | unlexed => cases hm; simp only [receive, onFailure, withCell, hcell]
  | cursor customer c =>
    cases customer with
    | consumed | matcher | walker => cases hm
    | reader => cases hm; simp only [receive, onCursor, withCell, hcell]
  | ask s customer =>
    cases s with
    | chars | values | fixed | silent => cases hm
    | derived => cases hm; simp only [receive, answerStream, askCell, hcell]

/-! ## Messages that no cell handles -/

/-- The messages that are sent are not for the work of cells that are not in `E`. -/
structure EffectsAmong (E : Nat → Prop) (effects : Effects V) : Prop where
  among : ∀ m, Effect.send m ∈ effects → m.Among E

section Effects

omit [MatchValue V] [DecidableEq V]

theorem EffectsAmong.nil : EffectsAmong E ([] : Effects V) where
  among m hm := by cases hm

theorem EffectsAmong.halt (f : Fault) : EffectsAmong E ([.halt f] : Effects V) where
  among m hm := by cases List.mem_singleton.mp hm

theorem EffectsAmong.send (hm : m.Among E) : EffectsAmong E [.send m] where
  among m' hm' := by
    cases List.mem_singleton.mp hm'
    exact hm

theorem EffectsAmong.advance (c : Cursor V) (h : customer.Among E) :
    EffectsAmong E (advance c customer) := by
  cases c with
  | token p v rest => exact .send h
  | finish | stalled => exact .nil

theorem EffectsAmong.consume (input : Cursor V) (hok : ok.Among E) (onFailed : OnFailure V) :
    EffectsAmong E (consume ⟨input, ok, onFailed⟩) := by
  unfold Peg.consume
  split
  · exact .advance _ hok
  · exact .nil

variable (hok : ok.Among E) (hfail : onFailed.Among E)
include hok hfail

theorem EffectsAmong.matchItems [MatchValue V] (start here : Cursor V) (values : List V)
    (items : List (Pattern V)) : EffectsAmong E (matchItems start ok onFailed here values items) := by
  cases items with
  | nil => exact .send hok
  | cons p ps => exact .send ⟨⟨hok, hfail⟩, hfail⟩

theorem EffectsAmong.tryAlternatives (input : Cursor V) (failed : Option (Failure V))
    (items : List (Pattern V)) :
    EffectsAmong E (tryAlternatives input ok onFailed failed items) := by
  cases items with
  | nil => cases failed <;> exact .send hfail
  | cons p ps => exact .send ⟨hok, ⟨hok, hfail⟩⟩

theorem EffectsAmong.matchAgain (body : Pattern V) (needsOne : Bool) (start here : Cursor V)
    (values : List V) : EffectsAmong E (matchAgain body needsOne start ok onFailed here values) :=
  .send ⟨⟨hok, hfail⟩, ⟨hok, hfail⟩⟩

end Effects

/-- A pattern asks on behalf of those who are to be told. -/
theorem among_matchPattern {r : Request V} (hok : r.ok.Among E) (hfail : r.fail.Among E)
    (w : World V) (p : Pattern V) : EffectsAmong E (matchPattern r w p).1 := by
  cases p with
  | terminal | predicate | any =>
    simp only [matchPattern]
    split_ifs
    · first | exact .consume _ hok _ | exact .send hfail
    · first | exact .send hfail | exact .consume _ hok _
  | finish =>
    simp only [matchPattern]
    split_ifs
    · exact .send hok
    · exact .send hfail
  | sequence items => exact .matchItems hok hfail ..
  | choice items => exact .tryAlternatives hok hfail r.input none items
  | zeroOrMore | oneOrMore => exact .matchAgain hok hfail ..
  | optional => exact .send ⟨hok, hok⟩
  | not => exact .send ⟨hfail, hok⟩
  | rule ref =>
    simp only [matchPattern, matchRule_eq]
    cases w.rulebook ref with
    | error fault => exact .halt fault
    | ok rule =>
      obtain ⟨body, transform⟩ := rule
      refine .send ⟨?_, hfail⟩
      cases transform <;> exact hok
  | tally => exact .send ⟨hok, hfail⟩
  | silent => exact .send trivial

/-- **What is done with a message that no cell handles**: no cell is changed, and what is sent is
for the work of the cells that the message is for. -/
theorem receive_of_no_cell (hm : m.cell? = none) (w : World V) :
    (receive m w).2.cells = w.cells ∧ (receive m w).2.rulebook = w.rulebook ∧
      ∀ E, m.Among E → EffectsAmong E (receive m w).1 := by
  cases m with
  | request p r =>
    have hworld : (matchPattern r w p).2.cells = w.cells ∧
        (matchPattern r w p).2.rulebook = w.rulebook := by
      cases p with
      | rule ref =>
        -- a call seals the grammar, which changes no rule and no cell
        simp only [matchPattern, matchRule_eq]
        split <;> simp
      | _ => exact ⟨rfl, rfl⟩
    exact ⟨hworld.1, hworld.2, fun E hE => among_matchPattern hE.1 hE.2 w p⟩
  | tallied counter body r => exact ⟨rfl, rfl, fun E hE => .send hE⟩
  | ignored => exact ⟨rfl, rfl, fun E _ => .nil⟩
  | success ok s =>
    cases ok with
    | skipped | lexed => cases hm
    | report => exact ⟨rfl, rfl, fun E _ => .nil⟩
    | nextItem => exact ⟨rfl, rfl, fun E hE => .matchItems hE.1 hE.2 ..⟩
    | again =>
      refine ⟨rfl, rfl, fun E hE => ?_⟩
      simp only [receive, onSuccess]
      split_ifs
      · exact .send hE.1
      · exact .send hE.1
      · exact .matchAgain hE.1 hE.2 ..
    | found ok => exact ⟨rfl, rfl, fun E hE => .send hE⟩
    | unwanted => exact ⟨rfl, rfl, fun E hE => .send hE⟩
    | transform ref f ok =>
      simp only [receive, onSuccess]
      cases f ref.name s.value s.span with
      | ok value => exact ⟨rfl, rfl, fun E hE => .send hE⟩
      | error reason => exact ⟨rfl, rfl, fun E _ => .halt _⟩
  | failure onFailed f =>
    cases onFailed with
    | unskipped | unlexed => cases hm
    | report => exact ⟨rfl, rfl, fun E _ => .nil⟩
    | backTo => exact ⟨rfl, rfl, fun E hE => .send hE⟩
    | nextAlternative input rest failed ok onFailed =>
      exact ⟨rfl, rfl, fun E hE => .tryAlternatives hE.1 hE.2 input (some _) rest⟩
    | enough =>
      refine ⟨rfl, rfl, fun E hE => ?_⟩
      simp only [receive, onFailure]
      split_ifs
      · exact .send hE.2
      · exact .send hE.1
    | missing => exact ⟨rfl, rfl, fun E hE => .send hE⟩
    | absent => exact ⟨rfl, rfl, fun E hE => .send hE⟩
    | relabel => exact ⟨rfl, rfl, fun E hE => .send hE⟩
  | cursor customer c =>
    cases customer with
    | reader => cases hm
    | consumed => exact ⟨rfl, rfl, fun E hE => .send hE⟩
    | matcher => exact ⟨rfl, rfl, fun E hE => .send hE⟩
    | walker => exact ⟨rfl, rfl, fun E _ => .advance _ trivial⟩
  | ask s customer =>
    cases s with
    | derived => cases hm
    | chars => exact ⟨rfl, rfl, fun E hE => .send hE⟩
    | values => exact ⟨rfl, rfl, fun E hE => .send hE⟩
    | fixed => exact ⟨rfl, rfl, fun E hE => .send hE⟩
    | silent => exact ⟨rfl, rfl, fun E _ => .nil⟩

/-! ## Guests make moves -/

omit [MatchValue V] [DecidableEq V] in
theorem Strays.of_cells (hguests : ∀ i, chart i = none → ∀ customer ∈ w.customers i,
      customer.Among (chart.Off w.cells.size))
    (hrulebook : w'.rulebook = w.rulebook) (hcells : w'.cells = w.cells) :
    Strays chart w w' where
  rulebook := hrulebook
  size_le := by rw [hcells]
  cells i σ _ := by rw [hcells]
  guests i hi := by
    rw [hcells, World.customers_congr (w := w) (by rw [hcells])]
    exact hguests i hi

omit [MatchValue V] [DecidableEq V] in
/-- What a message is for includes the cell that handles it, unless the cell is only asked. -/
theorem Delivery.Among.cell? (h : m.Among E) (hm : m.cell? = some id) :
    E id ∨ ∃ customer, m = .ask (.derived id) customer := by
  cases m with
  | request | tallied | ignored => cases hm
  | success ok s =>
    cases ok with
    | report | nextItem | again | found | unwanted | transform => cases hm
    | skipped | lexed => cases hm; exact .inl h
  | failure onFailed f =>
    cases onFailed with
    | report | backTo | nextAlternative | enough | missing | absent | relabel => cases hm
    | unskipped | unlexed => cases hm; exact .inl h
  | cursor customer c =>
    cases customer with
    | consumed | matcher | walker => cases hm
    | reader => cases hm; exact .inl h
  | ask s customer =>
    cases s with
    | chars | values | fixed | silent => cases hm
    | derived => cases hm; exact .inr ⟨customer, rfl⟩

omit [MatchValue V] [DecidableEq V] in
/-- The work of a cell is for that cell. -/
theorem Stage.Opens.among {skip : Option (Pattern V)} {token : Pattern V} {stage : Stage}
    (h : stage.Opens skip token id m) (hid : E id) : m.Among E := by
  cases h with
  | reading => exact hid
  | skipping => exact ⟨hid, hid⟩
  | lexing => exact ⟨hid, hid⟩

omit [MatchValue V] [DecidableEq V] in
/-- What a cell does changes no other cell and no rule. -/
theorem CellDoes.frame (h : CellDoes id cell w m (effects, w')) :
    w'.rulebook = w.rulebook ∧ w.cells.size ≤ w'.cells.size ∧
      ∀ i, i < w.cells.size → i ≠ id → w'.cells[i]? = w.cells[i]? := by
  cases h with
  | opens | gives => exact ⟨rfl, le_rfl, fun _ _ _ => rfl⟩
  | begins | queues =>
    exact ⟨rfl, (World.size_setMemo ..).ge, fun i _ hne => World.getElem?_setMemo_of_ne _ hne⟩
  | @resolves _ c w₁ _ hw₁ =>
    rw [World.size_setMemo]
    rcases hw₁ with rfl | ⟨next, -, rfl⟩
    · exact ⟨rfl, le_rfl, fun i _ hne => World.getElem?_setMemo_of_ne _ hne⟩
    · refine ⟨rfl, by simp [World.addCell], fun i hi hne => ?_⟩
      rw [World.getElem?_setMemo_of_ne _ hne, World.getElem?_addCell hi]

omit [MatchValue V] [DecidableEq V] in
/-- What a cell sends, and who newly waits, is for the work of the cells that the cell, the message
and those who waited for the cell were for. -/
theorem CellDoes.among (h : CellDoes id cell w m (effects, w')) (hcell : w.cells[id]? = some cell)
    (hid : E id) (hm : m.Among E) (hw : ∀ customer ∈ w.customers id, customer.Among E) :
    EffectsAmong E effects ∧
      ∀ i, ∀ customer ∈ w'.customers i, customer ∈ w.customers i ∨ customer.Among E := by
  rw [World.customers_of_cell hcell] at hw
  cases h with
  | opens _ hopens => exact ⟨.send (hopens.among hid), fun i customer h => .inl h⟩
  | begins hopens =>
    refine ⟨.send (hopens.among hid), fun i customer h => ?_⟩
    rcases World.mem_customers_setMemo h with h | h
    · rw [List.mem_singleton.mp h]
      exact .inr hm
    · exact .inl h
  | queues hmemo =>
    refine ⟨.nil, fun i customer h => ?_⟩
    rw [hmemo] at hw
    rcases World.mem_customers_setMemo h with h | h
    · rcases List.mem_append.mp h with h | h
      · exact .inr (hw customer h)
      · rw [List.mem_singleton.mp h]
        exact .inr hm
    · exact .inl h
  | gives hmemo => exact ⟨.send hm, fun i customer h => .inl h⟩
  | @resolves _ c w₁ _ hw₁ =>
    refine ⟨⟨fun m' hm' => ?_⟩, fun i customer h => ?_⟩
    · obtain ⟨_, hmem, he⟩ := List.mem_map.mp hm'
      cases he
      obtain ⟨customer, hcustomer, rfl⟩ := List.mem_map.mp hmem
      exact hw customer hcustomer
    · -- nobody waits for a cell that is done, nor for one that is new
      rcases World.mem_customers_setMemo h with h | h
      · cases h
      · rcases hw₁ with rfl | ⟨next, hnext, rfl⟩
        · exact .inl h
        · rw [World.customers_addCell hnext] at h
          exact .inl h

/-- A cell off the chart does its work and serves its customers. -/
theorem CellDoes.strays (h : CellDoes id cell w m (effects, w')) (hw : Follows R chart w)
    (hguests : ∀ i, chart i = none → ∀ customer ∈ w.customers i,
      customer.Among (chart.Off w.cells.size))
    (hid : chart.Off w.cells.size id) (hcell : w.cells[id]? = some cell)
    (hm : m.Among (chart.Off w.cells.size)) :
    Strays chart w w' ∧ EffectsAmong (chart.Off w'.cells.size) effects := by
  obtain ⟨hrulebook, hsize, hframe⟩ := h.frame
  obtain ⟨hsent, hcustomers⟩ := h.among hcell hid hm (hguests id hid.2)
  have hoff : ∀ i, chart.Off w.cells.size i → chart.Off w'.cells.size i := fun i =>
    Chart.Off.grow hsize fun _ _ => rfl
  refine ⟨⟨hrulebook, hsize, fun i σ hi => hframe i (hw.lt_size hi) ?_, fun i hi customer h => ?_⟩,
    ⟨fun m' hm' => (hsent.among m' hm').mono hoff⟩⟩
  · rintro rfl
    rw [hid.2] at hi
    cases hi
  · rcases hcustomers i customer h with h | h
    · exact (hguests i hi customer h).mono hoff
    · exact h.mono hoff

/-- **A guest that does not halt the loop makes a move.** -/
theorem Ledger.exists_move_of_guest
    (h : Ledger R True chart (⟨none, k, .afoot m⟩ :: L) (m :: q) w)
    (hreceive : receive m w = (ms.map .send, w')) :
    ∃ L', Move R chart m w ⟨none, k, .afoot m⟩ L chart L' ms w' := by
  have hm : m.Among (chart.Off w.cells.size) := h.fits _ List.mem_cons_self
  have hguests := h.guests trivial
  by_cases hasks : ∃ id customer σ, m = .ask (.derived id) customer ∧ chart id = some σ
  · -- a cell of the chart treats the guest like any other customer
    obtain ⟨id, customer, σ, rfl, hid⟩ := hasks
    obtain ⟨z, hread⟩ := (h.answers trivial id σ hid).exists_reads
    obtain ⟨cell, -, hsource⟩ := h.follows.exists_cell hid
    obtain ⟨β, -, rfl⟩ := Cell.source?_eq_some_iff.mp hsource
    obtain ⟨n, hemploys⟩ := exists_employs (fun _ _ h => h) (fun _ _ h => Reads.exists_gives h)
      (reads_iff.mp hread)
    have hleft : (none : Option (Owner V)) ≠ none → 0 < k ∧ n < k := fun h => absurd rfl h
    obtain ⟨L', ms', w'', hreceive', hmove⟩ :=
      h.follows.exists_move_of_ask hid hread (hemploys hid) hleft ⟨⟨_, hid⟩, hm⟩ (fun _ _ => hm) L
    rw [hreceive] at hreceive'
    obtain ⟨hms, rfl⟩ := Prod.mk.inj hreceive'
    obtain rfl := Dispatch.eq_of_map_send hms
    exact ⟨L', hmove⟩
  · have hoff : ∀ id σ, chart id = some σ → m.cell? ≠ some id := by
      intro id σ hid hcell
      rcases hm.cell? hcell with hE | ⟨customer, rfl⟩
      · rw [hE.2] at hid
        cases hid
      · exact hasks ⟨id, customer, σ, rfl, hid⟩
    suffices hstrays : Strays chart w w' ∧ EffectsAmong (chart.Off w'.cells.size) (ms.map .send) from
      ⟨_, .strays hoff hstrays.1 fun m' hm' => hstrays.2.among m' (List.mem_map_of_mem hm')⟩
    cases hcell? : m.cell? with
    | none =>
      obtain ⟨hcells, hrulebook, hamong⟩ := receive_of_no_cell hcell? w
      rw [hreceive] at hcells hrulebook hamong
      have hcells : w'.cells = w.cells := hcells
      refine ⟨.of_cells hguests hrulebook hcells, ?_⟩
      rw [hcells]
      exact hamong _ hm
    | some id =>
      cases hcell : w.cells[id]? with
      | none =>
        rw [receive_of_missing hcell? hcell] at hreceive
        obtain ⟨hms, rfl⟩ := Prod.mk.inj hreceive
        rw [← hms]
        exact ⟨.of_cells hguests rfl rfl, .nil⟩
      | some cell =>
        have hid : chart.Off w.cells.size id :=
          ⟨(Array.getElem?_eq_some_iff.mp hcell).1, Option.eq_none_iff_forall_ne_some.mpr
            fun σ hσ => hoff id σ hσ hcell?⟩
        have hdoes := receive_does hcell? hcell
        rw [hreceive] at hdoes
        exact hdoes.strays h.follows hguests hid hcell hm

end Humus.Peg
