import Humus.Proofs.Peg.Guests

/-!
# Diaries

The diary of a cell says who asked it and what it sent, over any number of deliveries. A cell of the
chart asks for its patterns at most once each, and gives each customer one cursor, the same to all.

The diary is kept along the moves of strands. What a cell still has to ask for is known from the
stage of the strand that works for it, and a busy cell has one such strand.

## Main definitions

* `Event V`: a delivery, with the world that it finds
* `asks id es`, `sentBy id es`: the customers that asked the cell `id`, and the messages it sent
* `answers id es`, `tokenRequests id es`, `skipRequests id es`: of these the answers to customers,
  and the requests to the token pattern and to the skip pattern
* `Recorded chart L es w`: the events `es` are those of cells that serve as they should

## Main results

* `Move.recorded`: what one move adds to the diaries
* `Ledger.exists_recorded`: the diaries after a run that goes idle
-/

namespace Humus.Dispatch

/-- The message that is sent. -/
def Effect.message? {Msg Fault : Type} : Effect Msg Fault → Option Msg
  | .send m => some m
  | .halt _ => none

theorem filterMap_message?_map_send {Msg Fault : Type} (ms : List Msg) :
    (ms.map (Effect.send : Msg → Effect Msg Fault)).filterMap Effect.message? = ms := by
  rw [List.filterMap_map]
  exact List.filterMap_some

end Humus.Dispatch

namespace Humus.Peg

open Dispatch (Effect Idles)

variable {V : Type}

/-! ## Events -/

/-- A delivery, with the world that it finds. -/
abbrev Event (V : Type) := Delivery V × World V

/-- An answer to a customer. -/
def Delivery.answer? : Delivery V → Option (OnCursor V × Cursor V)
  | .cursor customer c => some (customer, c)
  | _ => none

/-- The token pattern of a cell that asks it to match. -/
def Delivery.tokenRequest? : Delivery V → Option (Pattern V)
  | .request p ⟨_, .lexed .., _⟩ => some p
  | _ => none

/-- The skip pattern of a cell that asks it to match. -/
def Delivery.skipRequest? : Delivery V → Option (Pattern V)
  | .request p ⟨_, .skipped _, _⟩ => some p
  | _ => none

/-- Whether the delivery is to the cell of this number, which exists. -/
def Event.isAt (id : Nat) (e : Event V) : Bool :=
  decide (e.1.cell? = some id ∧ id < e.2.cells.size)

/-- Those who asked the cell, in order. -/
def asks (id : Nat) (es : List (Event V)) : List (OnCursor V) :=
  (es.filter (Event.isAt id)).filterMap (·.1.asker?)

variable [MatchValue V] [DecidableEq V]

/-- What is sent at the delivery. -/
def Event.sent (e : Event V) : List (Delivery V) :=
  (receive e.1 e.2).1.filterMap Effect.message?

/-- What the cell sent, in order. -/
def sentBy (id : Nat) (es : List (Event V)) : List (Delivery V) :=
  (es.filter (Event.isAt id)).flatMap Event.sent

/-- The answers of the cell to those who asked, with the cursors that they were given. -/
def answers (id : Nat) (es : List (Event V)) : List (OnCursor V × Cursor V) :=
  (sentBy id es).filterMap Delivery.answer?

/-- The requests of the cell to its token pattern. -/
def tokenRequests (id : Nat) (es : List (Event V)) : List (Pattern V) :=
  (sentBy id es).filterMap Delivery.tokenRequest?

/-- The requests of the cell to its skip pattern. -/
def skipRequests (id : Nat) (es : List (Event V)) : List (Pattern V) :=
  (sentBy id es).filterMap Delivery.skipRequest?

variable {R : Rulebook V} {chart chart' : Chart V} {L L' : List (Strand V)}
  {q ms : List (Delivery V)} {w w' : World V} {m : Delivery V} {s : Strand V} {id i : Nat}
  {es : List (Event V)} {e : Event V} {skip : Option (Pattern V)} {token : Pattern V}
  {stage : Stage} {A : List (OnCursor V)} {S : List (Delivery V)} {σ : Source V}

omit [MatchValue V] [DecidableEq V] in
theorem asks_append_of_isAt (h : e.isAt id = true) :
    asks id (es ++ [e]) = asks id es ++ e.1.asker?.toList := by
  rw [asks, List.filter_append, List.filterMap_append, List.filter_cons_of_pos h,
    List.filterMap_cons]
  cases e.1.asker? <;> rfl

omit [MatchValue V] [DecidableEq V] in
theorem asks_append_of_not_isAt (h : e.isAt id = false) : asks id (es ++ [e]) = asks id es := by
  rw [asks, List.filter_append, List.filter_cons_of_neg (by simp [h]), List.filter_nil,
    List.append_nil]
  rfl

theorem sentBy_append_of_isAt (h : e.isAt id = true) :
    sentBy id (es ++ [e]) = sentBy id es ++ e.sent := by
  rw [sentBy, List.filter_append, List.flatMap_append, List.filter_cons_of_pos h, List.filter_nil,
    List.flatMap_cons, List.flatMap_nil, List.append_nil]
  rfl

theorem sentBy_append_of_not_isAt (h : e.isAt id = false) :
    sentBy id (es ++ [e]) = sentBy id es := by
  rw [sentBy, List.filter_append, List.filter_cons_of_neg (by simp [h]), List.filter_nil,
    List.append_nil]
  rfl

/-- To a cell that did not exist nothing was delivered. -/
theorem events_of_size_le (h : ∀ e ∈ es, e.2.cells.size ≤ id) :
    asks id es = [] ∧ sentBy id es = [] := by
  have hnone : es.filter (Event.isAt id) = [] := by
    rw [List.filter_eq_nil_iff]
    intro e he
    simp only [Event.isAt, decide_eq_true_eq, not_and, not_lt]
    exact fun _ => h e he
  rw [asks, sentBy, hnone]
  exact ⟨rfl, rfl⟩

/-! ## Requests of a cell -/

omit [MatchValue V] [DecidableEq V] in
theorem Stage.Opens.answer? (h : stage.Opens skip token id m) : m.answer? = none := by
  cases h <;> rfl

/-- Of the requests of a cell only those were sent that open one of the first `k` stages. -/
structure Requests (skip : Option (Pattern V)) (token : Pattern V) (k : Nat)
    (S : List (Delivery V)) : Prop where
  token : (S.filterMap Delivery.tokenRequest?).Sublist [token]
  skip : (S.filterMap Delivery.skipRequest?).Sublist skip.toList
  no_token : k ≤ 2 → S.filterMap Delivery.tokenRequest? = []
  no_skip : k ≤ 1 → S.filterMap Delivery.skipRequest? = []

section Requests

omit [MatchValue V] [DecidableEq V]

theorem Requests.nil (k : Nat) : Requests skip token k [] :=
  ⟨List.nil_sublist _, List.nil_sublist _, fun _ => rfl, fun _ => rfl⟩

theorem Requests.mono {k k' : Nat} (h : Requests skip token k S) (hle : k ≤ k') :
    Requests skip token k' S :=
  ⟨h.token, h.skip, fun hk => h.no_token (hle.trans hk), fun hk => h.no_skip (hle.trans hk)⟩

/-- Messages that are no requests. -/
theorem Requests.append {k : Nat} (h : Requests skip token k S)
    (hms : ∀ m ∈ ms, m.tokenRequest? = none ∧ m.skipRequest? = none) :
    Requests skip token k (S ++ ms) := by
  have htoken : ms.filterMap Delivery.tokenRequest? = [] :=
    List.filterMap_eq_nil_iff.mpr fun m hm => (hms m hm).1
  have hskip : ms.filterMap Delivery.skipRequest? = [] :=
    List.filterMap_eq_nil_iff.mpr fun m hm => (hms m hm).2
  constructor
  · rw [List.filterMap_append, htoken, List.append_nil]
    exact h.token
  · rw [List.filterMap_append, hskip, List.append_nil]
    exact h.skip
  · rw [List.filterMap_append, htoken, List.append_nil]
    exact h.no_token
  · rw [List.filterMap_append, hskip, List.append_nil]
    exact h.no_skip

/-- The next stage of a cell begins. -/
theorem Requests.opens {k : Nat} (h : Requests skip token k S)
    (hopens : stage.Opens skip token id m) (hk : k ≤ stage.rank) :
    Requests skip token (stage.rank + 1) (S ++ [m]) := by
  cases hopens with
  | @reading s =>
    refine (h.append fun m hm => ?_).mono (hk.trans (Nat.le_succ _))
    rw [List.mem_singleton.mp hm]
    exact ⟨rfl, rfl⟩
  | @skipping p c hskip =>
    have htoken := h.no_token (hk.trans (by decide))
    have hnone := h.no_skip hk
    constructor
    · rw [List.filterMap_append, htoken]
      exact List.nil_sublist _
    · rw [List.filterMap_append, hnone, hskip]
      exact List.Sublist.refl _
    · intro _
      rw [List.filterMap_append, htoken]
      rfl
    · intro hle
      exact absurd hle (by decide)
  | lexing =>
    have htoken := h.no_token hk
    constructor
    · rw [List.filterMap_append, htoken]
      exact List.Sublist.refl _
    · rw [List.filterMap_append]
      exact (List.append_nil _).symm ▸ h.skip
    · intro hle
      exact absurd hle (by decide)
    · intro hle
      exact absurd hle (by decide)

end Requests

/-! ## The diary of a cell -/

/-- The diary of a cell: `A` are those who asked it, and `S` is what it sent. Whoever asked was
answered or waits, the answers are what the cell remembers, and each of its patterns was asked for
once at most. `works` holds of the stage of the strand that works for the cell. -/
structure Diary (skip : Option (Pattern V)) (token : Pattern V) (memo : Memo V)
    (works : Stage → Prop) (A : List (OnCursor V)) (S : List (Delivery V)) : Prop where
  served : ((S.filterMap Delivery.answer?).map Prod.fst ++ memo.customers).Perm A
  alike : ∀ a ∈ S.filterMap Delivery.answer?, memo = .ready a.2
  requests : Requests skip token 3 S
  idle : memo = .idle → Requests skip token 0 S
  stage : ∀ stage, works stage → Requests skip token (stage.rank + 1) S

namespace Diary

omit [MatchValue V] [DecidableEq V]

variable {memo : Memo V} {works works' : Stage → Prop} {customer : OnCursor V}
  {customers : List (OnCursor V)} {c : Cursor V} {stage' : Stage}

/-- The diary of a cell that just came to be. -/
theorem nil (works : Stage → Prop) : Diary skip token .idle works [] [] where
  served := .refl _
  alike := by simp
  requests := .nil 3
  idle _ := .nil 0
  stage _ _ := .nil _

theorem imp (h : Diary skip token memo works A S) (hworks : ∀ stage, works' stage → works stage) :
    Diary skip token memo works' A S :=
  ⟨h.served, h.alike, h.requests, h.idle, fun stage hstage => h.stage stage (hworks stage hstage)⟩

/-- A cell that remembers nothing has answered nobody. -/
theorem no_answer (h : Diary skip token memo works A S) (hmemo : ∀ c, memo ≠ .ready c) :
    S.filterMap Delivery.answer? = [] := by
  rw [List.eq_nil_iff_forall_not_mem]
  intro a ha
  exact hmemo _ (h.alike a ha)

theorem answers_opens (S : List (Delivery V)) (h : stage.Opens skip token id m) :
    (S ++ [m]).filterMap Delivery.answer? = S.filterMap Delivery.answer? := by
  rw [List.filterMap_append, List.filterMap_cons_none h.answer?, List.filterMap_nil,
    List.append_nil]

theorem requests_cursor {k : Nat} (h : Requests skip token k S) (customers : List (OnCursor V))
    (c : Cursor V) : Requests skip token k (S ++ customers.map (Delivery.cursor · c)) := by
  refine h.append fun m hm => ?_
  obtain ⟨customer, -, rfl⟩ := List.mem_map.mp hm
  exact ⟨rfl, rfl⟩

theorem answers_cursor (customers : List (OnCursor V)) (c : Cursor V) :
    (customers.map (Delivery.cursor · c)).filterMap Delivery.answer? =
      customers.map fun customer => (customer, c) := by
  induction customers with
  | nil => rfl
  | cons customer customers ih =>
    rw [List.map_cons, List.map_cons, ← ih]
    rfl

/-- The cell goes on to a later stage. -/
theorem opens (h : Diary skip token (.pending customers) works A S) (hstage : works stage)
    (hlt : stage.rank < stage'.rank) (hopens : stage'.Opens skip token id m)
    (hworks : ∀ stage, works' stage → stage = stage') :
    Diary skip token (.pending customers) works' A (S ++ [m]) := by
  have hrequests := (h.stage stage hstage).opens hopens hlt
  refine ⟨?_, ?_, hrequests.mono ?_, by simp, ?_⟩
  · rw [answers_opens S hopens]
    exact h.served
  · rw [answers_opens S hopens]
    exact h.alike
  · cases stage' <;> decide
  · intro stage hstage
    rw [hworks stage hstage]
    exact hrequests

/-- The cell is set to work. -/
theorem begins (h : Diary skip token .idle works A S) (hopens : stage'.Opens skip token id m)
    (hworks : ∀ stage, works' stage → stage = stage') :
    Diary skip token (.pending [customer]) works' (A ++ [customer]) (S ++ [m]) := by
  have hrequests := (h.idle rfl).opens hopens (Nat.zero_le _)
  have hnone := h.no_answer (by simp)
  refine ⟨?_, ?_, hrequests.mono ?_, by simp, ?_⟩
  · rw [answers_opens S hopens]
    have hserved := h.served
    rw [Memo.customers, List.append_nil] at hserved
    exact hserved.append_right _
  · rw [answers_opens S hopens, hnone]
    simp
  · cases stage' <;> decide
  · intro stage hstage
    rw [hworks stage hstage]
    exact hrequests

/-- A customer waits for the cell. -/
theorem waits (h : Diary skip token (.pending customers) works A S) :
    Diary skip token (.pending (customers ++ [customer])) works (A ++ [customer]) S := by
  refine ⟨?_, ?_, h.requests, by simp, h.stage⟩
  · rw [Memo.customers, ← List.append_assoc]
    exact h.served.append_right _
  · rw [h.no_answer (by simp)]
    simp

/-- The cell gives a customer what it remembers. -/
theorem gives (h : Diary skip token (.ready c) works A S) :
    Diary skip token (.ready c) works (A ++ [customer]) (S ++ [.cursor customer c]) := by
  refine ⟨?_, ?_, requests_cursor h.requests [customer] c, by simp, fun stage hstage => ?_⟩
  · have hserved := h.served
    rw [Memo.customers, List.append_nil] at hserved ⊢
    rw [List.filterMap_append, List.map_append]
    exact hserved.append_right _
  · intro a ha
    rw [List.filterMap_append] at ha
    rcases List.mem_append.mp ha with ha | ha
    · exact h.alike a ha
    · rw [List.mem_singleton.mp ha]
  · exact requests_cursor (h.stage stage hstage) [customer] c

/-- The cell is done, and those who waited are served. -/
theorem resolves (h : Diary skip token (.pending customers) works A S)
    (hworks : ∀ stage, ¬ works' stage) :
    Diary skip token (.ready c) works' A (S ++ customers.map (Delivery.cursor · c)) := by
  have hnone := h.no_answer (by simp)
  refine ⟨?_, ?_, requests_cursor h.requests customers c, by simp,
    fun stage hstage => absurd hstage (hworks stage)⟩
  -- whoever has asked is answered now
  · have hserved := h.served
    rw [hnone] at hserved
    have hfst : (customers.map fun customer => (customer, c)).map Prod.fst = customers := by
      simp [Function.comp_def]
    rw [List.filterMap_append, hnone, answers_cursor, List.nil_append, hfst, Memo.customers,
      List.append_nil]
    exact hserved
  · intro a ha
    rw [List.filterMap_append, hnone, answers_cursor] at ha
    obtain ⟨customer, -, rfl⟩ := List.mem_map.mp ha
    rfl

end Diary

/-! ## The diaries along a run -/

/-- A strand works for the cell at this stage. -/
def WorksAt (L : List (Strand V)) (id : Nat) (stage : Stage) : Prop :=
  ∃ s ∈ L, s.owner = some (.cell id stage)

/-- The events `es` make up the diaries of the cells of the chart. -/
structure Recorded (chart : Chart V) (L : List (Strand V)) (es : List (Event V)) (w : World V) :
    Prop where
  size_le : ∀ e ∈ es, e.2.cells.size ≤ w.cells.size
  diary : ∀ id σ cell, chart id = some σ → w.cells[id]? = some cell →
    Diary cell.skip cell.token cell.memo (WorksAt L id) (asks id es) (sentBy id es)

omit [MatchValue V] [DecidableEq V] in
@[simp] theorem worksAt_cons :
    WorksAt (s :: L) id stage ↔ s.owner = some (.cell id stage) ∨ WorksAt L id stage := by
  simp [WorksAt]

omit [MatchValue V] [DecidableEq V] in
@[simp] theorem worksAt_map_serve {c : Cursor V} :
    WorksAt (L.map (Strand.serve i c)) id stage ↔ WorksAt L id stage := by
  simp [WorksAt]

omit [MatchValue V] [DecidableEq V] in
theorem mem_worksFor?_of_worksAt (h : WorksAt L id stage) : id ∈ L.filterMap Strand.worksFor? := by
  obtain ⟨s, hs, howner⟩ := h
  exact List.mem_filterMap.mpr ⟨s, hs, (s.worksFor?_eq_some_iff id).mpr ⟨stage, howner⟩⟩

omit [MatchValue V] [DecidableEq V] in
theorem World.exists_pending {cell : Cell V} (h : w.isBusy id = true)
    (hcell : w.cells[id]? = some cell) : ∃ customers, cell.memo = .pending customers := by
  rw [World.isBusy_of_cell hcell] at h
  cases hm : cell.memo with
  | pending customers => exact ⟨customers, rfl⟩
  | idle | ready =>
    rw [hm] at h
    cases h

section Recorded

variable {Q : Prop} {cell : Cell V}

/-- A busy cell has one strand that works for it. -/
theorem Ledger.not_worksAt (h : Ledger R Q chart (s :: L) q w)
    (hs : s.owner = some (.cell id stage)) (stage' : Stage) : ¬ WorksAt L id stage' := by
  intro hworks
  have hnodup := h.nodup
  rw [List.filterMap_cons_some ((s.worksFor?_eq_some_iff id).mpr ⟨stage, hs⟩)] at hnodup
  exact (List.nodup_cons.mp hnodup).1 (mem_worksFor?_of_worksAt hworks)

theorem Ledger.isBusy_of_worksAt (h : Ledger R Q chart L q w) (hworks : WorksAt L id stage) :
    w.isBusy id = true :=
  ((h.works id).mp (mem_worksFor?_of_worksAt hworks)).1

/-- What a cell matches is written in its source. -/
theorem Follows.patterns {below : Source V} {index : Nat} (hw : Follows R chart w)
    (hid : chart id = some (.derived below skip token index)) (hcell : w.cells[id]? = some cell) :
    cell.skip = skip ∧ cell.token = token := by
  obtain ⟨cell', hcell', hsource⟩ := hw.exists_cell hid
  cases hcell.symm.trans hcell'
  obtain ⟨-, hskip, htoken, -⟩ := Cell.source?_eq_derived_iff.mp hsource
  exact ⟨hskip, htoken⟩

/-- What the handling of a message adds to the diary of its cell. -/
theorem events_append (hm : m.cell? = some id) (hlt : id < w.cells.size)
    (hreceive : receive m w = (ms.map .send, w')) :
    asks id (es ++ [(m, w)]) = asks id es ++ m.asker?.toList ∧
      sentBy id (es ++ [(m, w)]) = sentBy id es ++ ms := by
  have hat : Event.isAt id (m, w) = true := by
    simp [Event.isAt, hm, hlt]
  have hsent : Event.sent (m, w) = ms := by
    rw [Event.sent, hreceive]
    exact Dispatch.filterMap_message?_map_send ms
  rw [asks_append_of_isAt hat, sentBy_append_of_isAt hat, hsent]
  exact ⟨rfl, rfl⟩

theorem Recorded.size_append (h : Recorded chart L es w) (hsize : w.cells.size ≤ w'.cells.size) :
    ∀ e ∈ es ++ [(m, w)], e.2.cells.size ≤ w'.cells.size := by
  intro e he
  rcases List.mem_append.mp he with he | he
  · exact (h.size_le e he).trans hsize
  · rw [List.mem_singleton.mp he]
    exact hsize

/-- No cell of the chart handles the message. -/
theorem Recorded.pass (h : Recorded chart L es w) (hsize : w.cells.size ≤ w'.cells.size)
    (hm : ∀ i σ, chart i = some σ → m.cell? ≠ some i)
    (hcells : ∀ i σ, chart i = some σ → w'.cells[i]? = w.cells[i]?)
    (hworks : ∀ i stage, WorksAt L' i stage → WorksAt L i stage) :
    Recorded chart L' (es ++ [(m, w)]) w' := by
  refine ⟨h.size_append hsize, fun i σ cell hi hcell => ?_⟩
  have hat : Event.isAt i (m, w) = false := by
    simp [Event.isAt, hm i σ hi]
  rw [hcells i σ hi] at hcell
  rw [asks_append_of_not_isAt hat, sentBy_append_of_not_isAt hat]
  exact (h.diary i σ cell hi hcell).imp (hworks i)

/-- One cell of the chart handles the message, and idle cells may be added. -/
theorem Recorded.handle (h : Recorded chart L es w) (hm : m.cell? = some id)
    (hlt : id < w.cells.size) (hreceive : receive m w = (ms.map .send, w'))
    (hsize : w.cells.size ≤ w'.cells.size)
    (hcells : ∀ i, i ≠ id → i < w.cells.size → w'.cells[i]? = w.cells[i]?)
    (hold : ∀ i, i < w.cells.size → chart' i = chart i)
    (hidle : ∀ i cell, w.cells.size ≤ i → w'.cells[i]? = some cell → cell.memo = .idle)
    (hworks : ∀ i stage, i ≠ id → WorksAt L' i stage → WorksAt L i stage)
    (hself : ∀ cell, w'.cells[id]? = some cell → Diary cell.skip cell.token cell.memo
      (WorksAt L' id) (asks id es ++ m.asker?.toList) (sentBy id es ++ ms)) :
    Recorded chart' L' (es ++ [(m, w)]) w' := by
  refine ⟨h.size_append hsize, fun i σ cell hi hcell => ?_⟩
  by_cases hnew : w.cells.size ≤ i
  · -- nothing was delivered to the new cell yet
    obtain ⟨hasks, hsent⟩ := events_of_size_le (fun e he => (h.size_append le_rfl e he).trans hnew)
    rw [hidle i cell hnew hcell, hasks, hsent]
    exact .nil _
  by_cases hne : i = id
  · subst hne
    have hevents : asks i (es ++ [(m, w)]) = asks i es ++ m.asker?.toList ∧
        sentBy i (es ++ [(m, w)]) = sentBy i es ++ ms := events_append hm hlt hreceive
    obtain ⟨hasks, hsent⟩ := hevents
    rw [hasks, hsent]
    exact hself cell hcell
  · have hat : Event.isAt i (m, w) = false := by
      simp [Event.isAt, hm, Ne.symm hne]
    rw [hold i (not_le.mp hnew)] at hi
    rw [hcells i hne (not_le.mp hnew)] at hcell
    rw [asks_append_of_not_isAt hat, sentBy_append_of_not_isAt hat]
    exact (h.diary i σ cell hi hcell).imp fun stage => hworks i stage hne

/-- One cell of the chart handles the message, and changes at most its memo. -/
theorem Recorded.keep (h : Recorded chart L es w) {memo : Memo V} (hm : m.cell? = some id)
    (hid : chart id = some σ) (hcell : w.cells[id]? = some cell)
    (hreceive : receive m w = (ms.map .send, w')) (hcells : w'.cells = (w.setMemo id memo).cells)
    (hworks : ∀ i stage, i ≠ id → WorksAt L' i stage → WorksAt L i stage)
    (hself : Diary cell.skip cell.token cell.memo (WorksAt L id) (asks id es) (sentBy id es) →
      Diary cell.skip cell.token memo (WorksAt L' id) (asks id es ++ m.asker?.toList)
        (sentBy id es ++ ms)) :
    Recorded chart L' (es ++ [(m, w)]) w' := by
  have hsize : w'.cells.size = w.cells.size := by
    rw [hcells, World.size_setMemo]
  refine h.handle hm (Array.getElem?_eq_some_iff.mp hcell).1 hreceive hsize.ge ?_ (fun _ _ => rfl)
    ?_ hworks ?_
  · intro i hne _
    rw [hcells]
    exact World.getElem?_setMemo_of_ne _ hne
  · intro i cell' hle hcell'
    exact absurd (hsize ▸ (Array.getElem?_eq_some_iff.mp hcell').1) hle.not_gt
  · intro cell' hcell'
    rw [hcells, World.getElem?_setMemo, if_pos rfl, hcell] at hcell'
    cases hcell'
    exact hself (h.diary id σ cell hid hcell)

omit [MatchValue V] [DecidableEq V] in
/-- To write down what a cell remembers already changes nothing. -/
theorem World.cells_setMemo_self (hcell : w.cells[id]? = some cell) :
    (w.setMemo id cell.memo).cells = w.cells := by
  refine Array.ext_getElem? fun i => ?_
  rw [World.getElem?_setMemo]
  split_ifs with hi
  · rw [← hi, hcell]
    rfl
  · rfl

/-- **What one move adds to the diaries.** -/
theorem Move.recorded (hmove : Move R chart m w s L chart' L' ms w')
    (hreceive : receive m w = (ms.map .send, w')) (hledger : Ledger R Q chart (s :: L) (m :: q) w)
    (h : Recorded chart (s :: L) es w) : Recorded chart' L' (es ++ [(m, w)]) w' := by
  cases hmove with
  | @relays ω n ω' m' _ _ _ hcells hpasses _ =>
    cases hpasses with
    | on hm =>
      refine h.pass (by rw [hcells]) (by simp [hm]) (by simp [hcells]) fun i stage hworks => ?_
      rw [worksAt_cons] at hworks ⊢
      exact hworks
    | @next id below skip token index stage stage' _ _ hid hm hasker hlt hopens =>
      -- the cell goes on to a later stage
      have hfirst : WorksAt (⟨some (.cell id stage), n + 1, .afoot m⟩ :: L) id stage :=
        worksAt_cons.mpr (.inl rfl)
      obtain ⟨cell, hcell, -⟩ := hledger.follows.exists_cell hid
      obtain ⟨rfl, rfl⟩ := hledger.follows.patterns hid hcell
      obtain ⟨customers, hmemo⟩ := World.exists_pending (hledger.isBusy_of_worksAt hfirst) hcell
      refine h.keep hm hid hcell hreceive (hcells.trans (World.cells_setMemo_self hcell).symm) ?_ ?_
      · intro i stage'' hne hworks
        refine worksAt_cons.mpr (.inr ((worksAt_cons.mp hworks).resolve_left fun he => hne ?_))
        cases he
        rfl
      · intro hdiary
        rw [hmemo] at hdiary ⊢
        rw [hasker, Option.toList_none, List.append_nil]
        refine hdiary.opens hfirst hlt hopens fun stage'' hworks => ?_
        rcases worksAt_cons.mp hworks with he | hworks
        · cases he
          rfl
        · exact absurd hworks (hledger.not_worksAt rfl stage'')
  | reports _ _ _ hm =>
    refine h.pass le_rfl (by simp [hm]) (fun _ _ _ => rfl) fun i stage hworks => ?_
    exact worksAt_cons.mpr (.inr hworks)
  | @finds owner k n id customer σ cell c _ hm hid hcell hmemo =>
    subst hm
    refine h.keep rfl hid hcell hreceive (World.cells_setMemo_self hcell).symm ?_ fun hdiary => ?_
    · simp
    · rw [hmemo] at hdiary ⊢
      exact hdiary.gives.imp (by simp)
  | @waits owner k n id customer σ cell customers _ hm hid hcell hmemo =>
    subst hm
    refine h.keep rfl hid hcell hreceive rfl ?_ fun hdiary => ?_
    · simp
    · rw [hmemo] at hdiary
      rw [List.append_nil]
      exact hdiary.waits.imp (by simp)
  | @employs owner k n id customer σ cell m' stage j _ hm hid hcell hmemo hsource _ _ hopens =>
    subst hm
    -- nobody worked for the cell, which was idle
    have hidle : ∀ stage', ¬ WorksAt (⟨owner, k, .afoot (.ask (.derived id) customer)⟩ :: L) id
        stage' := by
      intro stage' hworks
      obtain ⟨customers, hpending⟩ := World.exists_pending (hledger.isBusy_of_worksAt hworks) hcell
      rw [hmemo] at hpending
      cases hpending
    simp only [worksAt_cons, not_or] at hidle
    refine h.keep rfl hid hcell hreceive rfl ?_ fun hdiary => ?_
    · intro i stage' hne hworks
      simp only [worksAt_cons] at hworks ⊢
      refine hworks.imp_right fun hworks => hworks.resolve_left fun he => hne ?_
      cases he
      rfl
    · rw [hmemo] at hdiary
      refine hdiary.begins hopens fun stage' hworks => ?_
      simp only [worksAt_cons] at hworks
      rcases hworks with he | he | hworks
      · exact absurd he (hidle stage').1
      · cases he
        rfl
      · exact absurd hworks (hidle stage').2
  | @resolves id stage k σ z c _ w₁ _ hid hm hasker hread hc hgrows =>
    have hlt : id < w.cells.size := hledger.follows.lt_size hid
    have hfirst : WorksAt (⟨some (.cell id stage), k, .afoot m⟩ :: L) id stage :=
      worksAt_cons.mpr (.inl rfl)
    obtain ⟨cell, hcell, -⟩ := hledger.follows.exists_cell hid
    obtain ⟨customers, hmemo⟩ := World.exists_pending (hledger.isBusy_of_worksAt hfirst) hcell
    refine h.handle hm hlt hreceive ?_ ?_ hgrows.old ?_ ?_ fun cell' hcell' => ?_
    · rw [World.size_setMemo]
      exact hgrows.size_le
    · intro i hne hi
      rw [World.getElem?_setMemo_of_ne _ hne, hgrows.cells i hi]
    · intro i cell' hle hcell'
      rw [World.getElem?_setMemo_of_ne _ (hlt.trans_le hle).ne'] at hcell'
      exact hgrows.idle i cell' hle hcell'
    · intro i stage' _ hworks
      exact worksAt_cons.mpr (.inr (worksAt_map_serve.mp hworks))
    · have hdiary := h.diary id σ cell hid hcell
      rw [World.getElem?_setMemo, if_pos rfl, hgrows.cells id hlt, hcell] at hcell'
      cases hcell'
      rw [hmemo] at hdiary
      rw [hasker, Option.toList_none, List.append_nil, World.customers_of_cell hcell, hmemo]
      refine hdiary.resolves fun stage' hworks => ?_
      exact hledger.not_worksAt rfl stage' (worksAt_map_serve.mp hworks)
  | @strays k _ _ _ hoff hstrays =>
    refine h.pass hstrays.size_le hoff hstrays.cells fun i stage hworks => ?_
    obtain ⟨s, hs, howner⟩ := hworks
    rcases List.mem_append.mp hs with hs | hs
    · obtain ⟨m', -, rfl⟩ := List.mem_map.mp hs
      cases howner
    · exact ⟨s, List.mem_cons_of_mem _ hs, howner⟩

end Recorded

/-! ## Runs -/

section Runs

variable {owner : Option (Owner V)} {k : Nat} {es' : List (Event V)}

theorem Move.le (hmove : Move R chart m w s L chart' L' ms w') : chart.Le chart' := by
  cases hmove with
  | resolves _ _ _ _ _ hgrows => exact hgrows.le
  | relays | reports | finds | waits | employs | strays => exact .refl chart

/-- The order of the entries of a ledger does not matter. -/
theorem Recorded.perm (h : Recorded chart L es w) (hL : L.Perm L') : Recorded chart L' es w where
  size_le := h.size_le
  diary id σ cell hid hcell := by
    apply (h.diary id σ cell hid hcell).imp
    rintro stage ⟨s, hs, howner⟩
    exact ⟨s, hL.mem_iff.mpr hs, howner⟩

/-- A delivery that does not halt the loop is a move of a strand. -/
theorem Ledger.exists_move (h : Ledger R True chart (⟨owner, k, .afoot m⟩ :: L) (m :: q) w)
    (hreceive : receive m w = (ms.map .send, w')) :
    ∃ chart' L', Move R chart m w ⟨owner, k, .afoot m⟩ L chart' L' ms w' := by
  cases owner with
  | none =>
    obtain ⟨L', hmove⟩ := h.exists_move_of_guest hreceive
    exact ⟨chart, L', hmove⟩
  | some ω =>
    obtain ⟨chart', L', ms', w'', hreceive', hmove⟩ :=
      Lasts.exists_move (h.fits _ List.mem_cons_self) h.follows L
    -- the handling of a message has one result
    obtain ⟨hms, rfl⟩ := Prod.mk.inj (hreceive.symm.trans hreceive')
    obtain rfl := Dispatch.eq_of_map_send hms
    exact ⟨chart', L', hmove⟩

/-- **The diaries after a run that goes idle.** -/
theorem Ledger.exists_recorded (hledger : Ledger R True chart L q w) (h : Recorded chart L es w)
    (hidles : Idles receive q w es' w') :
    ∃ chart', chart.Le chart' ∧ Ledger R True chart' [] [] w' ∧
      Recorded chart' [] (es ++ es') w' := by
  induction hidles generalizing chart L es with
  | idle =>
    obtain rfl := hledger.eq_nil
    rw [List.append_nil]
    exact ⟨chart, .refl chart, hledger, h⟩
  | @deliver m q w ms w₁ es' w' hreceive _ ih =>
    obtain ⟨owner, k, L₀, hperm⟩ := hledger.exists_strand
    have hledger₀ := hledger.perm hperm
    obtain ⟨chart₁, L₁, hmove⟩ := hledger₀.exists_move hreceive
    have hrecorded₁ := hmove.recorded hreceive hledger₀ (h.perm hperm)
    obtain ⟨chart', hle, hledger', hrecorded⟩ := ih (hmove.ledger hledger₀) hrecorded₁
    refine ⟨chart', hmove.le.trans hle, hledger', ?_⟩
    rw [List.append_cons]
    exact hrecorded

end Runs

end Humus.Peg
