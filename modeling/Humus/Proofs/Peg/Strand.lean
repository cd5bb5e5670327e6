import Humus.Proofs.Peg.Adequacy

/-!
# Strands

On one event loop many matches may be under way at once, and the cells of derived streams compute
their cursors for whoever asks. A strand is the work for one owner, a match or a cell. At every
moment it is one message on its way, or one customer that waits for a cell.

What a strand comes to, and how many deliveries it takes, does not depend on the others. A cell that
is asked may know its cursor, or be busy with it, or be set to work by the request. In each case the
customer is given the place that the source of the cell reads, and the work of the cell is a strand
of its own.

## Main definitions

* `Stage`, `Owner V`: how far the work of a cell has come, and whom a strand works for
* `Owner.Passes chart ω m ω' m'`: how a strand goes on from message to message
* `Lasts R n ω chart m`: the strand of `ω` at `m` comes to its last message in `n` deliveries

## Main results

* `Lasts.mono`, `Lasts.of_le`: a strand lasts as the chart grows, and for more deliveries
* `Lasts.relay`: a strand goes on behind an addressee
-/

namespace Humus.Peg

variable {V : Type}

/-! ## Owners -/

/-- How far the work of a cell has come. -/
inductive Stage where
  /-- It waits for the first cursor of the stream below. -/
  | reading
  /-- It steps over what precedes its token. -/
  | skipping
  /-- It matches its token. -/
  | lexing
  deriving DecidableEq

/-- The number of stages before. -/
def Stage.rank : Stage → Nat
  | .reading => 0
  | .skipping => 1
  | .lexing => 2

/-- Whom a strand works for. -/
inductive Owner (V : Type) where
  /-- The match of this number, of a pattern over a source. -/
  | matcher (number : Nat) (p : Pattern V) (σ : Source V)
  /-- The cell of this number, at a stage of its work. -/
  | cell (id : Nat) (stage : Stage)

/-- The owner stands on more than `d` layers, so that what it asks for is not itself. -/
def Owner.Above (chart : Chart V) (d : Nat) : Owner V → Prop
  | .matcher .. => True
  | .cell id _ => ∃ σ, chart id = some σ ∧ d < σ.depth

/-- The cell whose work goes on with this success. -/
def OnSuccess.cell? : OnSuccess V → Option Nat
  | .skipped id | .lexed id _ => some id
  | _ => none

/-- The cell whose work goes on with this failure. -/
def OnFailure.cell? : OnFailure V → Option Nat
  | .unskipped id _ | .unlexed id _ => some id
  | _ => none

/-- The cell whose work goes on with this cursor. -/
def OnCursor.cell? : OnCursor V → Option Nat
  | .reader id => some id
  | _ => none

/-- The cell that handles this message. -/
def Delivery.cell? : Delivery V → Option Nat
  | .success customer _ => customer.cell?
  | .failure customer _ => customer.cell?
  | .cursor customer _ => customer.cell?
  | .ask (.derived id) _ => some id
  | .request .. | .tallied .. | .ignored | .ask .. => none

/-- The one who asks a derived stream for a cursor. -/
def Delivery.asker? : Delivery V → Option (OnCursor V)
  | .ask (.derived _) customer => some customer
  | _ => none

/-- The message with which a cell begins a stage of its work. -/
inductive Stage.Opens (skip : Option (Pattern V)) (token : Pattern V) (id : Nat) :
    Stage → Delivery V → Prop where
  | reading {s} : Stage.Opens skip token id .reading (.ask s (.reader id))
  | skipping {p c} : skip = some p →
      Stage.Opens skip token id .skipping (.request p ⟨c, .skipped id, .unskipped id c⟩)
  | lexing {c} :
      Stage.Opens skip token id .lexing (.request token ⟨c, .lexed id c, .unlexed id c⟩)

/-- The message `m` of a strand is followed by `m'`. Only where a cell is told of the end of a
stage, the strand goes on for a later stage. -/
inductive Owner.Passes (chart : Chart V) :
    Owner V → Delivery V → Owner V → Delivery V → Prop where
  | on {ω m m'} : m.cell? = none → Owner.Passes chart ω m ω m'
  | next {id below skip token index stage stage' m m'} :
      chart id = some (.derived below skip token index) → m.cell? = some id → m.asker? = none →
      stage.rank < stage'.rank → stage'.Opens skip token id m' →
      Owner.Passes chart (.cell id stage) m (.cell id stage') m'

/-- What a cell does when it is set to work. -/
def Cell.begin (cell : Cell V) (id : Nat) : Effects V :=
  match cell.base with
  | .cursor c => cell.skipAt id c
  | .stream s => [.send (.ask s (.reader id))]

theorem askCell_idle {w : World V} {id : Nat} {cell : Cell V} (customer : OnCursor V)
    (hcell : w.cells[id]? = some cell) (hm : cell.memo = .idle) :
    askCell id customer w = (cell.begin id, w.setMemo id (.pending [customer])) := by
  simp only [askCell, hcell, hm, Cell.begin]
  cases cell.base <;> rfl

/-- The source that a cell is the first place of. -/
def Cell.source? (chart : Chart V) (cell : Cell V) : Option (Source V) :=
  (cell.base.source? chart).map fun β => .derived β cell.skip cell.token cell.index

theorem Cell.source?_eq_some_iff {chart : Chart V} {cell : Cell V} {σ : Source V} :
    cell.source? chart = some σ ↔
      ∃ β, cell.base.source? chart = some β ∧ σ = .derived β cell.skip cell.token cell.index := by
  rw [Cell.source?, Option.map_eq_some_iff]
  simp only [eq_comm]

variable [MatchValue V] [DecidableEq V]

/-! ## Strands that come to an end -/

/-- The handling of `m` sends one message, which satisfies `P`, and changes no cell. -/
def Relays (m : Delivery V) (w : World V) (P : Delivery V → Prop) : Prop :=
  ∃ m' w', receive m w = ([.send m'], w') ∧ w.Quiet w' ∧ w'.cells = w.cells ∧ P m'

/-- A cell that tried its token at `here` is told the verdict, and knows then what it reads. -/
def Lexed (R : Rulebook V) (chart : Chart V) (id : Nat) (m : Delivery V) : Prop :=
  ∃ below skip token index here y o z, chart id = some (.derived below skip token index) ∧
    here.place? chart = some y ∧ Told chart here (.lexed id here) (.unlexed id here) o m ∧
    readFrom skip token index y o = .ok z ∧ Reads R (.derived below skip token index) (.ok z)

/-- The last message of a strand: the report of a match, or the verdict on the token of a cell. -/
def Owner.Ends (R : Rulebook V) (chart : Chart V) : Owner V → Delivery V → Prop
  | .matcher n p σ, m => ∃ f, Finds R p σ f ∧ Reports chart n f m
  | .cell id stage, m => stage = .lexing ∧ Lexed R chart id m

/-- Set to work, the cell of the source `σ` begins a strand of `F`. -/
def Employs (F : Owner V → Chart V → Delivery V → Prop) (chart : Chart V) (id : Nat)
    (σ : Source V) : Prop :=
  ∀ (chart' : Chart V) (cell : Cell V), chart.Le chart' → cell.source? chart' = some σ →
    ∃ m stage, cell.begin id = [.send m] ∧ stage.Opens cell.skip cell.token id m ∧
      F (.cell id stage) chart' m

/-- The strand of `ω` asks a cell, and goes on as one of `F` with the place that its source reads.
If the cell has to be set to work, it begins a strand of `F` as well. -/
def Awaits (R : Rulebook V) (F : Owner V → Chart V → Delivery V → Prop) (ω : Owner V)
    (chart : Chart V) (m : Delivery V) : Prop :=
  ∃ id customer σ z, m = .ask (.derived id) customer ∧ chart id = some σ ∧ Reads R σ (.ok z) ∧
    ω.Above chart σ.depth ∧ Employs F chart id σ ∧
    ∀ chart' c, chart.Le chart' → c.place? chart' = some z → F ω chart' (.cursor customer c)

/-- The strand of `ω` at `m` comes to its last message in `n` deliveries of its own, the time not
counted for which it waits. -/
def Lasts (R : Rulebook V) : Nat → Owner V → Chart V → Delivery V → Prop
  | 0, ω, chart, m => ω.Ends R chart m
  | n + 1, ω, chart, m =>
    ω.Ends R chart m ∨
    (∀ chart' w, chart.Le chart' → Follows R chart' w →
      Relays m w fun m' => ∃ ω', ω.Passes chart' m ω' m' ∧ Lasts R n ω' chart' m') ∨
    Awaits R (Lasts R n) ω chart m

variable {R : Rulebook V} {chart chart' : Chart V} {w w' : World V} {ω : Owner V} {n k k' d : Nat}
  {id : Nat} {start here : Cursor V} {ok : OnSuccess V} {fail : OnFailure V} {m m' : Delivery V}
  {x y z : Place V} {o : Verdict (Place V) V} {σ : Source V} {customer : OnCursor V}

omit [MatchValue V] [DecidableEq V] in
theorem Owner.Above.mono (h : ω.Above chart d) (hle : chart.Le chart') : ω.Above chart' d := by
  cases ω with
  | matcher => trivial
  | cell id stage =>
    obtain ⟨σ, hσ, hd⟩ := h
    exact ⟨σ, hle id σ hσ, hd⟩

omit [MatchValue V] [DecidableEq V] in
theorem Owner.Above.of_le (h : ω.Above chart d) {d' : Nat} (hd : d' ≤ d) : ω.Above chart d' := by
  cases ω with
  | matcher => trivial
  | cell id stage =>
    obtain ⟨σ, hσ, hlt⟩ := h
    exact ⟨σ, hσ, hd.trans_lt hlt⟩

omit [MatchValue V] [DecidableEq V] in
theorem Told.mono (h : Told chart start ok fail o m) (hle : chart.Le chart') :
    Told chart' start ok fail o m := by
  cases h with
  | matched hy => exact .matched (Cursor.place?_mono hle _ hy)
  | refused hp hr => exact .refused hp (hr.mono hle)

omit [MatchValue V] [DecidableEq V] in
theorem Told.cell? (h : Told chart start ok fail o m) (hok : ok.cell? = none)
    (hfail : fail.cell? = none) : m.cell? = none := by
  cases h with
  | matched => exact hok
  | refused => exact hfail

omit [MatchValue V] [DecidableEq V] in
theorem Reports.mono {f : Finding V} (h : Reports chart n f m) (hle : chart.Le chart') :
    Reports chart' n f m := by
  cases h with
  | matched hx hy => exact .matched (Cursor.place?_mono hle _ hx) (Cursor.place?_mono hle _ hy)
  | refused hx hr => exact .refused (Cursor.place?_mono hle _ hx) (hr.mono hle)

theorem Owner.Ends.mono (h : ω.Ends R chart m) (hle : chart.Le chart') : ω.Ends R chart' m := by
  cases ω with
  | matcher n p σ =>
    obtain ⟨f, hf, hreports⟩ := h
    exact ⟨f, hf, hreports.mono hle⟩
  | cell id stage =>
    obtain ⟨hstage, below, skip, token, index, here, y, o, z, hid, hy, htold, hz, hread⟩ := h
    exact ⟨hstage, below, skip, token, index, here, y, o, z, hle id _ hid,
      Cursor.place?_mono hle _ hy, htold.mono hle, hz, hread⟩

omit [MatchValue V] [DecidableEq V] in
theorem Employs.mono {F : Owner V → Chart V → Delivery V → Prop} (h : Employs F chart id σ)
    (hle : chart.Le chart') : Employs F chart' id σ :=
  fun chart'' cell hle' hcell => h chart'' cell (hle.trans hle') hcell

/-- What lasts goes on to do so when cells are added to the chart. -/
theorem Lasts.mono (h : Lasts R n ω chart m) (hle : chart.Le chart') : Lasts R n ω chart' m := by
  cases n with
  | zero => exact Owner.Ends.mono h hle
  | succ n =>
    rcases h with hends | hrelays | ⟨id, customer, σ, z, rfl, hid, hread, habove, hemploys, hnext⟩
    · exact .inl (hends.mono hle)
    · exact .inr (.inl fun chart'' w hle' hw => hrelays chart'' w (hle.trans hle') hw)
    · exact .inr (.inr ⟨id, customer, σ, z, rfl, hle id σ hid, hread, habove.mono hle,
        hemploys.mono hle, fun chart'' c hle' hc => hnext chart'' c (hle.trans hle') hc⟩)

omit [MatchValue V] [DecidableEq V] in
theorem Employs.imp {F F' : Owner V → Chart V → Delivery V → Prop} (h : Employs F chart id σ)
    (hF : ∀ ω chart m, F ω chart m → F' ω chart m) : Employs F' chart id σ := by
  intro chart' cell hle hcell
  obtain ⟨m, stage, hbegin, hopens, hm⟩ := h chart' cell hle hcell
  exact ⟨m, stage, hbegin, hopens, hF _ _ _ hm⟩

/-- What comes to its end in `n` deliveries does so in one more. -/
theorem Lasts.succ (h : Lasts R n ω chart m) : Lasts R (n + 1) ω chart m := by
  induction n generalizing ω chart m with
  | zero => exact .inl h
  | succ n ih =>
    rcases h with hends | hrelays | ⟨id, customer, σ, z, rfl, hid, hread, habove, hemploys, hnext⟩
    · exact .inl hends
    · refine .inr (.inl fun chart' w hle hw => ?_)
      obtain ⟨m', w', hreceive, hquiet, hcells, ω', hpasses, hm'⟩ := hrelays chart' w hle hw
      exact ⟨m', w', hreceive, hquiet, hcells, ω', hpasses, ih hm'⟩
    · exact .inr (.inr ⟨id, customer, σ, z, rfl, hid, hread, habove,
        hemploys.imp fun _ _ _ => ih, fun chart' c hle hc => ih (hnext chart' c hle hc)⟩)

theorem Lasts.of_le (h : Lasts R n ω chart m) (hle : n ≤ k) : Lasts R k ω chart m := by
  induction hle with
  | refl => exact h
  | step _ ih => exact ih.succ

/-- A message that is passed on by an addressee who is no cell. -/
theorem Lasts.relay (hm : m.cell? = none)
    (h : ∀ chart' w, chart.Le chart' → Follows R chart' w → Relays m w (Lasts R n ω chart')) :
    Lasts R (n + 1) ω chart m := by
  refine .inr (.inl fun chart' w hle hw => ?_)
  obtain ⟨m', w', hreceive, hquiet, hcells, hm'⟩ := h chart' w hle hw
  exact ⟨m', w', hreceive, hquiet, hcells, ω, .on hm, hm'⟩

theorem Relays.of_eq {P : Delivery V → Prop} (hreceive : receive m w = ([.send m'], w))
    (hm' : P m') : Relays m w P :=
  ⟨m', w, hreceive, .refl w, rfl, hm'⟩

end Humus.Peg
