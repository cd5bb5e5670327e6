import Humus.Proofs.Peg.Diaries
import Humus.Proofs.Peg.Limit

/-!
# Memoizing

A derived stream remembers the cursors of its positions. Its life is any number of runs, one after
the other, on each of which any number of matches and walks read the stream and whatever else there
is. Over the whole life the patterns of the stream are asked at most once at each position, whoever
asks for a position is answered once, and all are given the cursor that would be computed if nothing
were remembered.

Of the matches and walks nothing is assumed, but that they do not halt the loop. They may fall
silent. The patterns of the stream are to answer wherever they are tried.

## Main definitions

* `Delivery.IsFirst m`: the message begins a match or a walk
* `History w₀ ss es w`: what took place from the world `w₀` on, which has no derived stream yet
* `CellAt w first k id`, `PlaceAt R σ k z`: position `k` of a stream, as its cells remember it and
  as it is computed anew
* `Serves skip token es id`: what a position does

## Main results

* `History.exists_run`, `History.exists_parse`, `History.exists_collect`: every run that goes idle
  makes a history longer
* `History.exists_kept`: the streams of a history can be written out, and its events are recorded
* `derived_streams_memoize`: derived streams memoize without losing customers
-/

namespace Humus.Peg

open Dispatch (Loop Idles Stop)

variable {V : Type}

/-! ## Lives of streams -/

/-- The message begins a match or a walk. -/
inductive Delivery.IsFirst : Delivery V → Prop where
  | atStream {s p n} : IsFirst (.ask s (matcher p n))
  | atCursor {c p n} : IsFirst (.cursor (matcher p n) c)
  | walk {s} : IsFirst (.ask s .walker)

variable [MatchValue V] [DecidableEq V]

/-- The events `es` took place since the world was `w₀`, which has no derived stream, and led to the
world `w`. Meanwhile the streams of `ss` were built, each with its source. Their patterns answer
wherever they are tried. Other streams, of which that need not hold, may have been built beside
them. -/
inductive History (w₀ : World V) : List (Stream V × Source V) → List (Event V) → World V → Prop
    where
  | start : w₀.cells = #[] → History w₀ [] [] w₀
  /-- A stream that has no cells: a text, a list, or a cursor of one. -/
  | plain {ss es w s σ} : History w₀ ss es w → s.source? (fun _ => none) = some σ →
      σ.Answers w₀.rulebook → History w₀ ((s, σ) :: ss) es w
  /-- A derived stream. -/
  | derived {ss es w s below skip token} : History w₀ ss es w → (s, below) ∈ ss →
      (Source.derived below skip token 0).Answers w₀.rulebook →
      History w₀ (((w.derive s skip token).1, .derived below skip token 0) :: ss) es
        (w.derive s skip token).2
  /-- A cursor that a derived stream gave, and that is kept. -/
  | given {ss es w id σ cell c z} : History w₀ ss es w → (.derived id, σ) ∈ ss →
      w.cells[id]? = some cell → cell.memo = .ready c → Reads w₀.rulebook σ (.ok z) →
      History w₀ ((.fixed c, .fixed z) :: ss) es w
  /-- The stream behind the token of a cursor. -/
  | behind {ss es w p v s q u τ} : History w₀ ss es w →
      (.fixed (.token p v s), .fixed (.token q u τ)) ∈ ss → History w₀ ((s, τ) :: ss) es w
  /-- A derived stream of which nothing is assumed. -/
  | aside {ss es w s skip token} : History w₀ ss es w → History w₀ ss es (w.derive s skip token).2
  /-- The answers and the cursors of a run are put away. -/
  | tidy {ss es w w'} : History w₀ ss es w → w'.rulebook = w.rulebook → w'.cells = w.cells →
      History w₀ ss es w'
  /-- Matches and walks are started on an event loop, which goes idle. -/
  | run {ss es w first fuel limit n loop es' w'} : History w₀ ss es w →
      (∀ m ∈ first, m.IsFirst) → runLoop fuel limit first w = some (.ok n, loop, w') →
      Idles receive first w es' w' → History w₀ ss (es ++ es') w'

/-- The cell `id` is position `k` of the stream that begins with the cell `first`. -/
inductive CellAt (w : World V) : Nat → Nat → Nat → Prop where
  | here {id} : CellAt w id 0 id
  | next {first cell p v next k id} : w.cells[first]? = some cell →
      cell.memo = .ready (.token p v (.derived next)) → CellAt w next k id →
      CellAt w first (k + 1) id

/-- Position `k` of the source, computed anew. -/
inductive PlaceAt (R : Rulebook V) : Source V → Nat → Place V → Prop where
  | here {σ z} : Reads R σ (.ok z) → PlaceAt R σ 0 z
  | next {σ p v rest k z} : Reads R σ (.ok (.token p v rest)) → PlaceAt R rest k z →
      PlaceAt R σ (k + 1) z

/-- The cell `id` asked each of the two patterns at most once, and no other pattern. Those who asked
the cell were answered once each, all with the same cursor. -/
structure Serves (skip : Option (Pattern V)) (token : Pattern V) (es : List (Event V)) (id : Nat) :
    Prop where
  token_once : (tokenRequests id es).Sublist [token]
  skip_once : (skipRequests id es).Sublist skip.toList
  answered : ((answers id es).map Prod.fst).Perm (asks id es)
  alike : ∀ a ∈ answers id es, ∀ b ∈ answers id es, a.2 = b.2

variable {R : Rulebook V} {chart chart' : Chart V} {w₀ w w' : World V} {id first k : Nat}
  {σ : Source V} {z z' : Place V} {es es' : List (Event V)} {ss : List (Stream V × Source V)}
  {ms : List (Delivery V)} {next cell : Cell V}

/-! ## Runs -/

/-- A run of a new loop that goes idle, under any limit, consists of deliveries. -/
theorem exists_idles_of_runLoop {fuel n : Nat} {limit : Option Nat} {loop : Loop (Delivery V) Fault}
    (hrun : runLoop fuel limit ms w = some (.ok n, loop, w')) :
    ∃ es, Idles receive ms w es w' := by
  have hfresh : (ms.foldl Loop.send (.fresh limit : Loop (Delivery V) Fault)).withLimit none =
      ms.foldl Loop.send (.fresh none) := by
    rw [← Loop.foldl_perform_send, ← Loop.foldl_perform_send, ← Loop.foldl_perform_withLimit]
    rfl
  have hnone := Loop.runFrom_withLimit_none hrun
  rw [hfresh] at hnone
  exact ((Loop.queued_fresh ms).exists_idles hnone).2

/-- **Every run that goes idle makes a history longer.** -/
theorem History.exists_run {fuel n : Nat} {limit : Option Nat} {loop : Loop (Delivery V) Fault}
    (h : History w₀ ss es w) (hfirst : ∀ m ∈ ms, m.IsFirst)
    (hrun : runLoop fuel limit ms w = some (.ok n, loop, w')) :
    ∃ es', History w₀ ss (es ++ es') w' := by
  obtain ⟨es', hidles⟩ := exists_idles_of_runLoop hrun
  exact ⟨es', h.run hfirst hrun hidles⟩

/-- A parse that is not halted makes a history longer. -/
theorem History.exists_parse {fuel : Nat} {limit : Option Nat} {p : Pattern V} {s : Stream V}
    {out : Outcome V} (h : History w₀ ss es w)
    (hrun : parse fuel limit p s w = some (out, w')) (hout : ∀ stop, out ≠ .error (.halted stop)) :
    ∃ es', History w₀ ss (es ++ es') w' := by
  rw [parse_eq_map, Option.map_eq_some_iff] at hrun
  obtain ⟨⟨result, loop, w₁⟩, hrun, he⟩ := hrun
  obtain ⟨hresult, rfl⟩ := Prod.mk.inj he
  cases result with
  | error stop => exact absurd hresult.symm (hout stop)
  | ok n =>
    have hstart : History w₀ ss es { w with answers := [] } := h.tidy rfl rfl
    obtain ⟨es', h'⟩ := hstart.exists_run (List.forall_mem_singleton.mpr .atStream) hrun
    exact ⟨es', h'.tidy rfl rfl⟩

/-- A walk that comes to an end makes a history longer. -/
theorem History.exists_collect {fuel : Nat} {limit : Option Nat} {s : Stream V}
    {cs : List (Cursor V)} (h : History w₀ ss es w)
    (hrun : collect fuel limit s w = some (.ok cs, w')) :
    ∃ es', History w₀ ss (es ++ es') w' := by
  rw [collect_eq_map, Option.map_eq_some_iff] at hrun
  obtain ⟨⟨result, loop, w₁⟩, hrun, he⟩ := hrun
  obtain ⟨hresult, rfl⟩ := Prod.mk.inj he
  cases result with
  | error stop => cases hresult
  | ok n =>
    have hstart : History w₀ ss es { w with walked := [] } := h.tidy rfl rfl
    obtain ⟨es', h'⟩ := hstart.exists_run (List.forall_mem_singleton.mpr .walk) hrun
    exact ⟨es', h'.tidy rfl rfl⟩

omit [MatchValue V] [DecidableEq V] in
/-- A match or a walk is not for the work of any cell. -/
theorem Delivery.IsFirst.among {m : Delivery V} (h : m.IsFirst) (E : Nat → Prop) : m.Among E := by
  cases h with
  | atStream | atCursor => exact ⟨trivial, trivial⟩
  | walk => trivial

/-! ## Worlds at rest -/

/-- Nothing is on its way, and the sources of the chart answer. Customers may wait for cells that
are not on the chart, but none that works for a cell of the chart. -/
structure AtRest (R : Rulebook V) (chart : Chart V) (w : World V) : Prop where
  rulebook : w.rulebook = R
  charted : Charted R (fun _ => False) chart w.cells
  guests : ∀ id, chart id = none → ∀ customer ∈ w.customers id,
    customer.Among (chart.Off w.cells.size)
  answers : ∀ id σ, chart id = some σ → σ.Answers R

theorem AtRest.follows (h : AtRest R chart w) : Follows R chart w :=
  ⟨h.rulebook, h.charted.imp fun _ h => h.elim⟩

/-- Guests arrive in a world at rest. -/
theorem AtRest.ledger (h : AtRest R chart w) (hms : ∀ m ∈ ms, m.Among (chart.Off w.cells.size)) :
    Ledger R True chart (ms.map (⟨none, 0, .afoot ·⟩)) ms w := by
  refine Charted.ledger h.charted h.rulebook ?_ ?_ (fun id => Strand.customer?_map_guest id 0 ms)
    (Strand.worksFor?_map_guest 0 ms) (fun _ => h.guests) fun _ => h.answers
  · intro s hs
    obtain ⟨m, hm, rfl⟩ := List.mem_map.mp hs
    exact hms m hm
  · rw [Strand.message?_map_guest]

/-- When nothing is on its way any more, the world is at rest. -/
theorem Ledger.atRest (h : Ledger R True chart [] [] w) : AtRest R chart w where
  rulebook := h.follows.rulebook
  charted id σ hid := by
    obtain ⟨cell, hcell, hfits⟩ := h.follows.charted id σ hid
    refine ⟨cell, hcell, hfits.base, ?_⟩
    -- nothing is on its way, so that nobody works for a cell
    have hbusy := h.not_isBusy hid
    have hmemo := hfits.memo
    rw [World.isBusy_of_cell hcell] at hbusy
    cases hm : cell.memo with
    | idle => trivial
    | pending customers =>
      rw [hm] at hbusy
      cases hbusy
    | ready c =>
      rw [hm] at hmemo
      exact hmemo
  guests := h.guests trivial
  answers := h.answers trivial

theorem AtRest.of_cells (h : AtRest R chart w) (hrulebook : w'.rulebook = w.rulebook)
    (hcells : w'.cells = w.cells) : AtRest R chart w' where
  rulebook := hrulebook.trans h.rulebook
  charted := hcells ▸ h.charted
  guests id hid := by
    rw [hcells, World.customers_congr (w := w) (by rw [hcells])]
    exact h.guests id hid
  answers := h.answers

/-- A cell is added, which the chart says nothing of. -/
theorem AtRest.push_aside (h : AtRest R chart w) (hm : next.memo = .idle) :
    AtRest R chart (w.addCell next).2 where
  rulebook := h.rulebook
  charted := h.charted.push_aside next
  guests id hid customer hcustomer := by
    rw [World.customers_addCell hm] at hcustomer
    apply (h.guests id hid customer hcustomer).mono
    intro i
    exact Chart.Off.grow (by simp [World.addCell]) fun _ _ => rfl
  answers := h.answers

/-- A cell is added whose source answers. -/
theorem AtRest.push (h : AtRest R chart w) (hm : next.memo = .idle)
    (hnext : next.source? chart = some σ) (hσ : σ.Answers R) :
    chart.Le (Function.update chart w.cells.size (some σ)) ∧
      AtRest R (Function.update chart w.cells.size (some σ)) (w.addCell next).2 := by
  obtain ⟨β, hβ, rfl⟩ := Cell.source?_eq_some_iff.mp hnext
  obtain ⟨hcharted, hle⟩ := h.charted.push hm hβ
  refine ⟨hle, h.rulebook, hcharted, fun id hid customer hcustomer => ?_, fun id τ hid => ?_⟩
  · have hne : id ≠ w.cells.size := by
      rintro rfl
      rw [Function.update_self] at hid
      cases hid
    rw [Function.update_of_ne hne] at hid
    rw [World.customers_addCell hm] at hcustomer
    apply (h.guests id hid customer hcustomer).mono
    intro i
    exact Chart.Off.grow (by simp [World.addCell]) fun j hj => Function.update_of_ne hj.ne _ _
  · by_cases hne : id = w.cells.size
    · rw [hne, Function.update_self] at hid
      cases hid
      exact hσ
    · rw [Function.update_of_ne hne] at hid
      exact h.answers id τ hid

/-! ## Diaries between runs -/

/-- The diaries do not change when guests arrive. -/
theorem Recorded.guests (h : Recorded chart [] es w) :
    Recorded chart (ms.map (⟨none, 0, .afoot ·⟩)) es w where
  size_le := h.size_le
  diary id σ cell hid hcell := by
    apply (h.diary id σ cell hid hcell).imp
    rintro stage ⟨s, hs, howner⟩
    obtain ⟨m, -, rfl⟩ := List.mem_map.mp hs
    cases howner

/-- The diaries of the old cells stay as they are, and those of new cells are empty. -/
theorem Recorded.grow (h : Recorded chart [] es w) (hsize : w.cells.size ≤ w'.cells.size)
    (hcells : ∀ i, i < w.cells.size → w'.cells[i]? = w.cells[i]?)
    (hold : ∀ i, i < w.cells.size → chart' i = chart i)
    (hidle : ∀ i cell, w.cells.size ≤ i → w'.cells[i]? = some cell → cell.memo = .idle) :
    Recorded chart' [] es w' where
  size_le e he := (h.size_le e he).trans hsize
  diary i σ cell hi hcell := by
    by_cases hlt : i < w.cells.size
    · rw [hold i hlt] at hi
      rw [hcells i hlt] at hcell
      exact h.diary i σ cell hi hcell
    · have hle := not_lt.mp hlt
      obtain ⟨hasks, hsent⟩ := events_of_size_le fun e he => (h.size_le e he).trans hle
      rw [hidle i cell hle hcell, hasks, hsent]
      exact .nil _

theorem Recorded.push (h : Recorded chart [] es w) (hm : next.memo = .idle)
    (hold : ∀ i, i < w.cells.size → chart' i = chart i) :
    Recorded chart' [] es (w.addCell next).2 := by
  refine h.grow (by simp [World.addCell]) (fun i => World.getElem?_addCell) hold ?_
  intro i cell hle hcell
  rw [World.eq_of_getElem?_addCell hle hcell]
  exact hm

/-! ## Histories -/

/-- The streams of the history can be written out, and its events are recorded. -/
structure Kept (R : Rulebook V) (ss : List (Stream V × Source V)) (es : List (Event V))
    (w : World V) (chart : Chart V) : Prop where
  atRest : AtRest R chart w
  recorded : Recorded chart [] es w
  sources : ∀ t ∈ ss, t.1.source? chart = some t.2

namespace Kept

variable {s : Stream V}

/-- A stream that is written out by the chart belongs to the streams of the history. -/
theorem cons (h : Kept R ss es w chart) (hs : s.source? chart = some σ) :
    Kept R ((s, σ) :: ss) es w chart :=
  ⟨h.atRest, h.recorded, List.forall_mem_cons.mpr ⟨hs, h.sources⟩⟩

theorem start (hcells : w.cells = #[]) : Kept w.rulebook [] [] w fun _ => none := by
  have hcustomers : ∀ id, w.customers id = [] := by
    intro id
    apply World.customers_eq_nil
    simp [hcells]
  constructor
  · refine ⟨rfl, ?_, ?_, ?_⟩
    · intro id σ hid
      cases hid
    · intro id _ customer hcustomer
      rw [hcustomers] at hcustomer
      cases hcustomer
    · intro id σ hid
      cases hid
  · constructor
    · simp
    · intro id σ cell hid
      cases hid
  · simp

/-- A derived stream is built on one of the streams. -/
theorem derived (h : Kept R ss es w chart) {below : Source V} {skip : Option (Pattern V)}
    {token : Pattern V} (hs : (s, below) ∈ ss)
    (hanswers : (Source.derived below skip token 0).Answers R) :
    ∃ chart', Kept R (((w.derive s skip token).1, .derived below skip token 0) :: ss) es
      (w.derive s skip token).2 chart' := by
  let next : Cell V := { base := .stream s, skip, token, index := 0, memo := .idle }
  have hnext : next.source? chart = some (.derived below skip token 0) :=
    Cell.source?_eq_some_iff.mpr ⟨below, h.sources _ hs, rfl⟩
  obtain ⟨hle, hrest⟩ := h.atRest.push rfl hnext hanswers
  refine ⟨_, hrest, ?_, List.forall_mem_cons.mpr ⟨?_, ?_⟩⟩
  · exact h.recorded.push rfl fun i hi => Function.update_of_ne hi.ne _ _
  · exact Function.update_self ..
  · intro t ht
    exact t.1.source?_mono hle (h.sources t ht)

/-- Matches and walks run until nothing is on its way. -/
theorem run (h : Kept R ss es w chart) (hms : ∀ m ∈ ms, m.IsFirst)
    (hidles : Idles receive ms w es' w') : ∃ chart', Kept R ss (es ++ es') w' chart' := by
  have hledger := h.atRest.ledger fun m hm => (hms m hm).among _
  obtain ⟨chart', hle, hledger', hrecorded⟩ :=
    hledger.exists_recorded h.recorded.guests hidles
  refine ⟨chart', hledger'.atRest, hrecorded, fun t ht => ?_⟩
  exact t.1.source?_mono hle (h.sources t ht)

end Kept

/-- **The streams of a history can be written out, and its events are recorded.** -/
theorem History.exists_kept (h : History w₀ ss es w) : ∃ chart, Kept w₀.rulebook ss es w chart := by
  induction h with
  | start hcells => exact ⟨_, .start hcells⟩
  | plain _ hs _ ih =>
    obtain ⟨chart, h⟩ := ih
    refine ⟨chart, h.cons (Stream.source?_mono ?_ _ hs)⟩
    intro id σ hid
    cases hid
  | derived _ hs hanswers ih =>
    obtain ⟨chart, h⟩ := ih
    exact h.derived hs hanswers
  | given _ hs hcell hmemo hread ih =>
    obtain ⟨chart, h⟩ := ih
    have hc := h.atRest.follows.place?_of_ready (h.sources _ hs) hread hcell hmemo
    exact ⟨chart, h.cons (by rw [Stream.source?, hc, Option.map_some])⟩
  | @behind ss es w p v s q u τ _ hs ih =>
    obtain ⟨chart, h⟩ := ih
    refine ⟨chart, h.cons ?_⟩
    have hsource := h.sources _ hs
    simp only [Stream.source?, Cursor.place?, Option.map_map, Option.map_eq_some_iff] at hsource
    obtain ⟨σ, hσ, he⟩ := hsource
    cases he
    exact hσ
  | aside _ ih =>
    obtain ⟨chart, h⟩ := ih
    exact ⟨chart, h.atRest.push_aside rfl, h.recorded.push rfl fun _ _ => rfl, h.sources⟩
  | tidy _ hrulebook hcells ih =>
    obtain ⟨chart, h⟩ := ih
    refine ⟨chart, h.atRest.of_cells hrulebook hcells, ?_, h.sources⟩
    exact ⟨by rw [hcells]; exact h.recorded.size_le, by rw [hcells]; exact h.recorded.diary⟩
  | run _ hfirst _ hidles ih =>
    obtain ⟨chart, h⟩ := ih
    exact h.run hfirst hidles

/-! ## Positions -/

/-- What a source reads at a position is unique. -/
theorem PlaceAt.unique (h : PlaceAt R σ k z) (h' : PlaceAt R σ k z') : z = z' := by
  induction h with
  | here hread =>
    cases h' with
    | here hread' => cases hread.unique hread'; rfl
  | next hread _ ih =>
    cases h' with
    | next hread' h' =>
      cases hread.unique hread'
      exact ih h'

/-- **A position of a derived stream is what its source reads there.** -/
theorem CellAt.exists_placeAt {below : Source V} {skip : Option (Pattern V)} {token : Pattern V}
    {index : Nat} (hcellAt : CellAt w first k id) (h : AtRest R chart w)
    (hfirst : chart first = some (.derived below skip token index)) :
    ∃ below' index' z, chart id = some (.derived below' skip token index') ∧
      Reads R (.derived below' skip token index') (.ok z) ∧
      PlaceAt R (.derived below skip token index) k z := by
  induction hcellAt generalizing below index with
  | here =>
    obtain ⟨z, hread⟩ := (h.answers _ _ hfirst).exists_reads
    exact ⟨below, index, z, hfirst, hread, .here hread⟩
  | next hcell hmemo _ ih =>
    obtain ⟨z, hread⟩ := (h.answers _ _ hfirst).exists_reads
    -- the next cell stands for what comes behind the token
    have hplace := h.follows.place?_of_ready hfirst hread hcell hmemo
    simp only [Cursor.place?, Stream.source?, Option.map_eq_some_iff] at hplace
    obtain ⟨rest, hnext, rfl⟩ := hplace
    obtain ⟨y, rfl⟩ := hread.rest_of_derived
    obtain ⟨below', index', z, hid, hread', hplaceAt⟩ := ih hnext
    exact ⟨below', index', z, hid, hread', .next hread hplaceAt⟩

omit [MatchValue V] [DecidableEq V] in
theorem Memo.customers_of_not_isPending {memo : Memo V} (h : memo.isPending = false) :
    memo.customers = [] := by
  cases memo with
  | idle | ready => rfl
  | pending => cases h

/-- A cell that is not being computed has served all who asked it. -/
theorem Kept.serves (h : Kept R ss es w chart) {below : Source V} {skip : Option (Pattern V)}
    {token : Pattern V} {index : Nat} (hid : chart id = some (.derived below skip token index)) :
    Serves skip token es id := by
  obtain ⟨cell, hcell, -⟩ := h.atRest.follows.exists_cell hid
  obtain ⟨rfl, rfl⟩ := h.atRest.follows.patterns hid hcell
  have hdiary := h.recorded.diary id _ cell hid hcell
  have hserved := hdiary.served
  have hidle := h.atRest.charted.not_isBusy hid
  rw [World.isBusy_of_cell hcell] at hidle
  rw [Memo.customers_of_not_isPending hidle, List.append_nil] at hserved
  refine ⟨hdiary.requests.token, hdiary.requests.skip, hserved, fun a ha b hb => ?_⟩
  -- both were given what the cell remembers
  exact Memo.ready.inj ((hdiary.alike a ha).symm.trans (hdiary.alike b hb))

/-- **Derived streams memoize without losing customers.** Over a whole history, with any number of
runs and on each of them any number of matches and walks, each position of a derived stream asked
its two patterns at most once each, and answered everyone who asked it exactly once. All were given
the same cursor. Written out, it is the place that the source of the stream reads at that position,
where nothing is remembered. -/
theorem derived_streams_memoize (h : History w₀ ss es w) :
    ∃ chart, Charted w₀.rulebook (fun _ => False) chart w.cells ∧
      (∀ t ∈ ss, t.1.source? chart = some t.2) ∧
      ∀ first below skip token index k id,
        (.derived first, .derived below skip token index) ∈ ss → CellAt w first k id →
        Serves skip token es id ∧
        ∃ z, PlaceAt w₀.rulebook (.derived below skip token index) k z ∧
          ∀ a ∈ answers id es, a.2.place? chart = some z := by
  obtain ⟨chart, hkept⟩ := h.exists_kept
  refine ⟨chart, hkept.atRest.charted, hkept.sources, ?_⟩
  intro first below skip token index k id hmem hcellAt
  obtain ⟨below', index', z, hid, hread, hplaceAt⟩ :=
    hcellAt.exists_placeAt hkept.atRest (hkept.sources _ hmem)
  refine ⟨hkept.serves hid, z, hplaceAt, fun a ha => ?_⟩
  obtain ⟨cell, hcell, -⟩ := hkept.atRest.follows.exists_cell hid
  have hmemo := (hkept.recorded.diary id _ cell hid hcell).alike a ha
  exact hkept.atRest.follows.place?_of_ready hid hread hcell hmemo

/-- The source of the letters of a text, without the spaces between them. -/
def letterSource : Source Value :=
  .derived (.chars ['a', ' ', 'b'] .start) (some (.terminal (.char ' '))) .any 0

/-- The stream of the letters, and the world in which they are derived. -/
def letterStream : Stream Value × World Value :=
  ({} : World Value).derive (.chars ['a', ' ', 'b'] .start) (some (.terminal (.char ' '))) .any

theorem answers_letterSource (R : Rulebook Value) : letterSource.Answers R := by
  have hchars : (Source.chars ['a', ' ', 'b'] .start : Source Value).Answers R := trivial
  refine ⟨hchars, ?_, Pattern.answers_any hchars⟩
  rintro k ⟨⟩
  exact Pattern.answers_terminal hchars _

/-- Two matches at once, and a walk after them. -/
theorem derived_streams_memoize_letters :
    ∃ ss es w, (.derived 0, letterSource) ∈ ss ∧ History {} ss es w ∧ CellAt w 0 2 2 ∧
      ∃ chart, Charted ({} : World Value).rulebook (fun _ => False) chart w.cells ∧
        (∀ t ∈ ss, t.1.source? chart = some t.2) ∧
        ∀ first below skip token index k id,
          (.derived first, .derived below skip token index) ∈ ss → CellAt w first k id →
          Serves skip token es id ∧
          ∃ z, PlaceAt ({} : World Value).rulebook (.derived below skip token index) k z ∧
            ∀ a ∈ answers id es, a.2.place? chart = some z := by
  have hbuilt : History ({} : World Value)
      [(letterStream.1, letterSource),
        (.chars ['a', ' ', 'b'] .start, .chars ['a', ' ', 'b'] .start)] [] letterStream.2 :=
    .derived (.plain (.start rfl) rfl trivial) List.mem_cons_self (answers_letterSource _)
  obtain ⟨n, loop, w, cs, w', hrun, hcollect, hcellAt⟩ :
      ∃ n loop w cs w',
        runLoop 200 none [.ask letterStream.1 (matcher (.sequence [.any, .finish]) 0),
          .ask letterStream.1 (matcher .any 1)] letterStream.2 = some (.ok n, loop, w) ∧
        collect 200 none letterStream.1 w = some (.ok cs, w') ∧ CellAt w' 0 2 2 :=
    ⟨_, _, _, _, _, rfl, rfl, .next rfl rfl (.next rfl rfl .here)⟩
  obtain ⟨es, h⟩ := hbuilt.exists_run (by simp [Delivery.IsFirst.atStream]) hrun
  obtain ⟨es', h'⟩ := h.exists_collect hcollect
  exact ⟨_, _, w', List.mem_cons_self, h', hcellAt, derived_streams_memoize h'⟩

end Humus.Peg
