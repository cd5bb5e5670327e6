import Humus.Proofs.Peg.Ledger

/-!
# Moving

Every move of a strand leaves a ledger. A strand goes on, or begins to wait, or ends, or gives its
cursor to all those who waited for it, and in each case the entries account for what is on its way
then. Since whoever waits for a cell stands above it, not all strands can wait: when nothing is on
its way, no strand is left.

## Main results

* `Move.ledger`: a move leaves a ledger
* `Ledger.not_isBusy`, `Ledger.eq_nil`: when nothing is on its way, no cell of the chart is busy,
  and no strand is left
-/

namespace Humus.Peg

variable {V : Type} [MatchValue V] [DecidableEq V] {R : Rulebook V} {Q : Prop}
  {chart chart' : Chart V} {L L' : List (Strand V)} {q : List (Delivery V)} {w w' : World V}
  {m : Delivery V} {s : Strand V} {id n : Nat} {σ : Source V} {z : Place V} {c : Cursor V}
  {customer : OnCursor V}

/-! ## Entries -/

omit [MatchValue V] [DecidableEq V] in
theorem Chart.Off.grow {size size' : Nat} (hsize : size ≤ size')
    (hold : ∀ i, i < size → chart' i = chart i) {i : Nat} (h : chart.Off size i) :
    chart'.Off size' i :=
  ⟨h.1.trans_le hsize, (hold i h.1).trans h.2⟩

/-- A right entry stays right as cells are added. -/
theorem Strand.Fits.mono {size size' : Nat} (h : s.Fits R chart size) (hle : chart.Le chart')
    (hoff : ∀ i, chart.Off size i → chart'.Off size' i) : s.Fits R chart' size' := by
  obtain ⟨_ | ω, n, m | ⟨id, customer⟩⟩ := s
  · exact Delivery.Among.mono hoff h
  · obtain ⟨⟨σ, hid⟩, hcustomer⟩ := h
    exact ⟨⟨σ, hle id σ hid⟩, hcustomer.mono hoff⟩
  · exact Lasts.mono h hle
  · obtain ⟨σ, z, hid, hread, habove, hnext⟩ := h
    exact ⟨σ, z, hle id σ hid, hread, habove.mono hle,
      fun chart'' c hle' hc => hnext chart'' c (hle.trans hle') hc⟩

omit [MatchValue V] [DecidableEq V] in
theorem Owner.Passes.worksFor? {ω ω' : Owner V} {m' : Delivery V} (h : ω.Passes chart m ω' m')
    (k n : Nat) (post post' : Post V) :
    Strand.worksFor? ⟨some ω', k, post⟩ = Strand.worksFor? ⟨some ω, n, post'⟩ := by
  cases h <;> rfl

theorem Ledger.perm (h : Ledger R Q chart L q w) (hL : L.Perm L') : Ledger R Q chart L' q w where
  follows := h.follows
  fits s hs := h.fits s (hL.mem_iff.mpr hs)
  queue := h.queue.trans (hL.filterMap _)
  waiting id σ hid := (h.waiting id σ hid).trans (hL.filterMap _)
  nodup := (hL.filterMap _).nodup_iff.mp h.nodup
  works id := (hL.filterMap _).mem_iff.symm.trans (h.works id)
  guests := h.guests
  answers := h.answers

/-- Strands set out that work for no cell, when no cell of the chart is busy. -/
theorem Charted.ledger (h : Charted R (fun _ => False) chart w.cells) (hrulebook : w.rulebook = R)
    (hfits : ∀ s ∈ L, s.Fits R chart w.cells.size) (hqueue : q.Perm (L.filterMap Strand.message?))
    (hwaiting : ∀ i, L.filterMap (Strand.customer? i) = [])
    (hworks : L.filterMap Strand.worksFor? = [])
    (hguests : Q → ∀ i, chart i = none → ∀ customer ∈ w.customers i,
      customer.Among (chart.Off w.cells.size))
    (hanswers : Q → ∀ i σ, chart i = some σ → σ.Answers R) : Ledger R Q chart L q w where
  follows := ⟨hrulebook, h.imp fun _ h => h.elim⟩
  fits := hfits
  queue := hqueue
  waiting i σ hi := by
    rw [hwaiting, World.customers_eq_nil_of_not_isBusy (h.not_isBusy hi)]
  nodup := by
    rw [hworks]
    exact .nil
  works i := by
    rw [hworks]
    constructor
    · intro hi
      cases hi
    · rintro ⟨hbusy, σ, hi⟩
      cases hbusy.symm.trans (h.not_isBusy hi)
  guests := hguests
  answers := hanswers

/-- The next message belongs to a strand. -/
theorem Ledger.exists_strand (h : Ledger R Q chart L (m :: q) w) :
    ∃ owner k L', L.Perm (⟨owner, k, .afoot m⟩ :: L') := by
  have hm : m ∈ L.filterMap Strand.message? := h.queue.subset List.mem_cons_self
  obtain ⟨s, hs, hsm⟩ := List.mem_filterMap.mp hm
  obtain ⟨owner, k, m' | ⟨i, customer⟩⟩ := s
  · cases hsm
    obtain ⟨L₁, L₂, rfl⟩ := List.append_of_mem hs
    exact ⟨owner, k, L₁ ++ L₂, List.perm_middle⟩
  · cases hsm

omit [MatchValue V] [DecidableEq V] in
/-- A strand that begins to wait works for whom it worked for. -/
theorem worksFor?_enqueue (id : Nat) (customer : OnCursor V) (n k : Nat) (m : Delivery V)
    (owner : Option (Owner V)) (N L : List (Strand V)) :
    ((⟨owner, n, .waiting id customer⟩ :: (N ++ L)).filterMap Strand.worksFor?).Perm
      (N.filterMap Strand.worksFor? ++
        (⟨owner, k, .afoot m⟩ :: L).filterMap Strand.worksFor?) := by
  refine (List.perm_middle.symm.filterMap _).trans ?_
  rw [List.filterMap_append]
  exact .refl _

section Moving

variable {owner : Option (Owner V)} {k : Nat} {ms : List (Delivery V)} {N : List (Strand V)}
  (h : Ledger R Q chart (⟨owner, k, .afoot m⟩ :: L) (m :: q) w)
include h

theorem Ledger.queue_tail : q.Perm (L.filterMap Strand.message?) :=
  List.Perm.cons_inv h.queue

/-- The strand whose message was delivered is replaced, and the cells of the chart stay as they
are. -/
theorem Ledger.alter (hrulebook : w'.rulebook = w.rulebook)
    (hsize : w.cells.size ≤ w'.cells.size)
    (hcells : ∀ i σ, chart i = some σ → w'.cells[i]? = w.cells[i]?)
    (hguests : Q → ∀ i, chart i = none → ∀ customer ∈ w'.customers i,
      customer.Among (chart.Off w'.cells.size))
    (hfits : ∀ s ∈ N, s.Fits R chart w'.cells.size)
    (hms : ms.Perm (N.filterMap Strand.message?))
    (hwaiting : ∀ i, N.filterMap (Strand.customer? i) = [])
    (hworks : N.filterMap Strand.worksFor? =
      (Strand.worksFor? ⟨owner, k, .afoot m⟩).toList) :
    Ledger R Q chart (N ++ L) (q ++ ms) w' where
  follows := ⟨hrulebook.trans h.follows.rulebook, fun id σ hid => by
    rw [hcells id σ hid]
    exact h.follows.charted id σ hid⟩
  fits s hs := by
    rcases List.mem_append.mp hs with hs | hs
    · exact hfits s hs
    · exact (h.fits s (List.mem_cons_of_mem _ hs)).mono (.refl chart) fun i =>
        Chart.Off.grow hsize fun _ _ => rfl
  queue := by
    rw [List.filterMap_append]
    exact (h.queue_tail.append hms).trans List.perm_append_comm
  waiting id σ hid := by
    rw [List.filterMap_append, hwaiting, List.nil_append, World.customers_congr (hcells id σ hid)]
    exact h.waiting id σ hid
  nodup := by
    rw [List.filterMap_append, hworks]
    have hnodup := h.nodup
    rw [List.filterMap_cons] at hnodup
    cases hw : Strand.worksFor? ⟨owner, k, .afoot m⟩ <;> simpa [hw] using hnodup
  works id := by
    have hold := h.works id
    have hbusy : (∃ σ, chart id = some σ) → w'.isBusy id = w.isBusy id := by
      rintro ⟨σ, hid⟩
      exact World.isBusy_congr (hcells id σ hid)
    rw [List.filterMap_append, hworks, and_congr_left fun hid => by rw [hbusy hid], ← hold,
      List.filterMap_cons]
    cases Strand.worksFor? ⟨owner, k, .afoot m⟩ <;> simp
  guests := hguests
  answers := h.answers

/-- The strand whose message was delivered waits for a cell, and may have set it to work. -/
theorem Ledger.enqueue (hid : chart id = some σ) (hwaits : Strand.Fits R chart w.cells.size
      ⟨owner, n, .waiting id customer⟩)
    (hfits : ∀ s ∈ N, s.Fits R chart w.cells.size)
    (hms : ms.Perm (N.filterMap Strand.message?))
    (hwaiting : ∀ i, N.filterMap (Strand.customer? i) = [])
    (hworks : N.filterMap Strand.worksFor? = if w.isBusy id then [] else [id]) :
    Ledger R Q chart (⟨owner, n, .waiting id customer⟩ :: (N ++ L)) (q ++ ms)
      (w.setMemo id (.pending (w.customers id ++ [customer]))) where
  follows := h.follows.setMemo fun _ _ => trivial
  fits s hs := by
    rw [World.size_setMemo]
    rcases List.mem_cons.mp hs with rfl | hs
    · exact hwaits
    rcases List.mem_append.mp hs with hs | hs
    · exact hfits s hs
    · exact h.fits s (List.mem_cons_of_mem _ hs)
  queue := by
    rw [List.filterMap_cons_none rfl, List.filterMap_append]
    exact (h.queue_tail.append hms).trans List.perm_append_comm
  waiting i τ hi := by
    have hold := h.waiting i τ hi
    rw [List.filterMap_cons_none rfl] at hold
    rw [List.filterMap_cons, List.filterMap_append, hwaiting, List.nil_append]
    by_cases hne : i = id
    · subst hne
      rw [World.customers_setMemo_self (h.follows.lt_size hi)]
      simp only [Strand.customer?_waiting, if_true]
      exact (List.perm_append_singleton _ _).trans (hold.cons _)
    · rw [World.customers_congr (World.getElem?_setMemo_of_ne _ hne)]
      simpa [Ne.symm hne] using hold
  nodup := by
    rw [(worksFor?_enqueue id customer n k m owner N L).nodup_iff, hworks]
    cases hbusy : w.isBusy id with
    | true => exact h.nodup
    | false =>
      refine List.nodup_cons.mpr ⟨fun hmem => ?_, h.nodup⟩
      rw [((h.works id).mp hmem).1] at hbusy
      cases hbusy
  works i := by
    have hold := h.works i
    rw [(worksFor?_enqueue id customer n k m owner N L).mem_iff, List.mem_append, hworks, hold]
    by_cases hne : i = id
    · subst hne
      rw [World.isBusy_setMemo_self (h.follows.lt_size hid)]
      cases hbusy : w.isBusy i <;> simp [hid, Memo.isPending]
    · rw [World.isBusy_congr (World.getElem?_setMemo_of_ne _ hne)]
      cases w.isBusy id <;> simp [hne]
  guests hQ i hi := by
    have hne : i ≠ id := by
      rintro rfl
      rw [hid] at hi
      cases hi
    rw [World.size_setMemo, World.customers_congr (World.getElem?_setMemo_of_ne _ hne)]
    exact h.guests hQ i hi
  answers := h.answers

end Moving

omit [MatchValue V] [DecidableEq V] in
theorem World.customers_eq_nil {w : World V} {i : Nat}
    (h : ∀ cell, w.cells[i]? = some cell → cell.memo = .idle) : w.customers i = [] := by
  unfold World.customers
  cases hcell : w.cells[i]? with
  | none => rfl
  | some cell =>
    show cell.memo.customers = []
    rw [h cell hcell]
    rfl

omit [MatchValue V] [DecidableEq V] in
/-- Nobody waits for a cell that is added. -/
theorem World.customers_addCell {next : Cell V} (hm : next.memo = .idle) (i : Nat) :
    (w.addCell next).2.customers i = w.customers i := by
  by_cases hlt : i < w.cells.size
  · exact World.customers_congr (World.getElem?_addCell hlt)
  · rw [World.customers_eq_nil, World.customers_eq_nil]
    · intro cell hcell
      exact absurd (Array.getElem?_eq_some_iff.mp hcell).1 hlt
    · intro cell hcell
      rw [World.eq_of_getElem?_addCell (not_lt.mp hlt) hcell]
      exact hm

omit [MatchValue V] [DecidableEq V] in
theorem World.isBusy_eq_false {w : World V} {i : Nat}
    (h : ∀ cell, w.cells[i]? = some cell → cell.memo = .idle) : w.isBusy i = false := by
  unfold World.isBusy
  cases hcell : w.cells[i]? with
  | none => rfl
  | some cell =>
    rw [Option.any_some, h cell hcell]
    rfl

omit [MatchValue V] [DecidableEq V] in
theorem World.lt_size_of_isBusy {w : World V} {i : Nat} (h : w.isBusy i = true) :
    i < w.cells.size := by
  by_contra hi
  rw [isBusy, Array.getElem?_eq_none (not_lt.mp hi)] at h
  cases h

/-- A right entry stays right when a cell gives the cursor that its source reads. -/
theorem Strand.Fits.serve {size size' : Nat} (h : s.Fits R chart size) (hle : chart.Le chart')
    (hoff : ∀ i, chart.Off size i → chart'.Off size' i) (hid : chart id = some σ)
    (hread : Reads R σ (.ok z)) (hc : c.place? chart' = some z) :
    (s.serve id c).Fits R chart' size' := by
  obtain ⟨owner, n, m | ⟨i, customer⟩⟩ := s
  · exact h.mono hle hoff
  by_cases hi : i = id
  · subst hi
    simp only [Strand.serve, if_true]
    cases owner with
    | none => exact h.2.mono hoff
    | some ω =>
      -- the strand waited for the place that the source of the cell reads
      obtain ⟨τ, z', hid', hread', -, hnext⟩ := h
      cases hid.symm.trans hid'
      cases hread.unique hread'
      exact hnext chart' c hle hc
  · simp only [Strand.serve, if_neg hi]
    exact h.mono hle hoff

omit [MatchValue V] [DecidableEq V] in
theorem worksFor?_singleton (s : Strand V) :
    [s].filterMap Strand.worksFor? = s.worksFor?.toList := by
  rw [List.filterMap_cons, List.filterMap_nil]
  cases s.worksFor? <;> rfl

omit [MatchValue V] [DecidableEq V] in
@[simp] theorem worksFor?_map_serve (id : Nat) (c : Cursor V) (L : List (Strand V)) :
    (L.map (Strand.serve id c)).filterMap Strand.worksFor? = L.filterMap Strand.worksFor? := by
  rw [List.filterMap_map]
  congr 1
  funext s
  exact s.worksFor?_serve id c

/-- A strand waits for a cell of the chart. -/
theorem Ledger.exists_source_of_waiting (h : Ledger R Q chart L q w) {owner : Option (Owner V)}
    (hs : ⟨owner, n, .waiting id customer⟩ ∈ L) : ∃ σ, chart id = some σ := by
  have hfits := h.fits _ hs
  cases owner with
  | none => exact hfits.1
  | some ω =>
    obtain ⟨σ, _, hid, -⟩ := hfits
    exact ⟨σ, hid⟩

theorem Ledger.customer?_eq_nil (h : Ledger R Q chart L q w) (hid : chart id = none) :
    L.filterMap (Strand.customer? id) = [] := by
  rw [List.filterMap_eq_nil_iff]
  rintro ⟨owner, n, m | ⟨i, customer⟩⟩ hs
  · rfl
  · rw [Strand.customer?_waiting, if_neg]
    rintro rfl
    obtain ⟨σ, hσ⟩ := h.exists_source_of_waiting hs
    rw [hid] at hσ
    cases hσ

/-- The strand of a cell ends, and all those go on that waited for the cell. -/
theorem Ledger.serve {stage : Stage} {k : Nat}
    (h : Ledger R Q chart (⟨some (.cell id stage), k, .afoot m⟩ :: L) (m :: q) w)
    (hid : chart id = some σ) (hread : Reads R σ (.ok z)) (hc : c.place? chart' = some z)
    (hgrows : Grows R σ chart w chart' w') :
    Ledger R Q chart' (L.map (Strand.serve id c))
      (q ++ (w.customers id).map (Delivery.cursor · c)) (w'.setMemo id (.ready c)) := by
  have hid' := hgrows.le id σ hid
  have hlt : id < w.cells.size := h.follows.lt_size hid
  have hlt' : id < w'.cells.size := hgrows.follows.lt_size hid'
  have hoff : ∀ i, chart.Off w.cells.size i → chart'.Off w'.cells.size i := fun i =>
    Chart.Off.grow hgrows.size_le hgrows.old
  -- The cell itself had a strand, and now has none.
  have hnodup := h.nodup
  rw [List.filterMap_cons_some (Strand.worksFor?_cell ..), List.nodup_cons] at hnodup
  refine ⟨?_, ?_, ?_, ?_, ?_, ?_, ?_, ?_⟩
  · refine hgrows.follows.setMemo fun τ hτ => ?_
    cases hid'.symm.trans hτ
    exact ⟨z, hread, hc⟩
  · intro s hs
    obtain ⟨s, hs', rfl⟩ := List.mem_map.mp hs
    rw [World.size_setMemo]
    exact (h.fits s (List.mem_cons_of_mem _ hs')).serve hgrows.le hoff hid hread hc
  · have hcustomers : (w.customers id).Perm (L.filterMap (Strand.customer? id)) :=
      h.waiting id σ hid
    exact (h.queue_tail.append (hcustomers.map _)).trans (Strand.message?_map_serve id c L).symm
  · intro i τ hi
    by_cases hne : i = id
    · subst hne
      rw [World.customers_setMemo_self hlt', Strand.customer?_map_serve_self]
      exact .refl _
    rw [World.customers_congr (World.getElem?_setMemo_of_ne _ hne),
      Strand.customer?_map_serve_of_ne hne]
    by_cases hold : i < w.cells.size
    · rw [hgrows.old i hold] at hi
      rw [World.customers_congr (hgrows.cells i hold)]
      exact h.waiting i τ hi
    · -- nobody waits for the new cell
      have hnone : chart i = none := Option.eq_none_iff_forall_ne_some.mpr fun _ h' =>
        hold (h.follows.lt_size h')
      have hnobody : L.filterMap (Strand.customer? i) = [] := h.customer?_eq_nil hnone
      rw [World.customers_eq_nil fun cell => hgrows.idle i cell (not_lt.mp hold), hnobody]
  · rw [worksFor?_map_serve]
    exact hnodup.2
  · intro i
    rw [worksFor?_map_serve]
    have hworks := h.works i
    rw [List.filterMap_cons_some (Strand.worksFor?_cell ..), List.mem_cons] at hworks
    by_cases hne : i = id
    · subst hne
      rw [World.isBusy_setMemo_self hlt']
      exact ⟨fun hi => absurd hi hnodup.1, fun hi => by cases hi.1⟩
    rw [World.isBusy_congr (World.getElem?_setMemo_of_ne _ hne)]
    by_cases hold : i < w.cells.size
    · rw [World.isBusy_congr (hgrows.cells i hold), hgrows.old i hold, ← hworks]
      exact (or_iff_right hne).symm
    · rw [World.isBusy_eq_false fun cell => hgrows.idle i cell (not_lt.mp hold)]
      refine ⟨fun hi => ?_, fun hi => by cases hi.1⟩
      exact absurd (World.lt_size_of_isBusy (hworks.mp (.inr hi)).1) hold
  · intro hQ i hi customer hcustomer
    have hne : i ≠ id := by
      rintro rfl
      rw [hid'] at hi
      cases hi
    rw [World.customers_congr (World.getElem?_setMemo_of_ne _ hne)] at hcustomer
    rw [World.size_setMemo]
    by_cases hold : i < w.cells.size
    · rw [World.customers_congr (hgrows.cells i hold)] at hcustomer
      rw [hgrows.old i hold] at hi
      exact (h.guests hQ i hi customer hcustomer).mono hoff
    · rw [World.customers_eq_nil fun cell => hgrows.idle i cell (not_lt.mp hold)] at hcustomer
      cases hcustomer
  · intro hQ i τ hi
    by_cases hold : i < w.cells.size
    · rw [hgrows.old i hold] at hi
      exact h.answers hQ i τ hi
    · -- the new cell is the first place of what comes behind a token
      obtain ⟨p, v, hnext⟩ := hgrows.next i τ (not_lt.mp hold) hi
      exact (h.answers hQ id σ hid).next hnext

/-- **A move leaves a ledger.** -/
theorem Move.ledger {ms : List (Delivery V)} (hmove : Move R chart m w s L chart' L' ms w')
    (h : Ledger R Q chart (s :: L) (m :: q) w) :
    Ledger R Q chart' L' (q ++ ms) w' := by
  cases hmove with
  | @relays ω n ω' m' _ _ hquiet hcells hpasses hm' =>
    refine h.alter (N := [_]) hquiet.rulebook (by rw [hcells]) (fun i _ _ => by rw [hcells]) ?_ ?_
      (.refl _) (fun _ => rfl) ?_
    · intro hQ i hi
      rw [hcells, World.customers_congr (w := w) (by rw [hcells])]
      exact h.guests hQ i hi
    · rintro s hs
      rw [List.mem_singleton.mp hs]
      exact hm'
    · rw [worksFor?_singleton, hpasses.worksFor? n (n + 1) (.afoot m') (.afoot m)]
  | reports =>
    exact h.alter (N := []) rfl le_rfl (fun _ _ _ => rfl) h.guests (by simp) (.refl _)
      (fun _ => rfl) rfl
  | @finds owner k n id customer σ cell c _ _ _ _ _ _ hfits =>
    refine h.alter (N := [_]) rfl le_rfl (fun _ _ _ => rfl) h.guests (by simpa using hfits)
      (.refl _) (fun _ => rfl) ?_
    cases owner <;> rfl
  | @waits owner k n id customer σ cell customers _ _ hid hcell hm _ hwaits =>
    have hcustomers : w.customers id = customers := by
      rw [World.customers_of_cell hcell, hm]
      rfl
    have hbusy : w.isBusy id = true := by
      rw [World.isBusy_of_cell hcell, hm]
      rfl
    rw [← hcustomers]
    exact h.enqueue (N := []) hid hwaits (by simp) (.refl _) (fun _ => rfl) (by rw [hbusy]; rfl)
  | @employs owner k n id customer σ cell m' stage j _ _ hid hcell hm _ _ hwaits _ hm' =>
    have hcustomers : w.customers id = [] := by
      rw [World.customers_of_cell hcell, hm]
      rfl
    have hbusy : w.isBusy id = false := by
      rw [World.isBusy_of_cell hcell, hm]
      rfl
    have hfits : ∀ s ∈ [(⟨some (.cell id stage), j, .afoot m'⟩ : Strand V)],
        s.Fits R chart w.cells.size := by
      intro s hs
      rw [List.mem_singleton.mp hs]
      exact hm'
    have hmove := h.enqueue hid hwaits hfits (.refl _) (fun _ => rfl) (by rw [hbusy]; rfl)
    rw [hcustomers] at hmove
    exact hmove
  | resolves hid _ _ hread hc hgrows => exact h.serve hid hread hc hgrows
  | strays _ hstrays hms =>
    refine h.alter hstrays.rulebook hstrays.size_le hstrays.cells (fun _ => hstrays.guests) ?_ ?_
      (fun i => Strand.customer?_map_guest i 0 _) (Strand.worksFor?_map_guest 0 _)
    · intro s hs
      obtain ⟨m', hm', rfl⟩ := List.mem_map.mp hs
      exact hms m' hm'
    · rw [Strand.message?_map_guest]

/-- Strands that are no guests bring no guests. -/
theorem Move.owned {ms : List (Delivery V)} (hmove : Move R chart m w s L chart' L' ms w')
    (h : ∀ s' ∈ s :: L, s'.owner ≠ none) : ∀ s' ∈ L', s'.owner ≠ none := by
  obtain ⟨hs, hL⟩ := List.forall_mem_cons.mp h
  cases hmove with
  | relays => exact List.forall_mem_cons.mpr ⟨by simp, hL⟩
  | reports => exact hL
  | finds => exact List.forall_mem_cons.mpr ⟨hs, hL⟩
  | waits => exact List.forall_mem_cons.mpr ⟨hs, hL⟩
  | employs => exact List.forall_mem_cons.mpr ⟨hs, List.forall_mem_cons.mpr ⟨by simp, hL⟩⟩
  | resolves =>
    intro s' hs'
    obtain ⟨s', hmem, rfl⟩ := List.mem_map.mp hs'
    rw [Strand.owner_serve]
    exact hL s' hmem
  | strays => exact absurd rfl hs

/-! ## When nothing is on its way -/

/-- **When nothing is on its way, no cell of the chart is busy.** Whoever works for a busy cell
would wait for a busy cell below it. -/
theorem Ledger.not_isBusy (h : Ledger R Q chart L [] w) (hid : chart id = some σ) :
    w.isBusy id = false := by
  -- who works for a busy cell waits for a busy cell that stands on fewer layers
  induction hd : σ.depth using Nat.strong_induction_on generalizing id σ with
  | h d ih =>
    by_contra hbusy
    have hmem := (h.works id).mpr ⟨Bool.eq_true_of_not_eq_false hbusy, σ, hid⟩
    obtain ⟨⟨owner, n, post⟩, hs, hworks⟩ := List.mem_filterMap.mp hmem
    obtain ⟨stage, howner⟩ := (Strand.worksFor?_eq_some_iff ..).mp hworks
    cases howner
    cases post with
    | afoot m =>
      have hm : m ∈ L.filterMap Strand.message? := List.mem_filterMap.mpr ⟨_, hs, rfl⟩
      cases h.queue.mem_iff.mpr hm
    | waiting j customer =>
      obtain ⟨τ, z, hj, -, ⟨σ', hσ', hlt⟩, -⟩ := h.fits _ hs
      cases hid.symm.trans hσ'
      have hcustomer : customer ∈ L.filterMap (Strand.customer? j) :=
        List.mem_filterMap.mpr ⟨_, hs, by rw [Strand.customer?_waiting, if_pos rfl]⟩
      have hbusy' := World.isBusy_of_mem_customers ((h.waiting j τ hj).mem_iff.mpr hcustomer)
      rw [ih τ.depth (hd ▸ hlt) hj rfl] at hbusy'
      cases hbusy'

/-- **When nothing is on its way, no strand is left.** -/
theorem Ledger.eq_nil (h : Ledger R Q chart L [] w) : L = [] := by
  rw [List.eq_nil_iff_forall_not_mem]
  rintro ⟨owner, n, m | ⟨id, customer⟩⟩ hs
  · have hm : m ∈ L.filterMap Strand.message? := List.mem_filterMap.mpr ⟨_, hs, rfl⟩
    cases h.queue.mem_iff.mpr hm
  · obtain ⟨σ, hid⟩ := h.exists_source_of_waiting hs
    have hcustomer : customer ∈ L.filterMap (Strand.customer? id) :=
      List.mem_filterMap.mpr ⟨_, hs, by rw [Strand.customer?_waiting, if_pos rfl]⟩
    have hbusy := World.isBusy_of_mem_customers ((h.waiting id σ hid).mem_iff.mpr hcustomer)
    rw [h.not_isBusy hid] at hbusy
    cases hbusy

end Humus.Peg
