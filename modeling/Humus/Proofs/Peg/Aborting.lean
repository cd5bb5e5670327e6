import Humus.Proofs.Peg.Family
import Humus.Proofs.Peg.Limit
import Humus.Proofs.Peg.Pending
import Humus.Proofs.Peg.SingleThread
import Humus.Proofs.Peg.Totality

/-!
# Aborted parses

A parse that is halted, by its limit or by a fault, discards the messages that wait. A position of a
derived stream that was being computed is left pending, and nobody computes it any more. The other
positions are idle or remember what their sources read, as they do after a parse that came to its
end.

A later parse over the same stream that asks for no such position comes to what it comes to over a
fresh copy. One that asks for such a position waits there for ever: its loop goes idle without an
answer.

## Main definitions

* `World.released w`: the world in which nobody has asked for the positions that are pending
* `AsksPending p s w`: a parse asks for a position that was pending before it began
* `Unanswered memos m w`: nothing was answered, and the message `m` asks for a pending position

## Main results

* `parse_of_not_asksPending`: a parse that asks for no pending position does not see them
* `AsksPending.terminates`: one that does is left without an answer
* `parse_after_abort`: what a later parse over the same stream comes to
-/

namespace Humus.Peg

open Dispatch (Loop Reaches Ends Stop Terminates)

variable {V : Type}

/-! ## Pending positions -/

/-- What a cell remembers, if it is being computed. -/
def World.pendingMemo? (w : World V) (id : Nat) : Option (Memo V) :=
  (w.cells[id]?.map Cell.memo).filter Memo.isPending

/-- The world in which nobody has asked for the cells that are being computed. -/
def World.released (w : World V) : World V :=
  w.withMemos fun id => if w.isBusy id then some .idle else none

variable {w w' : World V} {id : Nat}

namespace World

theorem pendingMemo?_ne_none_iff : w.pendingMemo? id ≠ none ↔ w.isBusy id = true := by
  rw [pendingMemo?, isBusy, ← Option.isSome_iff_ne_none]
  rcases w.cells[id]? with _ | cell
  · simp
  · cases hm : cell.memo <;> simp [hm, Memo.isPending, Option.filter]

theorem isPending_of_pendingMemo? {memo : Memo V} (h : w.pendingMemo? id = some memo) :
    memo.isPending = true :=
  (Option.filter_eq_some_iff.mp h).2

theorem getElem?_released {cell : Cell V} (h : w.cells[id]? = some cell) :
    w.released.cells[id]? =
      some { cell with memo := if cell.memo.isPending then .idle else cell.memo } := by
  rw [released, getElem?_withMemos, h, isBusy_of_cell h]
  cases cell.memo.isPending <;> rfl

/-- Nothing but the pending memos is lost. -/
theorem withMemos_released (w : World V) : w.released.withMemos w.pendingMemo? = w := by
  have hcells : (w.released.withMemos w.pendingMemo?).cells = w.cells := by
    apply Array.ext_getElem?
    intro i
    rw [getElem?_withMemos]
    rcases hget : w.cells[i]? with _ | ⟨base, skip, token, index, memo⟩
    · rw [released, getElem?_withMemos, hget]
      rfl
    · rw [getElem?_released hget, pendingMemo?, hget]
      cases memo <;> rfl
  exact congrArg (fun cells => { w with cells }) hcells

theorem withMemos_released_unanswered (w : World V) :
    ({ w.released with answers := [] } : World V).withMemos w.pendingMemo? =
      { w with answers := [] } :=
  congrArg (fun w : World V => { w with answers := [] }) w.withMemos_released

/-- Nobody waits for a cell that was released. -/
theorem customers_released (w : World V) (id : Nat) : w.released.customers id = [] := by
  unfold customers
  rcases hget : w.cells[id]? with _ | cell
  · rw [released, getElem?_withMemos, hget]
    rfl
  · rw [getElem?_released hget]
    show (if cell.memo.isPending then Memo.idle else cell.memo).customers = []
    cases cell.memo <;> rfl

end World

variable [MatchValue V] [DecidableEq V] {R : Rulebook V} {ok : Pattern V → Prop} {w₀ : World V}
  {chart : Chart V} {ss : List (Stream V)} {s : Stream V} {σ : Source V} {p q : Pattern V}
  {fuel : Nat} {limit : Option Nat} {stop : Stop Fault}

/-- A world that follows a chart, busy or not, follows it when no cell is busy any more. -/
theorem Follows.released (h : Follows R chart w) :
    Charted R (fun _ => False) chart w.released.cells := by
  intro id σ hid
  obtain ⟨cell, hcell, hfits⟩ := h.charted id σ hid
  refine ⟨_, World.getElem?_released hcell, hfits.base, ?_⟩
  have hmemo := hfits.memo
  cases hm : cell.memo with
  | idle | pending => trivial
  | ready c =>
    rw [hm] at hmemo
    exact hmemo

/-- The streams of a family can be written out when a parse over one of them was aborted. -/
theorem Gathered.halted (h : Gathered ok w₀ ss w chart) (hs : s ∈ ss)
    (hrun : parse fuel limit p s w = some (.error (.halted stop), w')) :
    ∃ chart', chart.Le chart' ∧ Gathered ok w₀ ss w'.released chart' := by
  obtain ⟨σ, hσ, -⟩ := h.sources s hs
  obtain ⟨chart', hle, hfollows⟩ :=
    Starts.halted_remains (.ask hσ) (h.poised σ) σ.depth.lt_succ_self hrun
  refine ⟨chart', hle, hfollows.rulebook, hfollows.released, fun t ht => ?_⟩
  obtain ⟨τ, hτ, huses⟩ := h.sources t ht
  exact ⟨τ, t.source?_mono hle hτ, huses⟩

/-! ## The later parse -/

/-- A parse of `p` over `s` asks, at some time, for a position that was pending before it began. -/
def AsksPending (p : Pattern V) (s : Stream V) (w : World V) : Prop :=
  (Loop.send (.fresh none) (.ask s (matcher p 0))).Meets receive
    (Delivery.Asks fun id => w.isBusy id = true) { w with answers := [] }

omit [MatchValue V] [DecidableEq V] in
/-- The first message of a parse is apart from the positions that are pending. -/
theorem apart_released (w : World V) (s : Stream V) (p : Pattern V) :
    Apart w.pendingMemo? [.ask s (matcher p 0)] { w.released with answers := [] } where
  messages m hm := by
    rw [List.mem_singleton.mp hm]
    exact ⟨trivial, trivial⟩
  customers id customer hcustomer := by
    have hnobody : ({ w.released with answers := [] } : World V).customers id = [] :=
      w.customers_released id
    rw [hnobody] at hcustomer
    cases hcustomer
  new id hid := by
    have hsize : w.released.cells.size = w.cells.size := w.size_withMemos _
    have hnone : w.cells[id]? = none := Array.getElem?_eq_none (hsize ▸ hid)
    rw [World.pendingMemo?, hnone]
    rfl

/-- No parse asks for a pending position when there is none. -/
theorem not_asksPending (h : w.cells.toList.all fun cell => !cell.memo.isPending) :
    ¬ AsksPending p s w := by
  rintro ⟨k, m, -, id, customer, -, hbusy⟩
  rcases hget : w.cells[id]? with _ | cell
  · exact absurd (World.lt_size_of_isBusy hbusy) (Array.getElem?_eq_none_iff.mp hget).not_gt
  · have hidle := List.all_eq_true.mp h cell (Array.mem_of_getElem? hget).val
    rw [World.isBusy_of_cell hget] at hbusy
    rw [hbusy] at hidle
    cases hidle

/-- The loop of a parse, begun in the world that was released, with the pending memos put back. -/
theorem asksPending_iff : AsksPending p s w ↔
    (Loop.send (.fresh none) (.ask s (matcher p 0))).Meets receive
      (Delivery.Asks fun id => w.pendingMemo? id ≠ none)
      (({ w.released with answers := [] } : World V).withMemos w.pendingMemo?) := by
  simp only [AsksPending, w.withMemos_released_unanswered, World.pendingMemo?_ne_none_iff]

/-- **A parse that asks for no pending position does not see them.** -/
theorem parse_of_not_asksPending (h : ¬ AsksPending p s w) (fuel : Nat) :
    parse fuel none p s w =
      (parse fuel none p s w.released).map fun r => (r.1, r.2.withMemos w.pendingMemo?) := by
  have hapart : Apart w.pendingMemo?
      (Loop.send (.fresh none : Loop _ Fault) (.ask s (matcher p 0))).queue.toList
      { w.released with answers := [] } := apart_released w s p
  have hrun := (unseen_withMemos w.pendingMemo?).runFrom hapart (mt asksPending_iff.mpr h) 0 fuel
  rw [w.withMemos_released_unanswered] at hrun
  rw [parse_eq_map, parse_eq_map, runLoop_eq, runLoop_eq, hrun, Option.map_map, Option.map_map]
  rfl

/-- Nothing was answered, and the next message asks for a position that is left pending. -/
def Unanswered (memos : Nat → Option (Memo V)) (m : Delivery V) (w : World V) : Prop :=
  (m.Asks fun id => memos id ≠ none) ∧ ∃ w₁ : World V, w = w₁.withMemos memos ∧ w₁.answers = []

theorem Unanswered.receive {m : Delivery V} (h : Unanswered w₀.pendingMemo? m w) :
    ∃ w', receive m w = ([], w') ∧ w'.answers = [] := by
  obtain ⟨hasks, w₁, rfl, hanswers⟩ := h
  obtain ⟨w', hreceive, hanswers'⟩ :=
    receive_of_asks_pending hasks (fun _ _ => World.isPending_of_pendingMemo?) w₁
  exact ⟨w', hreceive, hanswers'.trans hanswers⟩

/-- A parse that asks for a pending position comes to the message that asks. Until then it goes as
the parse in the world that was released, which is safe. -/
theorem AsksPending.reaches (h : AsksPending p s w) (hw : Gathered ok w₀ ss w.released chart)
    (hs : s ∈ ss) :
    Reaches receive (Unanswered w.pendingMemo?) (fun _ _ => False) (.ask s (matcher p 0))
      { w with answers := [] } := by
  obtain ⟨σ, hσ, -⟩ := hw.sources s hs
  have hsafe := (Starts.ask (n := 0) (p := p) hσ).safe (hw.poised σ) σ.depth.lt_succ_self
  have hreaches := (unseen_withMemos w.pendingMemo?).reaches (fun _ _ => Reported.exists_receive)
    (fun _ _ _ _ hanswers hreceive => (receive_answers hreceive).trans hanswers)
    hsafe (Loop.holds_send_fresh none _) (apart_released w s p) rfl (asksPending_iff.mp h)
  rwa [w.withMemos_released_unanswered] at hreaches

/-- **A parse that asks for a pending position is left without an answer.** -/
theorem AsksPending.terminates (h : AsksPending p s w) (hw : Gathered ok w₀ ss w.released chart)
    (hs : s ∈ ss) :
    Terminates (fun fuel => parse fuel none p s w) fun r => r.1 = .error .incomplete := by
  have hlast : ∀ m w₁, Unanswered w.pendingMemo? m w₁ → ∃ w', receive m w₁ = ([], w') := by
    intro m w₁ hm
    obtain ⟨w', hreceive, -⟩ := hm.receive
    exact ⟨w', hreceive⟩
  obtain ⟨N, hN⟩ := Loop.exists_runFrom hlast (h.reaches hw hs) (Loop.holds_send_fresh none _) rfl 0
  obtain ⟨result, loop, w', hrun, hends⟩ := hN N (Nat.le_refl N)
  have hparse : parse N none p s w =
      some (outcomeOf result w'.answers, { w' with answers := [] }) := by
    rw [parse_eq_map, runLoop_eq, hrun]
    rfl
  refine (runMatch_mono none _ w).terminates hparse ?_
  cases hends with
  | @answered m w₁ _ n hm hreceive =>
    -- the request is kept by the pending cell, and the loop goes idle
    obtain ⟨w₂, hreceive', hanswers⟩ := hm.receive
    rw [hreceive] at hreceive'
    cases hreceive'
    show outcomeOf (.ok n) w'.answers = .error .incomplete
    rw [hanswers]
    rfl
  | idle hF | fault hF => exact hF.elim

/-- **What a later parse over the same stream comes to** when a parse was aborted. If it asks for a
position that the abort left pending, it is left without an answer. Otherwise what is reported of it
is what is reported of a parse over a fresh copy of the stream, and it ends where that does. -/
theorem parse_after_abort (h : Family ok w₀ ss w) (hs : s ∈ ss)
    (habort : parse fuel limit p s w = some (.error (.halted stop), w')) (q : Pattern V) :
    (AsksPending q s w' →
      Terminates (fun fuel => parse fuel none q s w') fun r => r.1 = .error .incomplete) ∧
    (¬ AsksPending q s w' → ∀ r,
      (∃ fuel out w'', parse fuel none q s w' = some (out, w'') ∧ out.report = r) ↔
        ∃ fuel out w'', parse fuel none q s w.unread = some (out, w'') ∧ out.report = r) := by
  obtain ⟨chart, hgathered⟩ := h.exists_gathered
  obtain ⟨chart', hle, hreleased⟩ := hgathered.halted hs habort
  refine ⟨fun hasks => hasks.terminates hreleased hs, fun hasks r => ?_⟩
  -- the pending memos are not seen, and without them the stream stands for the same source
  obtain ⟨σ, hσ, -⟩ := hgathered.sources s hs
  have hunseen : (∃ fuel out w'', parse fuel none q s w' = some (out, w'') ∧ out.report = r) ↔
      ∃ fuel out w'', parse fuel none q s w'.released = some (out, w'') ∧ out.report = r := by
    simp only [parse_of_not_asksPending hasks, Option.map_eq_some_iff, Prod.mk.injEq]
    constructor
    · rintro ⟨fuel, out, _, ⟨⟨_, w''⟩, hrun, rfl, rfl⟩, hr⟩
      exact ⟨fuel, _, w'', hrun, hr⟩
    · rintro ⟨fuel, out, w'', hrun, hr⟩
      exact ⟨fuel, out, _, ⟨(out, w''), hrun, rfl, rfl⟩, hr⟩
  rw [hunseen, hreleased.parse_report_iff (s.source?_mono hle hσ),
    hgathered.unread.parse_report_iff hσ]

/-! ## A letter -/

/-- The letters of a text that is a single one. -/
def loneLetterStream : Stream Value × World Value :=
  wordWorld.derive (.chars ['a'] .start) none (.predicate "letter" isLetter)

/-- A limit of one delivery leaves the first letter pending, and who asks for it again is left
without an answer. A rule that is not defined is met when the first letter is known, and leaves
nothing pending. -/
theorem parse_after_abort_letter :
    (∃ w', parse 10 (some 1) .any loneLetterStream.1 loneLetterStream.2 =
        some (.error (.halted (.limit 1)), w') ∧
      Terminates (fun fuel => parse fuel none .any loneLetterStream.1 w') fun r =>
        r.1 = .error .incomplete) ∧
    ∃ w', parse 30 none (.rule ⟨0, "none"⟩) loneLetterStream.1 loneLetterStream.2 =
        some (.error (.halted (.fault (.undefined "none"))), w') ∧
      ∀ r, (∃ fuel out w'', parse fuel none .any loneLetterStream.1 w' = some (out, w'') ∧
          out.report = r) ↔
        ∃ fuel out w'', parse fuel none .any loneLetterStream.1 loneLetterStream.2.unread =
          some (out, w'') ∧ out.report = r := by
  have hfamily : Family (fun _ => True) wordWorld [loneLetterStream.1, .chars ['a'] .start]
      loneLetterStream.2 :=
    .derived (.plain .none .chars) List.mem_cons_self (fun _ _ => trivial) trivial
  have hlimit : ∃ w', parse 10 (some 1) .any loneLetterStream.1 loneLetterStream.2 =
      some (.error (.halted (.limit 1)), w') ∧ w'.isBusy 0 = true := ⟨_, rfl, rfl⟩
  have hfault : ∃ w',
      parse 30 none (.rule ⟨0, "none"⟩) loneLetterStream.1 loneLetterStream.2 =
      some (.error (.halted (.fault (.undefined "none"))), w') ∧
      w'.cells.toList.all (fun cell => !cell.memo.isPending) = true := ⟨_, rfl, rfl⟩
  obtain ⟨w₁, hlimit, hbusy⟩ := hlimit
  obtain ⟨w₂, hfault, hnone⟩ := hfault
  -- the first message asks for the letter
  have hasks : AsksPending .any loneLetterStream.1 w₁ :=
    ⟨0, _, List.mem_singleton_self _, 0, _, rfl, hbusy⟩
  have hunasked : ¬ AsksPending .any loneLetterStream.1 w₂ := not_asksPending hnone
  exact ⟨⟨w₁, hlimit, (parse_after_abort hfamily List.mem_cons_self hlimit .any).1 hasks⟩,
    w₂, hfault, (parse_after_abort hfamily List.mem_cons_self hfault .any).2 hunasked⟩

/-- The letter is matched over a fresh copy, and is not matched any more after the abort. -/
theorem letter_unanswered_after_abort :
    ∃ w', parse 10 (some 1) .any loneLetterStream.1 loneLetterStream.2 =
        some (.error (.halted (.limit 1)), w') ∧
      (parse 10 none .any loneLetterStream.1 w').map (fun r => r.1.report) = some .incomplete ∧
      (parse 30 none .any loneLetterStream.1 loneLetterStream.2.unread).map (fun r => r.1.report) =
        some (.matched ⟨0, 0, 0⟩ ⟨1, 0, 1⟩ (.char 'a')) := by
  have hunread : loneLetterStream.2.unread = loneLetterStream.2 := by
    simp [World.unread, loneLetterStream, World.derive, World.addCell, wordWorld]
  rw [hunread]
  exact ⟨_, rfl, rfl, rfl⟩

end Humus.Peg
