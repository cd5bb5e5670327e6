import Humus.Proofs.Peg.Building

/-!
# A single thread of control

While a match runs, one message waits: that of the actor whose turn it is. Nobody answers twice and
nobody forgets to answer, so that the one who started the match is told once, and no cell of a
derived stream is left waiting.

## Main results

* `receive_answers`: a message that is handled by sending another answers no match
* `single_thread`: what waits after each delivery, and what has been answered when the run ends
-/

namespace Humus.Peg

open Dispatch (Effect Script Loop Stop Safe Ends)

variable {V : Type} [MatchValue V] [DecidableEq V] {R : Rulebook V} {w₀ w w' : World V}
  {s : Stream V} {σ : Source V} {p : Pattern V} {n : Nat} {first : Delivery V}

/-! ## Answers -/

omit [MatchValue V] [DecidableEq V] in
theorem answers_resolve (id : Nat) (c : Cursor V) (w : World V) :
    (resolve id c w).2.answers = w.answers :=
  rfl

omit [MatchValue V] [DecidableEq V] in
theorem answers_resolveMatch (cell : Cell V) (id : Nat) (here : Cursor V) (s : Success V)
    (w : World V) : (resolveMatch cell id here s w).2.answers = w.answers := by
  unfold resolveMatch
  split_ifs <;> rfl

omit [MatchValue V] [DecidableEq V] in
theorem answers_withCell (id : Nat) (w : World V) (f : Cell V → Effects V × World V)
    (hf : ∀ cell, (f cell).2.answers = w.answers) : (withCell id w f).2.answers = w.answers := by
  unfold withCell
  split
  · exact hf _
  · rfl

omit [MatchValue V] [DecidableEq V] in
theorem answers_askCell (id : Nat) (customer : OnCursor V) (w : World V) :
    (askCell id customer w).2.answers = w.answers := by
  unfold askCell
  split
  · rfl
  · split
    · rfl
    · rfl
    · dsimp only
      split <;> rfl

omit [DecidableEq V] in
theorem answers_answerStream (customer : OnCursor V) (w : World V) (s : Stream V) :
    (answerStream customer w s).2.answers = w.answers := by
  cases s with
  | derived id => exact answers_askCell id customer w
  | chars | values | fixed | silent => rfl

theorem answers_matchPattern (r : Request V) (w : World V) (p : Pattern V) :
    (matchPattern r w p).2.answers = w.answers := by
  cases p with
  | rule ref =>
    simp only [matchPattern, matchRule_eq]
    split <;> simp
  | _ => rfl

/-- A message that is handled by sending another answers no match. -/
theorem receive_answers {m m' : Delivery V} (h : receive m w = ([.send m'], w')) :
    w'.answers = w.answers := by
  -- Only the one who started a match takes an answer, and nothing is sent then.
  suffices hsuffices : (receive m w).1 = [] ∨ (receive m w).2.answers = w.answers by
    rw [h] at hsuffices
    exact hsuffices.resolve_left (by simp)
  cases m with
  | request p r => exact .inr (answers_matchPattern r w p)
  | tallied | ignored => exact .inr rfl
  | ask s customer => exact .inr (answers_answerStream customer w s)
  | success customer s =>
    cases customer with
    | report => exact .inl rfl
    | transform ref f ok =>
      right
      simp only [receive, onSuccess]
      split <;> rfl
    | skipped id => exact .inr (answers_withCell id w _ fun _ => rfl)
    | lexed id here => exact .inr (answers_withCell id w _ fun _ => answers_resolveMatch ..)
    | nextItem | again | found | unwanted => exact .inr rfl
  | failure customer f =>
    cases customer with
    | report => exact .inl rfl
    | unskipped id here => exact .inr (answers_withCell id w _ fun _ => rfl)
    | unlexed id here => exact .inr (answers_withCell id w _ fun _ => answers_resolve ..)
    | backTo | nextAlternative | enough | missing | absent | relabel => exact .inr rfl
  | cursor customer c =>
    cases customer with
    | reader id => exact .inr (answers_withCell id w _ fun _ => rfl)
    | consumed | matcher | walker => exact .inr rfl

/-- Without actors from outside, a parse is answered or meets a fault. -/
theorem Finds.answers (hR : R.Native) (hp : p.isForeign = false)
    (hσ : σ.Uses fun p => p.isForeign = false) : ¬ Finds R p σ (.broken .silence) := by
  intro hf
  generalize he : Finding.broken .silence = f at hf
  cases hf with
  | @unread b hb =>
    cases he
    exact hb.answers hR hσ rfl
  | @read x o hx ho =>
    cases o with
    | matched | refused => cases he
    | broken b =>
      cases he
      -- The layers below what comes behind a token are those below the token.
      have hI : ∀ x r, Place.Uses (fun p : Pattern V => p.isForeign = false) x →
          (lazyTape R).next x r → r ≠ .error .silence ∧
            ∀ y, r = .ok y → Place.Uses (fun p => p.isForeign = false) y := by
        intro x r hx h
        cases x with
        | token p v rest =>
          refine ⟨Reads.answers hR h hx, ?_⟩
          rintro y rfl
          exact Reads.uses h hx
        | finish | stalled => exact h.elim
      exact ho.answers hR hI hp (hx.uses hσ) rfl

/-! ## One message at a time -/

omit [MatchValue V] [DecidableEq V] in
theorem pending_of_holds {loop : Loop (Delivery V) Fault} {m : Delivery V} (h : loop.Holds m) :
    loop.pending = 1 := by
  rw [Loop.pending, ← Dispatch.Queue.length_toList, h.toList_queue]
  rfl

omit [MatchValue V] [DecidableEq V] in
theorem pending_of_rests {loop : Loop (Delivery V) Fault} {f : Option Fault} (h : loop.Rests f) :
    loop.pending = 0 := by
  rw [Loop.pending, ← Dispatch.Queue.length_toList, h.toList_queue]
  rfl

section Threads

variable {chart : Chart V} {d : Nat} (hstarts : Starts chart p n first σ)
  (hw : Poised R (fun _ => False) d chart w) (hd : σ.depth < d) (hempty : w.answers = [])
  (hsilence : ¬ Finds R p σ (.broken .silence))
include hstarts hw hd hempty hsilence

/-- After every delivery one message waits, or the match is answered, or the loop is halted. -/
theorem Starts.pending (k : Nat) {loop : Loop (Delivery V) Fault}
    (hadvance : Loop.advance receive k ((Loop.fresh none).send first) w = (loop, w')) :
    loop.pending ≤ 1 ∧ (loop.pending = 1 ↔ w'.answers = [] ∧ loop.halted = none) := by
  have hI : ∀ (m : Delivery V) w₁ m' w₂, w₁.answers = [] → receive m w₁ = ([.send m'], w₂) →
      w₂.answers = [] := by
    intro m w₁ m' w₂ h hreceive
    rw [receive_answers hreceive, h]
  have hcases := Loop.advance_safe (fun _ _ => Reported.exists_receive) hI (hstarts.safe hw hd)
    (Loop.holds_send_fresh none first) hempty k
  rw [hadvance] at hcases
  rcases hcases with ⟨m, hholds, hanswers⟩ | ⟨m, w₁, hreported, hreceive, hrests⟩ |
    ⟨f, hrests, b, hb, hf, -⟩
  · -- one message waits, and nothing was answered on the way to it
    have hpending := pending_of_holds hholds
    exact ⟨hpending.le, fun _ => ⟨hanswers, hholds.not_halted⟩, fun _ => hpending⟩
  · -- the last message was the report, and it has been delivered
    have hpending := pending_of_rests hrests
    obtain ⟨_, _, answer, _, _, _, _, hreceive'⟩ := hreported.receive
    cases hreceive.symm.trans hreceive'
    refine ⟨hpending.le.trans (Nat.zero_le 1), fun h => ?_, fun h => ?_⟩
    · cases hpending.symm.trans h
    · cases h.1
  · -- the thread has broken off: not silently, so that the loop is halted
    have hpending := pending_of_rests hrests
    refine ⟨hpending.le.trans (Nat.zero_le 1), fun h => ?_, fun h => ?_⟩
    · cases hpending.symm.trans h
    · cases b with
      | silence => exact absurd hb hsilence
      | fault g =>
        have hhalted := hrests.halted.symm.trans h.2
        rw [← hf] at hhalted
        cases hhalted

/-- A run that goes idle has answered the match once, one that meets a fault has not. -/
theorem Starts.answered {fuel : Nat} {result : Except (Stop Fault) Nat}
    {loop : Loop (Delivery V) Fault}
    (hrun : runLoop fuel none [first] w = some (result, loop, w')) :
    (∀ k, result = .ok k → ∃ a chart', w'.answers = [a] ∧ a.matcher = n ∧
      Evolves R (fun _ => False) chart w chart' { w' with answers := [] }) ∧
    ∀ stop, result = .error stop → w'.answers = [] := by
  rcases hstarts.ends hw hd hrun with hends | ⟨_, h, -⟩
  · cases hends with
    | answered hreported hreceive =>
      obtain ⟨chart', _, answer, hev, _, _, hn, hreceive'⟩ := hreported.receive
      cases hreceive.symm.trans hreceive'
      refine ⟨fun _ _ => ⟨answer, chart', ?_, hn, ?_⟩, fun _ h => by cases h⟩
      · simp only [hev.answers, hempty]
      · exact hev.trans (.of_cells hev.charted ⟨rfl, (hev.answers.trans hempty).symm, rfl⟩ rfl)
    | idle hbroke =>
      obtain ⟨-, b, hb, hf, -⟩ := hbroke
      cases b with
      | fault g => cases hf
      | silence => exact absurd hb hsilence
    | fault hbroke =>
      obtain ⟨-, _, _, _, hquiet⟩ := hbroke
      exact ⟨fun _ h => (by cases h), fun _ _ => hquiet.answers.trans hempty⟩
  · cases h

end Threads

/-- **One message at a time, and one answer.** A match without actors from outside is started over
a stream that was built without them, by asking the stream or with its cursor. After every delivery
at most one message waits, and one waits until the match is answered or the loop is halted. When
the run goes idle, the match was answered once and no cell of the stream is waited for; when a
fault has stopped it, the match was not answered. So a parse is never left without an answer. -/
theorem single_thread (hbuilt : Built (fun p => p.isForeign = false) w₀ s w)
    (hR : w₀.rulebook.Native) (hp : p.isForeign = false)
    (hfirst : first = .ask s (matcher p n) ∨ ∃ c, s = .fixed c ∧ first = .cursor (matcher p n) c) :
    (∀ k, ∀ loop w',
      Loop.advance receive k ((Loop.fresh none).send first) { w with answers := [] } = (loop, w') →
        loop.pending ≤ 1 ∧ (loop.pending = 1 ↔ w'.answers = [] ∧ loop.halted = none)) ∧
    (∀ fuel result loop w',
      runLoop fuel none [first] { w with answers := [] } = some (result, loop, w') →
        (∀ k, result = .ok k → (∃ a, w'.answers = [a] ∧ a.matcher = n) ∧ Settled w₀ w') ∧
        ∀ stop, result = .error stop → w'.answers = []) ∧
    ∀ fuel out w', parse fuel none p s w = some (out, w') → out ≠ .error .incomplete := by
  obtain ⟨chart, σ, hs⟩ := hbuilt.exists_standing
  have hw := hs.poised [] w.walked
  have hanswers := Finds.answers hR hp hs.uses
  -- The first message reads the source, or is the cursor that the source stands for.
  obtain ⟨τ, hstarts, hτ, hd⟩ : ∃ τ, Starts chart p n first τ ∧
      τ.Uses (fun p => p.isForeign = false) ∧ τ.depth < σ.depth + 1 := by
    rcases hfirst with rfl | ⟨c, rfl, rfl⟩
    · exact ⟨σ, .ask hs.source, hs.uses, σ.depth.lt_succ_self⟩
    · have hsource := hs.source
      obtain ⟨x, hx, rfl⟩ := Option.map_eq_some_iff.mp hsource
      exact ⟨.fixed x, .cursor hx, hs.uses, Nat.lt_succ_self _⟩
  have hsilence := Finds.answers hR hp hτ
  refine ⟨fun k loop w' hadvance => ?_, fun fuel result loop w' hrun => ?_,
    fun fuel out w' hrun => ?_⟩
  · exact hstarts.pending hw hd rfl hsilence k hadvance
  · obtain ⟨hok, herror⟩ := hstarts.answered hw hd rfl hsilence hrun
    refine ⟨fun k hk => ?_, herror⟩
    obtain ⟨a, chart', ha, hn, hev⟩ := hok k hk
    have hsettled : Settled w₀ { w' with answers := [] } := hev.settled hs.settled
    exact ⟨⟨a, ha, hn⟩, hsettled⟩
  · rintro rfl
    rcases Starts.runMatch_says (.ask hs.source) hw σ.depth.lt_succ_self hrun with
      ⟨_, h, -⟩ | ⟨_, _, hf, hsays, -⟩
    · cases h
    · cases hsays
      exact hanswers hf

/-- The words of a text, read by a rule that refers to itself. -/
theorem single_thread_words :
    Built (fun p => p.isForeign = false) wordWorld wordStream.1 wordStream.2 ∧
    wordWorld.rulebook.Native ∧
    (∀ k, ∀ loop w',
      Loop.advance receive k
          ((Loop.fresh none).send (.ask wordStream.1 (matcher (.rule ⟨0, "rest"⟩) 7)))
          { wordStream.2 with answers := [] } = (loop, w') →
        loop.pending ≤ 1 ∧ (loop.pending = 1 ↔ w'.answers = [] ∧ loop.halted = none)) := by
  have hbuilt : Built (fun p => p.isForeign = false) wordWorld wordStream.1 wordStream.2 := by
    refine .derived .chars ?_ rfl
    rintro k ⟨⟩
    rfl
  exact ⟨hbuilt, native_wordWorld, (single_thread hbuilt native_wordWorld rfl (.inl rfl)).1⟩

end Humus.Peg
