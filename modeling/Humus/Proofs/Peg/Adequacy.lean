import Humus.Proofs.Peg.Completeness
import Humus.Peg.Parse

/-!
# Adequacy of parses

A parse comes to what is derived, and to nothing else: the outcome of a run says what the source of
its stream reads first, and what the pattern comes to there.

## Main definitions

* `Finding V`: what a parse comes to, with its places written out
* `Finds R p σ f`: over the source `σ`, the pattern `p` comes to the finding `f`
* `Starts chart p n first σ`: the message starts the match number `n` over `σ`
* `Says chart out f`: the outcome says what the finding says

## Main results

* `Starts.safe`, `Starts.reaches`: the thread of a match
* `runMatch_ends`: how the run of a match ends
* `Starts.runMatch_says`: the outcome of a run is found
* `Starts.halted_remains`: what a run leaves that is halted
* `Starts.exists_runMatch`: where there is a finding, the run ends
-/

namespace Humus.Peg

open Dispatch (Effect Script Loop Stop After Safe Reaches Ends)

/-- What a parse comes to. -/
inductive Finding (V : Type) where
  | matched (start stop : Place V) (value : V)
  | refused (start : Place V) (refusal : Refusal (Place V) V)
  | broken (why : Break)

variable {V : Type} [MatchValue V] [DecidableEq V] {R : Rulebook V} {B : Nat → Prop} {d n : Nat}
  {chart : Chart V} {w w' : World V} {p : Pattern V} {σ : Source V} {first : Delivery V}
  {x : Place V} {f f' : Finding V} {out : Outcome V}

/-- The finding of a match at `x`, from its verdict. -/
def Verdict.finding (x : Place V) : Verdict (Place V) V → Finding V
  | .matched y v => .matched x y v
  | .refused r => .refused x r
  | .broken b => .broken b

/-- Over the source `σ` the pattern `p` comes to a finding. -/
inductive Finds (R : Rulebook V) (p : Pattern V) (σ : Source V) : Finding V → Prop where
  | unread {b} : Reads R σ (.error b) → Finds R p σ (.broken b)
  | read {x o} : Reads R σ (.ok x) → Derives (lazyTape R) R (.whole p) x o →
      Finds R p σ (o.finding x)

/-- The message starts the match number `n` over the source `σ`. -/
inductive Starts (chart : Chart V) (p : Pattern V) (n : Nat) : Delivery V → Source V → Prop where
  | ask {s σ} : s.source? chart = some σ → Starts chart p n (.ask s (matcher p n)) σ
  | cursor {c x} : c.place? chart = some x → Starts chart p n (.cursor (matcher p n) c) (.fixed x)

/-- The message reports a finding as the answer number `n`. -/
inductive Reports (chart : Chart V) (n : Nat) : Finding V → Delivery V → Prop where
  | matched {start stop x y v} : start.place? chart = some x → stop.place? chart = some y →
      Reports chart n (.matched x y v) (.success (.report n) ⟨start, stop, v⟩)
  | refused {g x r} : g.position.place? chart = some x → g.Tells chart r →
      Reports chart n (.refused x r) (.failure (.report n) g)

/-- The outcome says what the finding says. -/
inductive Says (chart : Chart V) : Outcome V → Finding V → Prop where
  | matched {start stop x y v} : start.place? chart = some x → stop.place? chart = some y →
      Says chart (.ok ⟨start, stop, v⟩) (.matched x y v)
  | refused {g x r} : g.position.place? chart = some x → g.Tells chart r →
      Says chart (.error (.failed g)) (.refused x r)
  | fault {g} : Says chart (.error (.halted (.fault g))) (.broken (.fault g))
  | silence : Says chart (.error .incomplete) (.broken .silence)

/-- A parse comes to one finding. -/
theorem Finds.unique (h : Finds R p σ f) (h' : Finds R p σ f') : f' = f := by
  cases h with
  | unread hb =>
    cases h' with
    | unread hb' => cases hb.unique hb'; rfl
    | read hx' _ => cases hb.unique hx'
  | read hx ho =>
    cases h' with
    | unread hb' => cases hx.unique hb'
    | read hx' ho' =>
      cases hx.unique hx'
      rw [ho.unique ho']

/-! ## The thread of a match -/

/-- The match number `n` is answered with a finding of `P`. -/
def Reported (R : Rulebook V) (B : Nat → Prop) (chart : Chart V) (w : World V)
    (P : Finding V → Prop) (n : Nat) (m : Delivery V) (w' : World V) : Prop :=
  ∃ chart' f, Evolves R B chart w chart' w' ∧ P f ∧ Reports chart' n f m

omit [MatchValue V] [DecidableEq V] in
theorem Told.reports {chart : Chart V} {start : Cursor V} {o : Verdict (Place V) V} {m : Delivery V}
    (hx : start.place? chart = some x) (h : Told chart start (.report n) (.report n) o m) :
    Reports chart n (o.finding x) m := by
  cases h with
  | matched hy => exact .matched hx hy
  | refused hp hr => exact .refused (hp ▸ hx) hr

/-- The thread of a match is sound. -/
theorem Starts.safe (h : Starts chart p n first σ) (hw : Poised R B d chart w) (hd : σ.depth < d)
    (k : Nat) :
    Safe receive (Remains R chart) (Reported R B chart w (Finds R p σ) n)
      (BrokeOff w fun b => Finds R p σ (.broken b)) k first w := by
  -- Once the first cursor is known, the pattern is asked to match there.
  have hask : ∀ {chart₁ w₁ c x} (k : Nat), Evolves R B chart w chart₁ w₁ →
      c.place? chart₁ = some x → Reads R σ (.ok x) →
      Safe receive (Remains R chart) (Reported R B chart w (Finds R p σ) n)
        (BrokeOff w fun b => Finds R p σ (.broken b)) k (.cursor (matcher p n) c) w₁ := by
    intro chart₁ w₁ c x k hev hc hx
    refine Safe.step (hev.remains hw.rulebook) fun j _ => ?_
    have hbegins : Begins chart₁ c (.report n) (.report n) (.whole p) c _ := .whole
    have hwhole := (sound R j).1 (hw.evolve hev) hc (hx.depth_le.trans_lt hd) hbegins
    refine Safe.bind hwhole (fun _ hs => hs.of_le hev.le) ?_ ?_
    · rintro i - m w₂ hs ⟨chart₂, o, hev', ho, htold⟩
      exact Safe.here (hs.of_le hev.le) ⟨chart₂, _, hev.trans hev', .read hx ho,
        htold.reports (Cursor.place?_mono hev'.le _ hc)⟩ i
    · rintro g w₂ ⟨b, hb, hf, hquiet⟩
      exact ⟨b, .read hx hb, hf, hev.toQuiet.trans hquiet⟩
  have hrefl : Evolves R B chart w chart w := .of_cells hw.charted (.refl w) rfl
  cases h with
  | @ask s σ hs =>
    -- The stream is asked for its first cursor, or it breaks and nothing is matched.
    refine Safe.bind ((sound R k).2 hw hs hd) (fun _ hs => hs) ?_ ?_
    · rintro j - m w₁ - ⟨chart₁, x, c, hev, hx, hc, rfl⟩
      exact hask j hev hc hx
    · rintro g w₁ ⟨b, hb, hf, hquiet⟩
      exact ⟨b, .unread hb, hf, hquiet⟩
  | cursor hc => exact hask k hrefl hc (reads_iff.mpr .fixed)

/-- The thread of a match comes to an end, where there is a finding. -/
theorem Starts.reaches (h : Starts chart p n first σ) (hw : Poised R B d chart w)
    (hd : σ.depth < d) (hf : Finds R p σ f) :
    Reaches receive (Reported R B chart w (Finds R p σ) n)
      (BrokeOff w fun b => Finds R p σ (.broken b)) first w := by
  -- From the first cursor on, the match comes to the verdict that is derived there.
  have hask : ∀ {chart₁ w₁ c x o}, Evolves R B chart w chart₁ w₁ → c.place? chart₁ = some x →
      Reads R σ (.ok x) → Derives (lazyTape R) R (.whole p) x o →
      Reaches receive (Reported R B chart w (Finds R p σ) n)
        (BrokeOff w fun b => Finds R p σ (.broken b)) (.cursor (matcher p n) c) w₁ := by
    intro chart₁ w₁ c x o hev hc hx ho
    have hbegins : Begins chart₁ c (.report n) (.report n) (.whole p) c _ := .whole
    have hwhole := ho.comes (hw.evolve hev) hc (hx.depth_le.trans_lt hd) hbegins
    refine Reaches.step (Reaches.bind hwhole ?_ ?_)
    · rintro m w₂ ⟨chart₂, _, hev', rfl, htold⟩
      exact .here ⟨chart₂, _, hev.trans hev', .read hx ho,
        htold.reports (Cursor.place?_mono hev'.le _ hc)⟩
    · rintro g w₂ ⟨b, rfl, hf, hquiet⟩
      exact ⟨b, .read hx ho, hf, hev.toQuiet.trans hquiet⟩
  have hrefl : Evolves R B chart w chart w := .of_cells hw.charted (.refl w) rfl
  cases h with
  | @ask s σ hs =>
    cases hf with
    | @unread b hb =>
      -- the stream breaks as it is asked, and cannot give a cursor
      refine Reaches.bind (hb.fetchesTo hw hs hd) ?_ ?_
      · rintro m w₁ ⟨chart₁, x, c, hev, hx, hc, rfl⟩
        cases hx
      · rintro g w₁ ⟨_, hb', hf, hquiet⟩
        cases hb'
        exact ⟨b, .unread hb, hf, hquiet⟩
    | read hx ho =>
      -- the stream gives a cursor, and cannot break
      refine Reaches.bind (hx.fetchesTo hw hs hd) ?_ ?_
      · rintro m w₁ ⟨chart₁, _, c, hev, hx', hc, rfl⟩
        cases hx'
        exact hask hev hc hx ho
      · rintro g w₁ ⟨_, hb', hf, hquiet⟩
        cases hb'
  | cursor hc =>
    cases hf with
    | unread hb => cases Reads.unique (reads_iff.mpr .fixed) hb
    | read hx ho =>
      cases Reads.unique (reads_iff.mpr .fixed) hx
      exact hask hrefl hc hx ho

/-! ## Runs -/

theorem Reported.receive {P : Finding V → Prop} {m : Delivery V}
    (h : Reported R B chart w P n m w') :
    ∃ chart' f answer, Evolves R B chart w chart' w' ∧ P f ∧
      (∀ k, Says chart' (outcomeOf (.ok k) [answer]) f) ∧ answer.matcher = n ∧
      Humus.Peg.receive m w' = ([], { w' with answers := answer :: w'.answers }) := by
  obtain ⟨chart', f, hev, hf, hreports⟩ := h
  cases hreports with
  | @matched start stop x y v hx hy =>
    exact ⟨chart', _, ⟨n, .ok ⟨start, stop, v⟩⟩, hev, hf, fun _ => .matched hx hy, rfl, rfl⟩
  | @refused g x r hx hr =>
    exact ⟨chart', _, ⟨n, .error g⟩, hev, hf, fun _ => .refused hx hr, rfl, rfl⟩

/-- A message that reports is the last one. -/
theorem Reported.exists_receive {P : Finding V → Prop} {m : Delivery V}
    (h : Reported R B chart w P n m w') : ∃ w₁, Humus.Peg.receive m w' = ([], w₁) := by
  obtain ⟨_, _, _, _, _, _, _, hreceive⟩ := h.receive
  exact ⟨_, hreceive⟩

variable {fuel : Nat} {limit : Option Nat}

/-- The message that starts a match is the only one that waits at the begin of its run. -/
theorem runLoop_eq (fuel : Nat) (limit : Option Nat) (first : Delivery V) (w : World V) :
    runLoop fuel limit [first] w =
      ((Loop.fresh limit).send first).runFrom receive 0 fuel w :=
  rfl

/-- How the run of a match ends. -/
theorem Starts.ends (h : Starts chart p n first σ) (hw : Poised R B d chart w) (hd : σ.depth < d)
    {result : Except (Stop Fault) Nat} {loop : Loop (Delivery V) Fault}
    (hrun : runLoop fuel limit [first] w = some (result, loop, w')) :
    Ends receive (Reported R B chart w (Finds R p σ) n)
        (fun f s => Remains R chart s ∧ BrokeOff w (fun b => Finds R p σ (.broken b)) f s)
        result w' ∨
      ∃ k, limit = some k ∧ result = .error (.limit k) ∧ Remains R chart w' := by
  exact Loop.runFrom_safe (fun _ _ => Reported.exists_receive) (h.safe hw hd fuel)
    (Loop.holds_send_fresh limit first) hrun

/-- The outcome of a match that broke off. -/
def Break.outcome : Break → Outcome V
  | .fault f => .error (.halted (.fault f))
  | .silence => .error .incomplete

/-- How the run of a match ends: at its limit, where it breaks off, or with the one answer that it
gives. -/
theorem runMatch_ends {I : World V → Prop} {Q : Delivery V → World V → Prop} {P : Break → Prop}
    (hQ : ∀ m s, Q m s → ∃ answer, receive m s = ([], { s with answers := answer :: s.answers }))
    (hsafe : Safe receive I Q (BrokeOff { w with answers := [] } P) fuel first
      { w with answers := [] })
    (hrun : runMatch fuel limit first w = some (out, w')) :
    (∃ k, limit = some k ∧ out = .error (.halted (.limit k))) ∨ (∃ b, P b ∧ out = b.outcome) ∨
      ∃ m s answer k, Q m s ∧ receive m s = ([], { s with answers := answer :: s.answers }) ∧
        out = outcomeOf (.ok k) (answer :: s.answers) ∧ w' = { s with answers := [] } := by
  simp only [runMatch, Option.bind_eq_bind, Option.bind_eq_some_iff, Option.pure_def,
    Option.some.injEq, Prod.mk.injEq] at hrun
  obtain ⟨⟨result, loop, w₁⟩, hrun, rfl, rfl⟩ := hrun
  have hlast : ∀ m s, Q m s → ∃ s', receive m s = ([], s') := by
    intro m s h
    obtain ⟨_, hreceive⟩ := hQ m s h
    exact ⟨_, hreceive⟩
  rcases Loop.runFrom_safe hlast hsafe (Loop.holds_send_fresh limit first) hrun with
    hends | ⟨k, hk, rfl, -⟩
  · right
    cases hends with
    | @answered m s _ k hm hreceive =>
      right
      obtain ⟨answer, hreceive'⟩ := hQ m s hm
      obtain rfl := (Prod.mk.inj (hreceive.symm.trans hreceive')).2
      exact ⟨m, s, answer, k, hm, hreceive', rfl, rfl⟩
    | idle hbroke =>
      obtain ⟨-, b, hb, hfault, hquiet⟩ := hbroke
      cases b with
      | fault f => cases hfault
      | silence =>
        -- nothing waits and nothing was answered: the match is incomplete
        refine .inl ⟨_, hb, ?_⟩
        rw [hquiet.answers]
        rfl
    | fault hbroke =>
      obtain ⟨-, b, hb, hfault, -⟩ := hbroke
      cases b with
      | fault f =>
        -- a fault halts the loop, whatever was answered
        cases hfault
        exact .inl ⟨_, hb, rfl⟩
      | silence => cases hfault
  · exact .inl ⟨k, hk, rfl⟩

/-- **The outcome of a run is found.** -/
theorem Starts.runMatch_says (h : Starts chart p 0 first σ)
    (hw : Poised R B d chart { w with answers := [] }) (hd : σ.depth < d)
    (hrun : runMatch fuel limit first w = some (out, w')) :
    (∃ k, limit = some k ∧ out = .error (.halted (.limit k))) ∨
      ∃ chart' f, Finds R p σ f ∧ Says chart' out f ∧
        ((∀ b, f ≠ .broken b) → Evolves R B chart { w with answers := [] } chart' w') := by
  have hlast : ∀ m s, Reported R B chart { w with answers := [] } (Finds R p σ) 0 m s →
      ∃ answer, receive m s = ([], { s with answers := answer :: s.answers }) := by
    intro m s h
    obtain ⟨_, _, answer, _, _, _, _, hreceive⟩ := h.receive
    exact ⟨answer, hreceive⟩
  rcases runMatch_ends hlast (h.safe hw hd fuel) hrun with
    hlimit | ⟨b, hb, rfl⟩ | ⟨m, s, answer, k, hreported, hreceive, rfl, rfl⟩
  · exact .inl hlimit
  · refine .inr ⟨chart, _, hb, ?_, fun h => absurd rfl (h b)⟩
    cases b with
    | fault f => exact .fault
    | silence => exact .silence
  · -- The last message reported the finding, and its answer is the only one.
    obtain ⟨chart', f, answer', hev, hf, hsays, -, hreceive'⟩ := hreported.receive
    have hanswers : s.answers = [] := hev.answers
    cases hreceive'.symm.trans hreceive
    refine .inr ⟨chart', f, hf, ?_, fun _ => ?_⟩
    · rw [hanswers]
      exact hsays k
    · exact hev.trans (.of_cells hev.charted ⟨rfl, hanswers.symm, rfl⟩ rfl)

/-- A run that is halted leaves the cells of the chart, some of them perhaps busy. -/
theorem Starts.halted_remains (h : Starts chart p 0 first σ)
    (hw : Poised R B d chart { w with answers := [] }) (hd : σ.depth < d) {stop : Stop Fault}
    (hrun : runMatch fuel limit first w = some (.error (.halted stop), w')) :
    Remains R chart w' := by
  simp only [runMatch, Option.bind_eq_bind, Option.bind_eq_some_iff, Option.pure_def,
    Option.some.injEq, Prod.mk.injEq] at hrun
  obtain ⟨⟨result, loop, w₁⟩, hrun, hout, rfl⟩ := hrun
  suffices hw₁ : Remains R chart w₁ from hw₁.of_cells rfl rfl
  rcases h.ends hw hd hrun with hends | ⟨k, -, -, hremains⟩
  · cases hends with
    | answered hreported hreceive =>
      -- a match that was answered was not halted
      obtain ⟨_, _, answer, hev, _, _, _, hreceive'⟩ := hreported.receive
      obtain rfl := (Prod.mk.inj (hreceive.symm.trans hreceive')).2
      exact (hev.remains hw.rulebook).of_cells rfl rfl
    | idle hbroke | fault hbroke => exact hbroke.1
  · exact hremains

/-- **Where there is a finding, the run ends.** -/
theorem Starts.exists_runMatch (h : Starts chart p 0 first σ)
    (hw : Poised R B d chart { w with answers := [] }) (hd : σ.depth < d) (hf : Finds R p σ f) :
    ∃ N, ∀ fuel, N ≤ fuel → ∃ out w', runMatch fuel none first w = some (out, w') := by
  obtain ⟨N, hN⟩ := Loop.exists_runFrom (fun _ _ => Reported.exists_receive)
    (h.reaches hw hd hf) (Loop.holds_send_fresh none first) rfl 0
  refine ⟨N, fun fuel hfuel => ?_⟩
  obtain ⟨result, loop, s, hrun, -⟩ := hN fuel hfuel
  refine ⟨outcomeOf result s.answers, { s with answers := [] }, ?_⟩
  simp only [runMatch, runLoop_eq, hrun]
  rfl

end Humus.Peg
