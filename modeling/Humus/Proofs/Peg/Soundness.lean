import Humus.Proofs.Peg.Telling

/-!
# Soundness of matching

The deliveries of a match follow the derivations: whatever the actors answer is derived. A match
that goes on forever answers nothing, so the statements are about the first `n` deliveries, and
hold for every `n`. Meanwhile, whatever has been delivered so far, the cells of the world remain
those of a chart.

## Main definitions

* `Works R B chart w P start ok fail n p`: for `n` deliveries after `p`, the work on a task goes on,
  or it has ended with a verdict of `P`

## Main results

* `works_whole`, `worksSoundly_of_whole`: the work on a pattern, from that on its parts
* `readsSoundly`: the reading of a stream, from that of the streams below
* `sound`: the work on a task ends with a verdict that is derived, and a customer of a stream is
  given the place that its source reads
-/

namespace Humus.Peg

open Dispatch (Effect Script After Safe)

variable {V : Type} [MatchValue V] [DecidableEq V] {R : Rulebook V} {B : Nat → Prop} {d n : Nat}
  {chart chart₁ : Chart V} {w w₁ w₂ : World V} {P P₁ : Verdict (Place V) V → Prop}
  {start start₁ here : Cursor V} {ok ok₁ : OnSuccess V} {fail fail₁ : OnFailure V}
  {m m' : Delivery V} {p : Effects V × World V} {x : Place V} {o : Verdict (Place V) V}

/-- For `n` deliveries the thread at `m` goes on, or a verdict of `P` has been told. -/
abbrev WorksFrom (R : Rulebook V) (B : Nat → Prop) (chart : Chart V) (w : World V)
    (P : Verdict (Place V) V → Prop) (start : Cursor V) (ok : OnSuccess V) (fail : OnFailure V) :
    Nat → Delivery V → World V → Prop :=
  Safe receive (Remains R chart) (Answered R B chart w P start ok fail)
    (BrokeOff w fun b => P (.broken b))

/-- For `n` deliveries after `p`, the work on a task goes on, or a verdict of `P` has been told. -/
abbrev Works (R : Rulebook V) (B : Nat → Prop) (chart : Chart V) (w : World V)
    (P : Verdict (Place V) V → Prop) (start : Cursor V) (ok : OnSuccess V) (fail : OnFailure V)
    (n : Nat) : Effects V × World V → Prop :=
  After (WorksFrom R B chart w P start ok fail n) fun f w' =>
    Remains R chart w' ∧ BrokeOff w (fun b => P (.broken b)) f w'

/-- For `n` deliveries the work on every task is sound. -/
def WorksSoundly (R : Rulebook V) (n : Nat) : Prop :=
  ∀ ⦃B d chart w task start here x ok fail effects⦄, Poised R B d chart w →
    here.place? chart = some x → x.depth < d → Begins chart start ok fail task here effects →
    Works R B chart w (Derives (lazyTape R) R task x) start ok fail n (effects, w)

/-- For `n` deliveries every stream is read soundly. -/
def ReadsSoundly (R : Rulebook V) (n : Nat) : Prop :=
  ∀ ⦃B d chart w s σ customer⦄, Poised R B d chart w → s.source? chart = some σ → σ.depth < d →
    Safe receive (Remains R chart) (Delivered R B chart w (Reads R σ) customer)
      (BrokeOff w fun b => Reads R σ (.error b)) n (.ask s customer) w

/-! ## Composition -/

/-- Work that begins where a computation has led to is work that began where that began. -/
theorem Works.imp (hev : Evolves R B chart w chart₁ w₁) (hP : ∀ o, P₁ o → P o)
    (h : Works R B chart₁ w₁ P₁ start ok fail n p) : Works R B chart w P start ok fail n p := by
  have hbroke : ∀ f s, BrokeOff w₁ (fun b => P₁ (.broken b)) f s →
      BrokeOff w (fun b => P (.broken b)) f s := by
    rintro f s ⟨b, hb, hf, hquiet⟩
    exact ⟨b, hP _ hb, hf, hev.toQuiet.trans hquiet⟩
  have hremains : ∀ s, Remains R chart₁ s → Remains R chart s := fun s hs => hs.of_le hev.le
  refine After.imp h (fun m s hsafe => hsafe.bind hremains ?_ hbroke) fun f s hs =>
    ⟨hremains s hs.1, hbroke f s hs.2⟩
  rintro k - m s hs ⟨chart', o, hev', ho, htold⟩
  exact Safe.here (hremains s hs) ⟨chart', o, hev.trans hev', hP o ho, htold⟩ k

/-- The work on a part is followed by that of the addressees of its verdict. -/
theorem Works.bind (h : Works R B chart w P₁ start₁ ok₁ fail₁ n p)
    (hbroken : ∀ b, P₁ (.broken b) → P (.broken b))
    (hnext : ∀ chart' w' o m, Remains R chart w' → Evolves R B chart w chart' w' → P₁ o →
      Told chart' start₁ ok₁ fail₁ o m → ∀ k, k ≤ n →
        WorksFrom R B chart w P start ok fail k m w') :
    Works R B chart w P start ok fail n p := by
  have hbroke : ∀ f s, BrokeOff w (fun b => P₁ (.broken b)) f s →
      BrokeOff w (fun b => P (.broken b)) f s := by
    rintro f s ⟨b, hb, hf, hquiet⟩
    exact ⟨b, hbroken b hb, hf, hquiet⟩
  refine After.imp h (fun m s hsafe => hsafe.bind (fun _ hs => hs) ?_ hbroke) fun f s hs =>
    ⟨hs.1, hbroke f s hs.2⟩
  rintro k hk m s hs ⟨chart', o, hev, ho, htold⟩
  exact hnext chart' s o m hs hev ho htold k hk

/-- An addressee goes on with the work. -/
theorem WorksFrom.next (hs : Remains R chart w₁) (hev : Evolves R B chart w chart₁ w₁)
    (hP : ∀ o, P₁ o → P o)
    (h : ∀ k, k < n → Works R B chart₁ w₁ P₁ start ok fail k (receive m w₁)) :
    WorksFrom R B chart w P start ok fail n m w₁ :=
  Safe.step hs fun k hk => Works.imp hev hP (h k hk)

/-- An addressee tells the verdict. -/
theorem WorksFrom.tell (hR : w.rulebook = R) (hs : Remains R chart w₁)
    (hreceive : receive m w₁ = ([.send m'], w₂))
    (hev : Evolves R B chart w chart₁ w₂) (ho : P o) (htold : Told chart₁ start ok fail o m') :
    WorksFrom R B chart w P start ok fail n m w₁ := by
  refine Safe.step hs fun k _ => ?_
  rw [hreceive]
  exact Safe.here (hev.remains hR) ⟨chart₁, o, hev, ho, htold⟩ k

/-! ## Patterns -/

omit [MatchValue V] in
theorem any_eq_iff (t : Option V) (value : V) :
    t.any (fun v => decide (v = value)) = true ↔ t = some value := by
  cases t <;> simp

/-- A match of the end of the input is answered at once. -/
theorem works_finish (hw : Poised R B d chart w) (hx : start.place? chart = some x) :
    Works R B chart w (Derives (lazyTape R) R (.whole .finish) x) start ok fail n
      (receive (.request .finish ⟨start, ok, fail⟩) w) := by
  have hrefl : Evolves R B chart w chart w := .of_cells hw.charted (.refl w) rfl
  have htoken : (lazyTape R).token? x = start.token? := Cursor.token?_of_place? hx
  cases ht : start.token? with
  | none =>
    have heq : receive (.request .finish ⟨start, ok, fail⟩) w =
        (succeed ok (emptySuccess start), w) := by
      simp only [receive, matchPattern, Cursor.isEnd_eq, ht, Option.isNone_none, if_true]
    rw [heq]
    have hderives : Derives (lazyTape R) R (.whole .finish) x (.matched x MatchValue.nothing) :=
      .finish (htoken.trans ht)
    exact Safe.here (hrefl.remains hw.rulebook) ⟨chart, _, hrefl, hderives, .matched hx⟩ n
  | some v =>
    have heq : receive (.request .finish ⟨start, ok, fail⟩) w =
        (reject ⟨start, ok, fail⟩ .endOfInput, w) := by
      simp only [receive, matchPattern, Cursor.isEnd_eq, ht, Option.isNone_some]
      rfl
    rw [heq]
    exact Safe.here (hrefl.remains hw.rulebook) ⟨chart, _, hrefl, .finishRefused (htoken.trans ht),
      .refused rfl (Failure.tells_of hx _)⟩ n

/-- A rule seals its grammar and asks its body, whose verdict it reduces. -/
theorem works_rule (ih : WorksSoundly R n) (hw : Poised R B d chart w)
    (hx : start.place? chart = some x) (hd : x.depth < d) (ref : RuleRef) :
    Works R B chart w (Derives (lazyTape R) R (.whole (.rule ref)) x) start ok fail n
      (receive (.request (.rule ref) ⟨start, ok, fail⟩) w) := by
  have hseal : Evolves R B chart w chart (w.sealGrammar ref.grammar) :=
    .of_cells hw.charted ⟨by simp, by simp, by simp⟩ (by simp)
  simp only [receive, matchPattern, matchRule_eq, hw.rulebook]
  cases hR : R ref with
  | error fault =>
    exact ⟨hseal.remains hw.rulebook, .fault fault, .ruleUnknown hR, rfl, hseal.toQuiet⟩
  | ok rule =>
    obtain ⟨body, transform⟩ := rule
    have hbegins : Begins chart start (ruleOk ref transform ok) (.relabel ref.name fail)
        (.whole body) start _ := .whole
    have hbody := (ih (hw.evolve hseal) hx hd hbegins).imp hseal fun _ h => h
    refine Works.bind hbody (fun b h => .rule hR h) ?_
    intro chart' w' o m hs hev ho htold j _
    have hderives := Derives.rule hR ho
    rcases htold.rule w' (Cursor.place?_mono hev.le _ hx) with
      htold' | ⟨w'', hquiet, hcells, ⟨m', hreceive, htold'⟩ | ⟨fault, hreceive, hbroken⟩⟩
    · -- the verdict of the body is that of the rule
      exact Safe.here hs ⟨chart', _, hev, hderives, htold'⟩ j
    · -- the transform accepts the value
      have hev' := hev.trans (.of_cells hev.charted hquiet hcells)
      exact .tell hw.rulebook hs hreceive hev' hderives htold'
    · -- the transform refuses the value
      rw [hbroken] at hderives
      refine Safe.step hs fun i _ => ?_
      rw [hreceive]
      have hev' := hev.trans (.of_cells hev.charted hquiet hcells)
      exact ⟨hev'.remains hw.rulebook, .fault fault, hderives, rfl, hev'.toQuiet⟩

/-- What a pattern does with a request, once the work on its parts is sound. -/
theorem works_whole (ih : ∀ k, k < n → WorksSoundly R k) (hw : Poised R B d chart w)
    (hx : start.place? chart = some x) (hd : x.depth < d) (p : Pattern V) :
    Works R B chart w (Derives (lazyTape R) R (.whole p) x) start ok fail n
      (ask p start ok fail, w) := by
  have hrefl : Evolves R B chart w chart w := .of_cells hw.charted (.refl w) rfl
  refine Safe.step (hrefl.remains hw.rulebook) fun k hk => ?_
  -- The work on a task at the same place, with the same addressees.
  have hpart : ∀ {task effects}, Begins chart start ok fail task start effects →
      (∀ o, Derives (lazyTape R) R task x o → Derives (lazyTape R) R (.whole p) x o) →
      Works R B chart w (Derives (lazyTape R) R (.whole p) x) start ok fail k (effects, w) :=
    fun hbegins hP => (ih k hk hw hx hd hbegins).imp hrefl hP
  cases p with
  | terminal value =>
    simp only [receive, matchPattern, ← any_eq_iff]
    exact hpart .token fun o h => .terminal h
  | predicate label test => exact hpart .token fun o h => .predicate h
  | any =>
    have hif : (matchPattern ⟨start, ok, fail⟩ w .any).1 =
        if start.token?.any fun _ => true then consume ⟨start, ok, fail⟩
          else reject ⟨start, ok, fail⟩ .anyToken := by
      cases start <;> rfl
    have hpart := hpart .token fun o h => .any h
    rw [← hif] at hpart
    exact hpart
  | finish => exact works_finish hw hx
  | sequence ps => exact hpart .items fun o h => .sequence h
  | choice ps => exact hpart (.alternatives .none) fun o h => .choice h
  | zeroOrMore p => exact hpart .again fun o h => .zeroOrMore h
  | oneOrMore p => exact hpart .again fun o h => .oneOrMore h
  | optional p =>
    refine (ih k hk hw hx hd .whole).bind (fun b h => .optional h) ?_
    intro chart' w' o m hs hev ho htold j _
    obtain ⟨m', hreceive, htold'⟩ := htold.optional w' (Cursor.place?_mono hev.le _ hx)
    exact .tell hw.rulebook hs hreceive hev (.optional ho) htold'
  | not p =>
    refine (ih k hk hw hx hd .whole).bind (fun b h => .not h) ?_
    intro chart' w' o m hs hev ho htold j _
    obtain ⟨m', hreceive, htold'⟩ := htold.not w' (Cursor.place?_mono hev.le _ hx)
    exact .tell hw.rulebook hs hreceive hev (.not ho) htold'
  | rule ref => exact works_rule (ih k hk) hw hx hd ref
  | tally counter p =>
    have hcount : Evolves R B chart w chart (w.count counter) :=
      .of_cells hw.charted ⟨rfl, rfl, rfl⟩ rfl
    refine WorksFrom.next (hrefl.remains hw.rulebook) hrefl (fun _ h => h) fun j hj => ?_
    exact (ih j (hj.trans hk) (hw.evolve hcount) hx hd .whole).imp hcount fun o h => .tally h
  | silent =>
    refine Safe.step (hrefl.remains hw.rulebook) fun j _ => ?_
    exact ⟨hrefl.remains hw.rulebook, .silence, .silent, rfl, .refl w⟩

/-! ## The rest of a pattern -/

/-- A token that passes the test is taken once the cursor behind it is known. -/
theorem works_token (hread : ReadsSoundly R n) (hw : Poised R B d chart w)
    (hx : start.place? chart = some x) (hd : x.depth < d) (expected : Expected V)
    (test : V → Bool) :
    Works R B chart w (Derives (lazyTape R) R (.token expected test) x) start ok fail n
      (if start.token?.any test = true then consume ⟨start, ok, fail⟩
        else reject ⟨start, ok, fail⟩ expected, w) := by
  have hrefl : Evolves R B chart w chart w := .of_cells hw.charted (.refl w) rfl
  have htoken : (lazyTape R).token? x = start.token? := Cursor.token?_of_place? hx
  by_cases htest : start.token?.any test = true
  · rw [if_pos htest]
    cases start with
    | token p v rest =>
      obtain ⟨σ, hσ, rfl⟩ := Option.map_eq_some_iff.mp hx
      have hask := @hread B d chart w rest σ (.consumed (.token p v rest) v ok) hw hσ
        (by simpa [Place.depth] using hd)
      refine Safe.bind hask (fun _ hs => hs) ?_ ?_
      · rintro k hk m s hs ⟨chart', y, c, hev, hy, hc, rfl⟩
        have hderives : Derives (lazyTape R) R (.token expected test) (.token p v σ)
            (.matched y v) := .token (r := .ok y) htoken htest hy
        exact WorksFrom.tell hw.rulebook hs rfl hev hderives (.matched hc)
      · rintro f s ⟨b, hb, hf, hquiet⟩
        exact ⟨b, .token (r := .error b) htoken htest hb, hf, hquiet⟩
    | finish | stalled => cases htest
  · rw [if_neg htest]
    have hrefused : ((lazyTape R).token? x).any test = false := by
      rw [htoken]
      exact Bool.eq_false_iff.mpr htest
    exact Safe.here (hrefl.remains hw.rulebook)
      ⟨chart, _, hrefl, .tokenRefused hrefused, .refused rfl (Failure.tells_of hx _)⟩ n

/-- Once whole patterns and streams are sound, so is the work on what is left of a pattern. -/
theorem worksSoundly_of_whole (ih : ∀ k, k < n → WorksSoundly R k) (hread : ReadsSoundly R n) :
    WorksSoundly R n := by
  intro B d chart w task start here x ok fail effects hw hx hd hbegins
  have hrefl : Evolves R B chart w chart w := .of_cells hw.charted (.refl w) rfl
  cases hbegins with
  | whole => exact works_whole ih hw hx hd _
  | token => exact works_token hread hw hx hd _ _
  | @items rest values =>
    cases rest with
    | nil =>
      exact Safe.here (hrefl.remains hw.rulebook) ⟨chart, _, hrefl, .itemsDone, .matched hx⟩ n
    | cons p ps =>
      refine (works_whole ih hw hx hd p).bind (fun b h => .itemsStop h rfl) ?_
      intro chart' w' o m hs hev ho htold k hk
      rcases htold.items w' with ⟨y, v, stop, rfl, hy, hreceive⟩ | ⟨m', hm, hreceive, htold'⟩
      · -- the item matched: the next one is asked where it stopped
        have hd' : y.depth < d := (ho.depth_le le_rfl).trans_lt hd
        refine WorksFrom.next hs hev (fun o h => .itemsNext ho h) fun j hj => ?_
        rw [hreceive]
        exact ih j (hj.trans_le hk) (hw.evolve hev) hy hd' .items
      · -- the item was refused, and so is the sequence
        exact .tell hw.rulebook hs hreceive hev (.itemsStop ho hm) htold'
  | @alternatives rest failed failed' hfailed =>
    cases rest with
    | nil =>
      cases hfailed with
      | none =>
        exact Safe.here (hrefl.remains hw.rulebook) ⟨chart, _, hrefl, .alternativesDone,
          .refused rfl (Failure.tells_unexpected hx)⟩ n
      | some hr =>
        exact Safe.here (hrefl.remains hw.rulebook)
          ⟨chart, _, hrefl, .alternativesDone, .refused rfl (hr.startingAt _)⟩ n
    | cons p ps =>
      refine (works_whole ih hw hx hd p).bind (fun b h => .alternativesStop h rfl) ?_
      intro chart' w' o m hs hev ho htold k hk
      rcases htold.alternatives (R := R) w' (rel_tells_mono hev.le hfailed) with
        ⟨r, f, rfl, hf, hreceive⟩ | ⟨hm, htold'⟩
      · -- the alternative was refused: the next one is asked at the same place
        refine WorksFrom.next hs hev (fun o h => .alternativesNext ho h) fun j hj => ?_
        rw [hreceive]
        exact ih j (hj.trans_le hk) (hw.evolve hev) (Cursor.place?_mono hev.le _ hx) hd
          (.alternatives (.some hf))
      · -- the alternative matched, and so does the choice
        exact Safe.here hs ⟨chart', _, hev, .alternativesStop ho hm, htold'⟩ k
  | again =>
    refine (works_whole ih hw hx hd _).bind (fun b h => .againStop h rfl) ?_
    intro chart' w' o m hs hev ho htold k hk
    rcases htold.again w' (Cursor.place?_mono hev.le _ hx) with
      ⟨y, v, stop, rfl, hlt, hy, hreceive⟩ | ⟨m', hc, hreceive, htold'⟩
    · -- the body consumed a token: it is asked again where it stopped
      have hd' : y.depth < d := (ho.depth_le le_rfl).trans_lt hd
      refine WorksFrom.next hs hev (fun o h => .againNext ho hlt h) fun j hj => ?_
      rw [hreceive]
      exact ih j (hj.trans_le hk) (hw.evolve hev) hy hd' .again
    · -- the body consumed nothing: the repetition ends
      exact .tell hw.rulebook hs hreceive hev (.againStop ho hc) htold'

/-! ## Streams -/

/-- For `n` deliveries the thread at `m` goes on, or the customer is given what `σ` reads. -/
abbrev FeedsFrom (R : Rulebook V) (B : Nat → Prop) (chart : Chart V) (w : World V) (σ : Source V)
    (customer : OnCursor V) : Nat → Delivery V → World V → Prop :=
  Safe receive (Remains R chart) (Delivered R B chart w (Reads R σ) customer)
    (BrokeOff w fun b => Reads R σ (.error b))

/-- For `n` deliveries after `p` the thread goes on, or the customer is given what `σ` reads. -/
abbrev Feeds (R : Rulebook V) (B : Nat → Prop) (chart : Chart V) (w : World V) (σ : Source V)
    (customer : OnCursor V) (n : Nat) : Effects V × World V → Prop :=
  After (FeedsFrom R B chart w σ customer n) fun f w' =>
    Remains R chart w' ∧ BrokeOff w (fun b => Reads R σ (.error b)) f w'

section Computing

variable {id : Nat} {σ β : Source V} {cell : Cell V} {customer : OnCursor V}
  (hid : chart id = some σ) (hB : ¬ B id) (hcell : w.cells[id]? = some cell)
include hid hB hcell

/-- A cell matches its token, and answers. -/
theorem feeds_lexAt (ih : WorksSoundly R n)
    (hw : Poised R (fun i => B i ∨ i = id) σ.depth chart₁ w₁)
    (hev : Evolves R (fun i => B i ∨ i = id) chart (w.setMemo id (.pending [customer])) chart₁ w₁)
    (hx : here.place? chart₁ = some x) (hd : x.depth < σ.depth)
    (hread : ∀ o, Derives (lazyTape R) R (.whole cell.token) x o →
      Reads R σ (readFrom cell.skip cell.token cell.index x o)) :
    Feeds R B chart w σ customer n (cell.lexAt id here, w₁) := by
  have hR : w.rulebook = R := hev.rulebook.symm.trans hw.rulebook
  have hremains : ∀ s, Remains R chart₁ s → Remains R chart s := fun s hs => hs.of_le hev.le
  refine Safe.bind (ih hw hx hd .whole) hremains ?_ ?_
  · rintro k - m s hs ⟨chart', o, hev', ho, htold⟩
    obtain ⟨c, z, chart'', w'', hreceive, hz, hc, hev''⟩ := htold.lexed hid hB hcell
      (hev.trans hev') (Cursor.place?_mono hev'.le _ hx) (hread o ho)
    refine Safe.step (hremains s hs) fun j _ => ?_
    rw [hreceive]
    exact Safe.here (hev''.remains hR) ⟨chart'', z, c, hev'', hz ▸ hread o ho, hc, rfl⟩ j
  · rintro f s ⟨b, hb, hf, hquiet⟩
    exact ⟨b, hread _ hb, hf, World.Quiet.trans ⟨hev.rulebook, hev.answers, hev.walked⟩ hquiet⟩

/-- A cell steps over what precedes its token, then matches the token. -/
theorem feeds_skipAt (ih : ∀ k, k ≤ n → WorksSoundly R k)
    (hw : Poised R (fun i => B i ∨ i = id) σ.depth chart₁ w₁)
    (hev : Evolves R (fun i => B i ∨ i = id) chart (w.setMemo id (.pending [customer])) chart₁ w₁)
    (hx : here.place? chart₁ = some x) (hσ : σ = .derived β cell.skip cell.token cell.index)
    (hread : Reads R β (.ok x)) :
    Feeds R B chart w σ customer n (cell.skipAt id here, w₁) := by
  have hβ : β.depth < σ.depth := by
    rw [hσ, Source.depth]
    exact Nat.lt_succ_self _
  have hd : x.depth < σ.depth := hread.depth_le.trans_lt hβ
  rw [Cell.skipAt]
  cases hskip : cell.skip with
  | none =>
    refine feeds_lexAt hid hB hcell (ih n le_rfl) hw hev hx hd fun o ho => ?_
    rw [hσ, reads_iff, hskip]
    exact .read hread .none ho
  | some skip =>
    have hremains : ∀ s, Remains R chart₁ s → Remains R chart s := fun s hs => hs.of_le hev.le
    refine Safe.bind (ih n le_rfl hw hx hd .whole) hremains ?_ ?_
    · rintro k hk m s hs ⟨chart', o, hev', ho, htold⟩
      have hcell' := (hev.trans hev').busy hcell (.inr rfl)
      obtain ⟨y, c, hy, hc, hreceive⟩ := htold.skipped hcell' (Cursor.place?_mono hev'.le _ hx)
      have hskips : SkipsTo (lazyTape R) R (some skip) x (.ok y) := hy ▸ .some ho
      have hd' : y.depth < σ.depth := hskips.depth_le.trans_lt hd
      refine Safe.step (hremains s hs) fun j hj => ?_
      rw [hreceive]
      show Feeds R B chart w σ customer j (cell.lexAt id c, s)
      refine feeds_lexAt hid hB hcell (ih j (hj.le.trans hk)) (hw.evolve hev') (hev.trans hev')
        hc hd' fun o' ho' => ?_
      rw [hσ, reads_iff, hskip]
      exact .read hread hskips ho'
    · rintro f s ⟨b, hb, hf, hquiet⟩
      refine ⟨b, ?_, hf, World.Quiet.trans ⟨hev.rulebook, hev.answers, hev.walked⟩ hquiet⟩
      have hskips : SkipsTo (lazyTape R) R (some skip) x (.error b) := .some hb
      show Reads R σ (.error b)
      rw [hσ, reads_iff, hskip]
      exact .brokenSkip hread hskips

/-- A cell that nobody has asked yet is made busy, reads the stream below, and answers. -/
theorem feeds_idle (ih : ∀ k, k ≤ n → WorksSoundly R k ∧ ReadsSoundly R k)
    (hw : Poised R B d chart w) (hd : σ.depth < d) (hm : cell.memo = .idle)
    (hβ : cell.base.source? chart = some β)
    (hσ : σ = .derived β cell.skip cell.token cell.index) :
    Feeds R B chart w σ customer n (receive (.ask (.derived id) customer) w) := by
  have hw' : Poised R (fun i => B i ∨ i = id) σ.depth chart
      (w.setMemo id (.pending [customer])) := hw.start hid hd
  have hrefl := Evolves.of_cells hw'.charted (.refl _) rfl
  simp only [receive, answerStream, askCell, hcell, hm]
  cases hbase : cell.base with
  | cursor c =>
    -- the cursor below is known already
    rw [hbase] at hβ
    obtain ⟨x, hx, rfl⟩ := Option.map_eq_some_iff.mp hβ
    exact feeds_skipAt hid hB hcell (fun j hj => (ih j hj).1) hw' hrefl hx hσ
      (reads_iff.mpr .fixed)
  | stream s =>
    -- the stream below is asked, which stands on fewer layers
    rw [hbase] at hβ
    have hβ' : β.depth < σ.depth := by
      rw [hσ, Source.depth]
      exact Nat.lt_succ_self _
    refine Safe.bind ((ih n le_rfl).2 hw' hβ hβ') (fun _ hs => hs) ?_ ?_
    · rintro j hj m w' hs ⟨chart', x, c, hev, hx, hc, rfl⟩
      have hcell' := hev.busy hcell (.inr rfl)
      refine Safe.step hs fun i hi => ?_
      simp only [receive, onCursor, withCell, hcell']
      show Feeds R B chart w σ customer i (cell.skipAt id c, w')
      exact feeds_skipAt hid hB hcell (fun l hl => (ih l (hl.trans (hi.le.trans hj))).1)
        (hw'.evolve hev) hev hc hσ hx
    · rintro f w' ⟨b, hb, hf, hquiet⟩
      refine ⟨b, ?_, hf, ⟨hquiet.rulebook, hquiet.answers, hquiet.walked⟩⟩
      show Reads R σ (.error b)
      rw [hσ, reads_iff]
      exact .brokenBelow hb

end Computing

omit [DecidableEq V] in
theorem place?_charCursor (chart : Chart V) (p : Position) (text : List Char) :
    (charCursor p text).place? chart = some (charPlace p text) := by
  cases text <;> rfl

omit [MatchValue V] [DecidableEq V] in
theorem place?_valueCursor (chart : Chart V) (index : Nat) (items : List V) :
    (valueCursor index items).place? chart = some (valuePlace index items) := by
  cases items <;> rfl

/-- Every stream is read soundly, once the work on patterns and the streams below are sound. -/
theorem readsSoundly (ih : ∀ k, k < n → WorksSoundly R k ∧ ReadsSoundly R k) :
    ReadsSoundly R n := by
  intro B d chart w s σ customer hw hs hd
  have hrefl : Evolves R B chart w chart w := .of_cells hw.charted (.refl w) rfl
  have hremains := hrefl.remains hw.rulebook
  refine Safe.step hremains fun k hk => ?_
  cases s with
  | chars text p =>
    cases hs
    exact Safe.here hremains ⟨chart, _, _, hrefl, reads_iff.mpr .chars, place?_charCursor .., rfl⟩ k
  | values items index =>
    cases hs
    have hread : Reads R (.values items index) (.ok (valuePlace index items)) :=
      reads_iff.mpr .values
    exact Safe.here hremains ⟨chart, _, _, hrefl, hread, place?_valueCursor .., rfl⟩ k
  | fixed c =>
    obtain ⟨x, hx, rfl⟩ := Option.map_eq_some_iff.mp hs
    exact Safe.here hremains ⟨chart, x, c, hrefl, reads_iff.mpr .fixed, hx, rfl⟩ k
  | silent =>
    cases hs
    exact ⟨hremains, .silence, reads_iff.mpr .silent, rfl, .refl w⟩
  | derived id =>
    have hid : chart id = some σ := hs
    have hB := hw.not_busy hid hd
    obtain ⟨cell, hcell, hfits⟩ := hw.charted id σ hid
    have hmemo := hfits.memo
    cases hm : cell.memo with
    | ready c =>
      rw [hm] at hmemo
      obtain ⟨x, hx, hc⟩ := hmemo
      simp only [receive, answerStream, askCell, hcell, hm]
      exact Safe.here hremains ⟨chart, x, c, hrefl, hx, hc, rfl⟩ k
    | pending customers =>
      -- a busy cell is not asked again
      rw [hm] at hmemo
      exact absurd hmemo hB
    | idle =>
      obtain ⟨β, hβ, hσ⟩ := hfits.base
      exact feeds_idle hid hB hcell (fun j hj => ih j (hj.trans_lt hk)) hw hd hm hβ hσ

/-! ## Soundness -/

/-- **The work on a task ends with a verdict that is derived, and a stream is read as its source
is.** -/
theorem sound (R : Rulebook V) (n : Nat) : WorksSoundly R n ∧ ReadsSoundly R n := by
  induction n using Nat.strong_induction_on with
  | _ n ih =>
    have hread := readsSoundly ih
    exact ⟨worksSoundly_of_whole (fun k hk => (ih k hk).1) hread, hread⟩

end Humus.Peg
