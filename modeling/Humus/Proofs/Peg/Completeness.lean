import Humus.Proofs.Peg.Soundness

/-!
# Completeness of matching

Every derivation is followed by the deliveries of a match: when a verdict is derived, the actors
come to it after finitely many deliveries.

## Main definitions

* `Comes R B chart w o start ok fail p`: after `p`, the work on a task comes to the verdict `o`

## Main results

* `Reads.fetchesTo`: a customer of a stream is given the place that its source reads
* `Derives.comes`: the work on a task comes to the verdict that is derived
-/

namespace Humus.Peg

open Dispatch (Effect Script After Reaches)

variable {V : Type} [MatchValue V] [DecidableEq V] {R : Rulebook V} {B : Nat → Prop} {d : Nat}
  {chart chart₁ : Chart V} {w w₁ w₂ : World V} {start start₁ here : Cursor V}
  {ok ok₁ : OnSuccess V} {fail fail₁ : OnFailure V} {m m' : Delivery V} {p : Effects V × World V}
  {x : Place V} {o o₁ : Verdict (Place V) V}

/-- The thread at `m` comes to the verdict `o`. -/
abbrev ComesFrom (R : Rulebook V) (B : Nat → Prop) (chart : Chart V) (w : World V)
    (o : Verdict (Place V) V) (start : Cursor V) (ok : OnSuccess V) (fail : OnFailure V) :
    Delivery V → World V → Prop :=
  Reaches receive (Answered R B chart w (· = o) start ok fail) (BrokeOff w fun b => .broken b = o)

/-- After `p` the work on a task comes to the verdict `o`. -/
abbrev Comes (R : Rulebook V) (B : Nat → Prop) (chart : Chart V) (w : World V)
    (o : Verdict (Place V) V) (start : Cursor V) (ok : OnSuccess V) (fail : OnFailure V) :
    Effects V × World V → Prop :=
  After (ComesFrom R B chart w o start ok fail) (BrokeOff w fun b => .broken b = o)

/-- The work on `task` at `x` comes to the verdict `o`, whoever is to be told. -/
def WorksTo (R : Rulebook V) (task : Task (Place V) V) (x : Place V) (o : Verdict (Place V) V) :
    Prop :=
  ∀ ⦃B d chart w start here ok fail effects⦄, Poised R B d chart w →
    here.place? chart = some x → x.depth < d → Begins chart start ok fail task here effects →
    Comes R B chart w o start ok fail (effects, w)

/-- A stream of the source `σ` comes to `r`, whoever asks it. -/
def FetchesTo (R : Rulebook V) (σ : Source V) (r : Except Break (Place V)) : Prop :=
  ∀ ⦃B d chart w s customer⦄, Poised R B d chart w → s.source? chart = some σ → σ.depth < d →
    Reaches receive (Delivered R B chart w (· = r) customer) (BrokeOff w fun b => .error b = r)
      (.ask s customer) w

/-! ## Composition -/

/-- Work that begins where a computation has led to is work that began where that began. -/
theorem Comes.after (hev : Evolves R B chart w chart₁ w₁)
    (h : Comes R B chart₁ w₁ o start ok fail p) : Comes R B chart w o start ok fail p := by
  have hbroke : ∀ f s, BrokeOff w₁ (fun b => .broken b = o) f s →
      BrokeOff w (fun b => .broken b = o) f s := by
    rintro f s ⟨b, hb, hf, hquiet⟩
    exact ⟨b, hb, hf, hev.toQuiet.trans hquiet⟩
  refine After.imp h (fun m s hreaches => hreaches.bind ?_ hbroke) hbroke
  rintro m s ⟨chart', o', hev', ho, htold⟩
  exact .here ⟨chart', o', hev.trans hev', ho, htold⟩

/-- The work on a part is followed by that of the addressees of its verdict. -/
theorem Comes.bind (h : Comes R B chart w o₁ start₁ ok₁ fail₁ p)
    (hbroken : ∀ b, .broken b = o₁ → .broken b = o)
    (hnext : ∀ chart' w' m, Evolves R B chart w chart' w' → Told chart' start₁ ok₁ fail₁ o₁ m →
      ComesFrom R B chart w o start ok fail m w') :
    Comes R B chart w o start ok fail p := by
  have hbroke : ∀ f s, BrokeOff w (fun b => .broken b = o₁) f s →
      BrokeOff w (fun b => .broken b = o) f s := by
    rintro f s ⟨b, hb, hf, hquiet⟩
    exact ⟨b, hbroken b hb, hf, hquiet⟩
  refine After.imp h (fun m s hreaches => hreaches.bind ?_ hbroke) hbroke
  rintro m s ⟨chart', o', hev, rfl, htold⟩
  exact hnext chart' s m hev htold

/-- An addressee goes on with the work. -/
theorem ComesFrom.next (hev : Evolves R B chart w chart₁ w₁)
    (h : Comes R B chart₁ w₁ o start ok fail (receive m w₁)) :
    ComesFrom R B chart w o start ok fail m w₁ :=
  Reaches.step (Comes.after hev h)

/-- The verdict is told. -/
theorem ComesFrom.told (hev : Evolves R B chart w chart₁ w₁) (htold : Told chart₁ start ok fail o m) :
    ComesFrom R B chart w o start ok fail m w₁ :=
  .here ⟨chart₁, o, hev, rfl, htold⟩

/-- An addressee tells the verdict. -/
theorem ComesFrom.tell (hreceive : receive m w₁ = ([.send m'], w₂))
    (hev : Evolves R B chart w chart₁ w₂) (htold : Told chart₁ start ok fail o m') :
    ComesFrom R B chart w o start ok fail m w₁ :=
  .send hreceive (ComesFrom.told hev htold)

/-! ## Patterns -/

/-- The request to a pattern that passes it on unchanged to its parts. -/
theorem WorksTo.whole {p : Pattern V} {task : Task (Place V) V} (h : WorksTo R task x o)
    (hbegins : ∀ chart start ok fail w, start.place? chart = some x →
      ∃ effects, receive (.request p ⟨start, ok, fail⟩) w = (effects, w) ∧
        Begins chart start ok fail task start effects) :
    WorksTo R (.whole p) x o := by
  intro B d chart w start here ok fail effects hw hx hd hb
  cases hb
  obtain ⟨effects, hreceive, hb⟩ := hbegins chart start ok fail w hx
  refine Reaches.step ?_
  rw [hreceive]
  exact h hw hx hd hb

section Parts

variable {expected : Expected V} {test : V → Bool} {q : Pattern V} {qs : List (Pattern V)}
  {values : List V} {y : Place V} {v : V} {r : Refusal (Place V) V}
  {failed : Option (Refusal (Place V) V)} {needsOne : Bool}

/-- A token is taken once the cursor behind it is known. -/
theorem WorksTo.token {position : Position} {σ : Source V} {next : Except Break (Place V)}
    (htest : test v = true) (h : FetchesTo R σ next) :
    WorksTo R (.token expected test) (.token position v σ) (.taking v next) := by
  intro B d chart w start here ok fail effects hw hx hd hbegins
  cases hbegins
  have htoken : start.token? = some v := (Cursor.token?_of_place? hx).symm
  rw [if_pos (by rw [htoken]; exact htest)]
  cases start with
  | token p v' rest =>
    cases htoken
    obtain ⟨σ', hσ, he⟩ := Option.map_eq_some_iff.mp hx
    cases he
    have hask := @h B d chart w rest (.consumed (.token position v rest) v ok) hw hσ
      (by simpa [Place.depth] using hd)
    refine Reaches.bind hask ?_ ?_
    · rintro m s ⟨chart', y, c, hev, rfl, hc, rfl⟩
      exact ComesFrom.tell rfl hev (.matched hc)
    · rintro f s ⟨b, rfl, hf, hquiet⟩
      exact ⟨b, rfl, hf, hquiet⟩
  | finish | stalled => cases htoken

theorem WorksTo.tokenRefused (htest : x.token?.any test = false) :
    WorksTo R (.token expected test) x (.refused ⟨x, [expected]⟩) := by
  intro B d chart w start here ok fail effects hw hx hd hbegins
  cases hbegins
  have htoken : x.token? = start.token? := Cursor.token?_of_place? hx
  rw [htoken] at htest
  rw [if_neg (Bool.eq_false_iff.mp htest)]
  exact ComesFrom.told (.of_cells hw.charted (.refl w) rfl) (.refused rfl (Failure.tells_of hx _))

theorem WorksTo.finish (htoken : x.token? = none) :
    WorksTo R (.whole .finish) x (.matched x MatchValue.nothing) := by
  intro B d chart w start here ok fail effects hw hx hd hbegins
  cases hbegins
  have ht : start.token? = none := (Cursor.token?_of_place? hx).symm.trans htoken
  have hreceive : receive (.request .finish ⟨start, ok, fail⟩) w =
      (succeed ok (emptySuccess start), w) := by
    simp only [receive, matchPattern, Cursor.isEnd_eq, ht, Option.isNone_none, if_true]
  exact ComesFrom.tell hreceive (.of_cells hw.charted (.refl w) rfl) (.matched hx)

theorem WorksTo.finishRefused (htoken : x.token? = some v) :
    WorksTo R (.whole .finish) x (.refused ⟨x, [.endOfInput]⟩) := by
  intro B d chart w start here ok fail effects hw hx hd hbegins
  cases hbegins
  have ht : start.token? = some v := (Cursor.token?_of_place? hx).symm.trans htoken
  have hreceive : receive (.request .finish ⟨start, ok, fail⟩) w =
      (reject ⟨start, ok, fail⟩ .endOfInput, w) := by
    simp only [receive, matchPattern, Cursor.isEnd_eq, ht, Option.isNone_some]
    rfl
  exact ComesFrom.tell hreceive (.of_cells hw.charted (.refl w) rfl)
    (.refused rfl (Failure.tells_of hx _))

theorem WorksTo.itemsDone :
    WorksTo R (.items [] values) x (.matched x (MatchValue.list values.reverse)) := by
  intro B d chart w start here ok fail effects hw hx hd hbegins
  cases hbegins
  exact ComesFrom.told (.of_cells hw.charted (.refl w) rfl) (.matched hx)

theorem WorksTo.itemsNext (h : WorksTo R (.whole q) x (.matched y v)) (hy : y.depth ≤ x.depth)
    (h' : WorksTo R (.items qs (v :: values)) y o) : WorksTo R (.items (q :: qs) values) x o := by
  intro B d chart w start here ok fail effects hw hx hd hbegins
  cases hbegins
  refine (h hw hx hd .whole).bind (fun b h => by cases h) ?_
  intro chart' w' m hev htold
  rcases htold.items w' with ⟨z, u, stop, he, hz, hreceive⟩ | ⟨_, hm, -, -⟩
  · cases he
    refine ComesFrom.next hev ?_
    rw [hreceive]
    exact h' (hw.evolve hev) hz (hy.trans_lt hd) .items
  · cases hm

theorem WorksTo.itemsStop (h : WorksTo R (.whole q) x o) (hm : o.isMatched = false) :
    WorksTo R (.items (q :: qs) values) x o := by
  intro B d chart w start here ok fail effects hw hx hd hbegins
  cases hbegins
  refine (h hw hx hd .whole).bind (fun b h => h) ?_
  intro chart' w' m hev htold
  rcases htold.items w' with ⟨y, v, stop, rfl, -, -⟩ | ⟨m', -, hreceive, htold'⟩
  · cases hm
  · exact ComesFrom.tell hreceive hev htold'

theorem WorksTo.alternativesDone :
    WorksTo R (.alternatives [] failed) x (.refused (failed.getD ⟨x, []⟩)) := by
  intro B d chart w start here ok fail effects hw hx hd hbegins
  have hrefl : Evolves R B chart w chart w := .of_cells hw.charted (.refl w) rfl
  cases hbegins with
  | alternatives hfailed =>
    cases hfailed with
    | none => exact ComesFrom.told hrefl (.refused rfl (Failure.tells_unexpected hx))
    | some hr => exact ComesFrom.told hrefl (.refused rfl (hr.startingAt _))

theorem WorksTo.alternativesNext {N : Source V → Except Break (Place V) → Prop}
    (h : WorksTo R (.whole q) x (.refused r))
    (h' : WorksTo R (.alternatives qs (some ((Tape.over N).mergeInto failed r))) x o) :
    WorksTo R (.alternatives (q :: qs) failed) x o := by
  intro B d chart w start here ok fail effects hw hx hd hbegins
  cases hbegins with
  | alternatives hfailed =>
    refine (h hw hx hd .whole).bind (fun b h => by cases h) ?_
    intro chart' w' m hev htold
    rcases htold.alternatives (R := R) w' (rel_tells_mono hev.le hfailed) with
      ⟨r, f, he, hf, hreceive⟩ | ⟨hm, -⟩
    · cases he
      refine ComesFrom.next hev ?_
      rw [hreceive]
      exact h' (hw.evolve hev) (Cursor.place?_mono hev.le _ hx) hd (.alternatives (.some hf))
    · cases hm

theorem WorksTo.alternativesStop (h : WorksTo R (.whole q) x o) (hm : o.isRefused = false) :
    WorksTo R (.alternatives (q :: qs) failed) x o := by
  intro B d chart w start here ok fail effects hw hx hd hbegins
  cases hbegins with
  | alternatives hfailed =>
    refine (h hw hx hd .whole).bind (fun b h => h) ?_
    intro chart' w' m hev htold
    rcases htold.alternatives (R := R) w' (rel_tells_mono hev.le hfailed) with
      ⟨r, f, rfl, -, -⟩ | ⟨-, htold'⟩
    · cases hm
    · exact ComesFrom.told hev htold'

theorem WorksTo.againNext (h : WorksTo R (.whole q) x (.matched y v)) (hlt : x.offset < y.offset)
    (hy : y.depth ≤ x.depth) (h' : WorksTo R (.again q needsOne (v :: values)) y o) :
    WorksTo R (.again q needsOne values) x o := by
  intro B d chart w start here ok fail effects hw hx hd hbegins
  cases hbegins
  refine (h hw hx hd .whole).bind (fun b h => by cases h) ?_
  intro chart' w' m hev htold
  rcases htold.again (R := R) w' (Cursor.place?_mono hev.le _ hx) with
    ⟨z, u, stop, he, -, hz, hreceive⟩ | ⟨_, hc, -, -⟩
  · cases he
    refine ComesFrom.next hev ?_
    rw [hreceive]
    exact h' (hw.evolve hev) hz (hy.trans_lt hd) .again
  · exact absurd hlt (of_decide_eq_false hc)

theorem WorksTo.againStop {N : Source V → Except Break (Place V) → Prop}
    (h : WorksTo R (.whole q) x o) (hc : (Tape.over N).consumes x o = false) :
    WorksTo R (.again q needsOne values) x (o.ending x needsOne values) := by
  intro B d chart w start here ok fail effects hw hx hd hbegins
  cases hbegins
  refine (h hw hx hd .whole).bind (fun b h => by rw [← h]; rfl) ?_
  intro chart' w' m hev htold
  rcases htold.again (R := R) w' (Cursor.place?_mono hev.le _ hx) with
    ⟨y, v, stop, rfl, hlt, -, -⟩ | ⟨m', -, hreceive, htold'⟩
  · exact absurd hlt (of_decide_eq_false hc)
  · exact ComesFrom.tell hreceive hev htold'

theorem WorksTo.optional (h : WorksTo R (.whole q) x o) :
    WorksTo R (.whole (.optional q)) x (o.optional x) := by
  intro B d chart w start here ok fail effects hw hx hd hbegins
  cases hbegins
  refine Reaches.step ((h hw hx hd .whole).bind (fun b h => by rw [← h]; rfl) ?_)
  intro chart' w' m hev htold
  obtain ⟨m', hreceive, htold'⟩ := htold.optional w' (Cursor.place?_mono hev.le _ hx)
  exact ComesFrom.tell hreceive hev htold'

theorem WorksTo.not (h : WorksTo R (.whole q) x o) :
    WorksTo R (.whole (.not q)) x (o.not x) := by
  intro B d chart w start here ok fail effects hw hx hd hbegins
  cases hbegins
  refine Reaches.step ((h hw hx hd .whole).bind (fun b h => by rw [← h]; rfl) ?_)
  intro chart' w' m hev htold
  obtain ⟨m', hreceive, htold'⟩ := htold.not w' (Cursor.place?_mono hev.le _ hx)
  exact ComesFrom.tell hreceive hev htold'

/-- A rule that has no body raises a fault. -/
theorem WorksTo.ruleUnknown {ref : RuleRef} {fault : Fault} (hR : R ref = .error fault) :
    WorksTo R (.whole (.rule ref)) x (.broken (.fault fault)) := by
  intro B d chart w start here ok fail effects hw hx hd hbegins
  cases hbegins
  refine Reaches.step ?_
  simp only [receive, matchPattern, matchRule_eq, hw.rulebook, hR]
  exact ⟨.fault fault, rfl, rfl, ⟨by simp, by simp, by simp⟩⟩

theorem WorksTo.rule {N : Source V → Except Break (Place V) → Prop} {ref : RuleRef}
    {body : Pattern V} {transform : Option (Transform V)} (hR : R ref = .ok (body, transform))
    (h : WorksTo R (.whole body) x o) :
    WorksTo R (.whole (.rule ref)) x ((Tape.over N).reduce ref.name transform x o) := by
  intro B d chart w start here ok fail effects hw hx hd hbegins
  cases hbegins
  have hseal : Evolves R B chart w chart (w.sealGrammar ref.grammar) :=
    .of_cells hw.charted ⟨by simp, by simp, by simp⟩ (by simp)
  refine Reaches.step ?_
  simp only [receive, matchPattern, matchRule_eq, hw.rulebook, hR]
  have hbegins : Begins chart start (ruleOk ref transform ok) (.relabel ref.name fail)
      (.whole body) start _ := .whole
  have hbody := (h (hw.evolve hseal) hx hd hbegins).after hseal
  refine Comes.bind hbody (fun b h => by rw [← h]; rfl) ?_
  intro chart' w' m hev htold
  rcases htold.rule (R := R) w' (Cursor.place?_mono hev.le _ hx) with
    htold' | ⟨w'', hquiet, hcells, ⟨m', hreceive, htold'⟩ | ⟨fault, hreceive, hbroken⟩⟩
  · -- the verdict of the body is that of the rule
    exact ComesFrom.told hev htold'
  · -- the transform accepts the value
    exact ComesFrom.tell hreceive (hev.trans (.of_cells hev.charted hquiet hcells)) htold'
  · -- the transform refuses the value
    refine Reaches.step ?_
    rw [hreceive]
    exact ⟨.fault fault, hbroken.symm, rfl, hev.toQuiet.trans hquiet⟩

theorem WorksTo.tally {counter : String} (h : WorksTo R (.whole q) x o) :
    WorksTo R (.whole (.tally counter q)) x o := by
  intro B d chart w start here ok fail effects hw hx hd hbegins
  cases hbegins
  have hcount : Evolves R B chart w chart (w.count counter) :=
    .of_cells hw.charted ⟨rfl, rfl, rfl⟩ rfl
  refine Reaches.step (Reaches.step ?_)
  exact (h (hw.evolve hcount) hx hd .whole).after hcount

theorem WorksTo.silent : WorksTo R (.whole .silent) x (.broken .silence) := by
  intro B d chart w start here ok fail effects hw hx hd hbegins
  cases hbegins
  exact Reaches.step (Reaches.step ⟨.silence, rfl, rfl, .refl w⟩)

end Parts

/-- The work on a task comes to the verdict that is derived, if every stream below comes to the
place that its source reads. -/
theorem Derives.worksTo
    {N : Source V → Except Break (Place V) → Prop} (hN : ∀ σ r, N σ r → Reads R σ r)
    (hfetches : ∀ σ r, N σ r → FetchesTo R σ r) {task : Task (Place V) V}
    (h : Derives (Tape.over N) R task x o) : WorksTo R task x o := by
  have hdepth : ∀ {p : Pattern V} {x y : Place V} {v}, Derives (Tape.over N) R (.whole p) x
      (.matched y v) → y.depth ≤ x.depth := fun h => (h.over_mono hN).depth_le le_rfl
  induction h with
  -- These patterns pass the request on to their parts in the same delivery.
  | terminal _ ih =>
    refine ih.whole fun chart start ok fail w _ => ⟨_, ?_, .token⟩
    simp only [receive, matchPattern, ← any_eq_iff]
  | predicate _ ih => exact ih.whole fun _ _ _ _ _ _ => ⟨_, rfl, .token⟩
  | any _ ih =>
    refine ih.whole fun chart start ok fail w _ => ⟨_, ?_, .token⟩
    cases start <;> rfl
  | sequence _ ih => exact ih.whole fun _ _ _ _ _ _ => ⟨_, rfl, .items⟩
  | choice _ ih => exact ih.whole fun _ _ _ _ _ _ => ⟨_, rfl, .alternatives .none⟩
  | zeroOrMore _ ih => exact ih.whole fun _ _ _ _ _ _ => ⟨_, rfl, .again⟩
  | oneOrMore _ ih => exact ih.whole fun _ _ _ _ _ _ => ⟨_, rfl, .again⟩
  | @token _ _ x _ _ htoken htest hr =>
    cases x with
    | token position v σ =>
      cases htoken
      exact .token htest (hfetches _ _ hr)
    | finish | stalled => cases htoken
  | tokenRefused htest => exact .tokenRefused htest
  | finish htoken => exact .finish htoken
  | finishRefused htoken => exact .finishRefused htoken
  | itemsDone => exact .itemsDone
  | itemsNext h₁ _ ih ih' => exact .itemsNext ih (hdepth h₁) ih'
  | itemsStop _ hm ih => exact .itemsStop ih hm
  | alternativesDone => exact .alternativesDone
  | alternativesNext _ _ ih ih' => exact .alternativesNext ih ih'
  | alternativesStop _ hm ih => exact .alternativesStop ih hm
  | againNext h₁ hlt _ ih ih' => exact .againNext ih hlt (hdepth h₁) ih'
  | againStop _ hc ih => exact .againStop ih hc
  | optional _ ih => exact ih.optional
  | not _ ih => exact ih.not
  | ruleUnknown hR => exact .ruleUnknown hR
  | rule hR _ ih => exact .rule hR ih
  | tally _ ih => exact ih.tally
  | silent => exact .silent

/-! ## Streams -/

/-- After `p` the customer is given what was read. -/
abbrev Fetches (R : Rulebook V) (B : Nat → Prop) (chart : Chart V) (w : World V)
    (r : Except Break (Place V)) (customer : OnCursor V) : Effects V × World V → Prop :=
  After (Reaches receive (Delivered R B chart w (· = r) customer) (BrokeOff w fun b => .error b = r))
    (BrokeOff w fun b => .error b = r)

section Computing

variable {id : Nat} {σ β : Source V} {cell : Cell V} {customer : OnCursor V}
  {N : Source V → Except Break (Place V) → Prop} {r r' : Except Break (Place V)}
  (hid : chart id = some σ) (hB : ¬ B id) (hcell : w.cells[id]? = some cell)
  (hw : Poised R (fun i => B i ∨ i = id) σ.depth chart₁ w₁)
  (hev : Evolves R (fun i => B i ∨ i = id) chart (w.setMemo id (.pending [customer])) chart₁ w₁)
  (hx : here.place? chart₁ = some x) (hd : x.depth < σ.depth)
include hid hB hcell hw hev hx hd

/-- A cell matches its token, and answers. -/
theorem fetches_lexAt (hlex : WorksTo R (.whole cell.token) x o)
    (hread : Reads R σ (readFrom cell.skip cell.token cell.index x o)) :
    Fetches R B chart w (readFrom cell.skip cell.token cell.index x o) customer
      (cell.lexAt id here, w₁) := by
  refine Reaches.bind (hlex hw hx hd .whole) ?_ ?_
  · rintro m s ⟨chart', o', hev', rfl, htold⟩
    obtain ⟨c, z, chart'', w'', hreceive, hz, hc, hev''⟩ := htold.lexed hid hB hcell
      (hev.trans hev') (Cursor.place?_mono hev'.le _ hx) hread
    exact .send hreceive (.here ⟨chart'', z, c, hev'', hz.symm, hc, rfl⟩)
  · rintro f s ⟨b, rfl, hf, hquiet⟩
    exact ⟨b, rfl, hf, World.Quiet.trans ⟨hev.rulebook, hev.answers, hev.walked⟩ hquiet⟩

/-- A cell steps over what precedes its token, then matches the token. -/
theorem fetches_skipAt (hN : ∀ σ r, N σ r → Reads R σ r) (hfetches : ∀ σ r, N σ r → FetchesTo R σ r)
    (hskips : SkipsTo (Tape.over N) R cell.skip x r')
    (hbroken : ∀ b, r' = .error b → r = .error b)
    (hlex : ∀ y, r' = .ok y → ∃ o, Derives (Tape.over N) R (.whole cell.token) y o ∧
      r = readFrom cell.skip cell.token cell.index y o)
    (hread : Reads R σ r) :
    Fetches R B chart w r customer (cell.skipAt id here, w₁) := by
  rw [Cell.skipAt]
  generalize hskip : cell.skip = skip at hskips
  cases hskips with
  | none =>
    -- nothing is skipped
    obtain ⟨o, ho, rfl⟩ := hlex x rfl
    exact fetches_lexAt hid hB hcell hw hev hx hd (ho.worksTo hN hfetches) hread
  | @some p _ o' hskips =>
    refine Reaches.bind (hskips.worksTo hN hfetches hw hx hd .whole) ?_ ?_
    · rintro m s ⟨chart', o', hev', rfl, htold⟩
      have hcell' := (hev.trans hev').busy hcell (.inr rfl)
      obtain ⟨y, c, hy, hc, hreceive⟩ := htold.skipped hcell' (Cursor.place?_mono hev'.le _ hx)
      obtain ⟨o, ho, rfl⟩ := hlex y hy
      have hskips' : SkipsTo (lazyTape R) R (some p) x (.ok y) := hy ▸ .some (hskips.over_mono hN)
      have hd' : y.depth < σ.depth := hskips'.depth_le.trans_lt hd
      refine Reaches.step ?_
      rw [hreceive]
      show Fetches R B chart w _ customer (cell.lexAt id c, s)
      exact fetches_lexAt hid hB hcell (hw.evolve hev') (hev.trans hev') hc hd'
        (ho.worksTo hN hfetches) hread
    · rintro f s ⟨b, rfl, hf, hquiet⟩
      exact ⟨b, (hbroken b rfl).symm, hf,
        World.Quiet.trans ⟨hev.rulebook, hev.answers, hev.walked⟩ hquiet⟩

end Computing

/-- An idle cell comes to what its source reads, if the streams below do: it notes the customer and
fetches from its base. -/
theorem fetches_idle {N : Source V → Except Break (Place V) → Prop}
    (hN : ∀ σ r, N σ r → Reads R σ r) (hfetches : ∀ σ r, N σ r → FetchesTo R σ r)
    {below : Source V} {cell : Cell V} {id : Nat} {r : Except Break (Place V)}
    (hr : Step R N (.derived below cell.skip cell.token cell.index) r)
    (hid : chart id = some (.derived below cell.skip cell.token cell.index))
    (hcell : w.cells[id]? = some cell) (hm : cell.memo = .idle)
    (hβ : cell.base.source? chart = some below) (hw : Poised R B d chart w)
    (hd : (Source.derived below cell.skip cell.token cell.index).depth < d) :
    Fetches R B chart w r customer (receive (.ask (.derived id) customer) w) := by
  set w₁ : World V := w.setMemo id (.pending [customer])
  have hread : Reads R (.derived below cell.skip cell.token cell.index) r :=
    reads_iff.mpr (hr.mono hN)
  have hbelow : below.depth < (Source.derived below cell.skip cell.token cell.index).depth := by
    rw [Source.depth]
    exact Nat.lt_succ_self _
  have hB : ¬ B id := hw.not_busy hid hd
  have hw₁ : Poised R (fun i => B i ∨ i = id) _ chart w₁ := hw.start hid hd
  have hrefl : Evolves R (fun i => B i ∨ i = id) chart w₁ chart w₁ :=
    .of_cells hw₁.charted (.refl w₁) rfl
  -- Whatever cursor of the stream below the cell goes on from, it comes to what is read.
  have hskipAt : ∀ chart' w' c x, Evolves R (fun i => B i ∨ i = id) chart w₁ chart' w' →
      c.place? chart' = some x → Reads R below (.ok x) →
      Fetches R B chart w r customer (cell.skipAt id c, w') := by
    intro chart' w' c x hev hc hx
    have hd' := hx.depth_le.trans_lt hbelow
    cases hr with
    | brokenBelow hb => cases hx.unique (hN _ _ hb)
    | brokenSkip hx' hskips =>
      cases hx.unique (hN _ _ hx')
      refine fetches_skipAt hid hB hcell (hw₁.evolve hev) hev hc hd' hN hfetches hskips
        (fun b h => h ▸ rfl) (fun y h => by cases h) hread
    | read hx' hskips ho =>
      cases hx.unique (hN _ _ hx')
      refine fetches_skipAt hid hB hcell (hw₁.evolve hev) hev hc hd' hN hfetches hskips
        (fun b h => by cases h) (fun y h => ?_) hread
      cases h
      exact ⟨_, ho, rfl⟩
  simp only [receive, answerStream, askCell, hcell, hm]
  cases hbase : cell.base with
  | cursor c =>
    -- The cell stands on a cursor: there is no stream below to ask.
    rw [hbase] at hβ
    obtain ⟨x, hx, rfl⟩ := Option.map_eq_some_iff.mp hβ
    exact hskipAt chart w₁ c x hrefl hx (reads_iff.mpr .fixed)
  | stream s =>
    rw [hbase] at hβ
    -- Of the stream below, something is read in each case.
    obtain ⟨r₀, hr₀, hbroken⟩ : ∃ r₀, N below r₀ ∧ ∀ b, r₀ = .error b → r = .error b := by
      cases hr with
      | brokenBelow hb => exact ⟨_, hb, fun b h => by cases h; rfl⟩
      | brokenSkip hx _ | read hx _ _ => exact ⟨_, hx, fun b h => by cases h⟩
    refine Reaches.bind (hfetches below r₀ hr₀ hw₁ hβ hbelow) ?_ ?_
    · -- The stream below answers, and the cell goes on from the cursor it gives.
      rintro m w' ⟨chart', x, c, hev, rfl, hc, rfl⟩
      have hcell' := hev.busy hcell (.inr rfl)
      refine Reaches.step ?_
      simp only [receive, onCursor, withCell, hcell']
      exact hskipAt chart' w' c x hev hc (hN _ _ hr₀)
    · -- The stream below breaks, and the break is read of this one too.
      rintro f w' ⟨b, rfl, hf, hquiet⟩
      exact ⟨b, (hbroken b rfl).symm, hf, ⟨hquiet.rulebook, hquiet.answers, hquiet.walked⟩⟩

/-- A stream of a derived source comes to what is read, if the streams below do. -/
theorem fetchesTo_derived {N : Source V → Except Break (Place V) → Prop}
    (hN : ∀ σ r, N σ r → Reads R σ r) (hfetches : ∀ σ r, N σ r → FetchesTo R σ r)
    {below : Source V} {skip : Option (Pattern V)} {token : Pattern V} {index : Nat}
    {r : Except Break (Place V)} (hr : Step R N (.derived below skip token index) r) :
    FetchesTo R (.derived below skip token index) r := by
  intro B d chart w s customer hw hs hd
  have hread : Reads R (.derived below skip token index) r := reads_iff.mpr (hr.mono hN)
  cases s with
  | chars | values | silent => cases hs
  | fixed c =>
    obtain ⟨_, -, h⟩ := Option.map_eq_some_iff.mp hs
    cases h
  | derived id =>
    have hid : chart id = some (.derived below skip token index) := hs
    obtain ⟨cell, hcell, hfits⟩ := hw.charted id _ hid
    obtain ⟨β, hβ, hσ⟩ := hfits.base
    cases hσ
    have hmemo := hfits.memo
    refine Reaches.step ?_
    cases hm : cell.memo with
    | ready c =>
      -- The cell was read before, and its memo names the place.
      rw [hm] at hmemo
      obtain ⟨x, hx, hc⟩ := hmemo
      simp only [receive, answerStream, askCell, hcell, hm]
      exact .here ⟨chart, x, c, .of_cells hw.charted (.refl w) rfl, hread.unique hx, hc, rfl⟩
    | pending customers =>
      -- No cell as deep as this is being read.
      rw [hm] at hmemo
      exact absurd hmemo (hw.not_busy hid hd)
    | idle => exact fetches_idle hN hfetches hr hid hcell hm hβ hw hd

/-- **A customer of a stream is given the place that its source reads.** -/
theorem Reads.fetchesTo {σ : Source V} {r : Except Break (Place V)} (h : Reads R σ r) :
    FetchesTo R σ r := by
  refine Reads.induct (fun σ r hr => ?_) h
  have hN : ∀ σ r, (Reads R σ r ∧ FetchesTo R σ r) → Reads R σ r := fun _ _ h => h.1
  have hfetches : ∀ σ r, (Reads R σ r ∧ FetchesTo R σ r) → FetchesTo R σ r := fun _ _ h => h.2
  have hread : Reads R σ r := reads_iff.mpr (hr.mono hN)
  intro B d chart w s customer hw hs hd
  have hrefl : Evolves R B chart w chart w := .of_cells hw.charted (.refl w) rfl
  -- A stream that is not derived answers at once.
  have hdeliver : ∀ c x, c.place? chart = some x → Reads R σ (.ok x) →
      receive (.ask s customer) w = ([.send (.cursor customer c)], w) →
      Reaches receive (Delivered R B chart w (· = r) customer) (BrokeOff w fun b => .error b = r)
        (.ask s customer) w := by
    intro c x hc hx hreceive
    exact .send hreceive (.here ⟨chart, x, c, hrefl, hread.unique hx, hc, rfl⟩)
  cases s with
  | chars text p =>
    cases hs
    exact hdeliver _ _ (place?_charCursor ..) (reads_iff.mpr .chars) rfl
  | values items index =>
    cases hs
    exact hdeliver _ _ (place?_valueCursor ..) (reads_iff.mpr .values) rfl
  | fixed c =>
    obtain ⟨x, hx, rfl⟩ := Option.map_eq_some_iff.mp hs
    exact hdeliver c x hx (reads_iff.mpr .fixed) rfl
  | silent =>
    cases hs
    have hsilent : Reads R .silent (.error .silence) := reads_iff.mpr .silent
    exact .stop ⟨.silence, hread.unique hsilent, rfl, .refl w⟩
  | derived id =>
    obtain ⟨cell, -, hfits⟩ := hw.charted id σ hs
    obtain ⟨β, -, rfl⟩ := hfits.base
    exact fetchesTo_derived hN hfetches hr hw hs hd

/-- **The work on a task comes to the verdict that is derived.** -/
theorem Derives.comes {task : Task (Place V) V} (h : Derives (lazyTape R) R task x o) :
    WorksTo R task x o :=
  h.worksTo (fun _ _ h => h) fun _ _ => Reads.fetchesTo

end Humus.Peg
