import Humus.Proofs.Peg.Collecting

/-!
# Building streams

Streams are built from texts, lists and cursors, and on other streams by patterns. Whatever was
built, and whatever was read of it by runs that came to their end, can be written out as a source,
and none of its cells is left busy.

## Main definitions

* `Built ok w₀ s w`: the stream `s` was built by patterns of `ok` in a world that began as `w₀`
* `Source.Uses ok σ`: the layers of a source are read by patterns of `ok`
* `Standing ok w₀ w chart s σ`: the stream can be written out, and none of its cells is busy
* `wordWorld`, `wordStream`: a small grammar of words, and a stream of the words of a text

## Main results

* `Built.exists_standing`: a stream that was built can be written out
* `Derives.answers`, `Reads.answers`: without actors from outside, everything is answered
-/

namespace Humus.Peg

variable {V : Type}

/-! ## The patterns of a tower -/

mutual

/-- The layers below the place are read by patterns of `ok`. -/
def Place.Uses (ok : Pattern V → Prop) : Place V → Prop
  | .token _ _ rest => Source.Uses ok rest
  | .finish _ | .stalled .. => True

/-- The layers of the source are read by patterns of `ok`. -/
def Source.Uses (ok : Pattern V → Prop) : Source V → Prop
  | .chars .. | .values .. => True
  | .fixed x => Place.Uses ok x
  | .derived below skip token _ => Source.Uses ok below ∧ (∀ k, skip = some k → ok k) ∧ ok token
  | .silent => False

end

/-- Whether the cursor of a cell is being computed. -/
def Memo.isPending : Memo V → Bool
  | .pending _ => true
  | _ => false

/-- No cell that was added to `w₀` is being computed. -/
def Settled (w₀ w : World V) : Prop :=
  ∀ id cell, w₀.cells.size ≤ id → w.cells[id]? = some cell → cell.memo.isPending = false

variable [MatchValue V] [DecidableEq V] {ok : Pattern V → Prop} {R : Rulebook V}
  {w₀ w w' : World V} {chart chart' : Chart V} {s : Stream V} {σ : Source V} {x : Place V}

omit [DecidableEq V] in
theorem uses_charPlace (p : Position) (text : List Char) : (charPlace p text).Uses ok := by
  cases text <;> trivial

omit [MatchValue V] [DecidableEq V] in
theorem uses_valuePlace (index : Nat) (items : List V) : (valuePlace index items).Uses ok := by
  cases items <;> trivial

omit [MatchValue V] [DecidableEq V] in
theorem uses_endAt (x : Place V) (index : Nat) (r : Refusal (Place V) V) :
    (x.endAt index r).Uses ok := by
  cases x <;> trivial

/-- What is read stands on layers that are read by patterns of `ok`. -/
theorem Reads.uses (h : Reads R σ (.ok x)) (hσ : σ.Uses ok) : x.Uses ok := by
  refine Reads.induct (P := fun σ r => ∀ x, r = .ok x → σ.Uses ok → x.Uses ok) ?_ h x rfl hσ
  intro σ r hr
  -- what is read behind a token uses nothing else either
  have hnext : ∀ x y, Place.Uses ok x →
      (Tape.over fun σ r => Reads R σ r ∧ ∀ x, r = .ok x → σ.Uses ok → x.Uses ok).next x (.ok y) →
      Place.Uses ok y := by
    intro x y hx h
    cases x with
    | token p v rest => exact h.2 y rfl hx
    | finish | stalled => exact h.elim
  cases hr with
  | chars => rintro x ⟨⟩ -; exact uses_charPlace ..
  | values => rintro x ⟨⟩ -; exact uses_valuePlace ..
  | fixed => rintro x ⟨⟩ hσ; exact hσ
  | silent | brokenBelow | brokenSkip => rintro x ⟨⟩
  | @read below skip token index x y o hx hs ho =>
    intro z hz hσ
    have hx : x.Uses ok := hx.2 x rfl hσ.1
    have hy : y.Uses ok := hs.all hnext hx
    have ho := ho.all hnext trivial hy
    cases o with
    | matched y' v =>
      cases hz
      split_ifs
      · exact ⟨ho, hσ.2⟩
      · trivial
    | refused r => cases hz; exact uses_endAt ..
    | broken b => cases hz

theorem uses_of_next {y : Place V} (hx : x.Uses ok) (h : (lazyTape R).next x (.ok y)) :
    y.Uses ok := by
  cases x with
  | token p v rest => exact Reads.uses h hx
  | finish | stalled => exact h.elim

theorem Walks.uses {xs : List (Place V)} (h : Walks R σ xs) (hσ : σ.Uses ok) :
    ∀ x ∈ xs, x.Uses ok := by
  induction h with
  | stop hx _ =>
    intro x hmem
    cases List.mem_singleton.mp hmem
    exact hx.uses hσ
  | next hx _ ih =>
    have hrest := hx.uses hσ
    intro x hmem
    rcases List.mem_cons.mp hmem with rfl | hmem
    · exact hrest
    · exact ih hrest x hmem

/-! ## Everything is answered -/

/-- No rule involves an actor from outside. -/
def Rulebook.Native (R : Rulebook V) : Prop :=
  ∀ ref body transform, R ref = .ok (body, transform) → body.isForeign = false

section Silence

variable {C : Type} {x : C} {o : Verdict C V}

omit [DecidableEq V] in
theorem Verdict.eq_broken_of_ending {needsOne : Bool} {values : List V} {b : Break}
    (h : o.ending x needsOne values = .broken b) : o = .broken b := by
  cases o with
  | matched y v => cases h
  | refused r =>
    rw [Verdict.ending] at h
    split_ifs at h
  | broken b' => exact h

omit [DecidableEq V] in
theorem Verdict.eq_broken_of_optional {b : Break} (h : o.optional x = .broken b) :
    o = .broken b := by
  cases o with
  | matched | refused => cases h
  | broken b' => exact h

omit [DecidableEq V] in
theorem Verdict.eq_broken_of_not {b : Break} (h : o.not x = .broken b) : o = .broken b := by
  cases o with
  | matched | refused => cases h
  | broken b' => exact h

omit [MatchValue V] [DecidableEq V] in
/-- A transform halts the loop or answers, but it is never silent. -/
theorem Tape.eq_silence_of_reduce {T : Tape C V} {rule : String} {transform : Option (Transform V)}
    (h : T.reduce rule transform x o = .broken .silence) : o = .broken .silence := by
  cases o with
  | matched y v =>
    simp only [Tape.reduce] at h
    split at h
    · cases h
    · split at h <;> cases h
  | refused r => cases h
  | broken b => exact h

end Silence

/-- A match without actors from outside is answered or meets a fault, at a place of `I`, if so are
the places behind the tokens of `I`. -/
theorem Derives.answers {C : Type} {T : Tape C V} {I : C → Prop} (hR : R.Native)
    (hI : ∀ x r, I x → T.next x r → r ≠ .error .silence ∧ ∀ y, r = .ok y → I y)
    {task : Task C V} {x : C} {o : Verdict C V} (h : Derives T R task x o)
    (htask : task.isForeign = false) (hx : I x) : o ≠ .broken .silence := by
  have hnext : ∀ x y, I x → T.next x (.ok y) → I y := fun x y hx h => (hI x _ hx h).2 y rfl
  -- Silence begins at an actor from outside or behind a token, and is only passed on elsewhere.
  induction h with
  | terminal _ ih | predicate _ ih | any _ ih => exact ih rfl hx
  | @token _ _ _ _ r _ _ hr =>
    cases r with
    | ok y => rintro ⟨⟩
    | error b => rintro ⟨⟩; exact (hI _ _ hx hr).1 rfl
  | tokenRefused | finish | finishRefused | itemsDone | alternativesDone | ruleUnknown =>
    rintro ⟨⟩
  | sequence _ ih | choice _ ih | zeroOrMore _ ih | oneOrMore _ ih => exact ih htask hx
  | itemsNext h₁ _ ih ih' =>
    obtain ⟨hp, hps⟩ := Bool.or_eq_false_iff.mp htask
    exact ih' hps (h₁.all hnext trivial hx)
  | itemsStop _ _ ih => exact ih (Bool.or_eq_false_iff.mp htask).1 hx
  | alternativesNext _ _ ih ih' => exact ih' (Bool.or_eq_false_iff.mp htask).2 hx
  | alternativesStop _ _ ih => exact ih (Bool.or_eq_false_iff.mp htask).1 hx
  | againNext h₁ _ _ ih ih' => exact ih' htask (h₁.all hnext trivial hx)
  | againStop _ _ ih => exact fun h => ih htask hx (Verdict.eq_broken_of_ending h)
  | optional _ ih => exact fun h => ih htask hx (Verdict.eq_broken_of_optional h)
  | not _ ih => exact fun h => ih htask hx (Verdict.eq_broken_of_not h)
  | rule hR' _ ih => exact fun h => ih (hR _ _ _ hR') hx (Tape.eq_silence_of_reduce h)
  | tally | silent => cases htask

/-- Without actors from outside every source reads a place or meets a fault. -/
theorem Reads.answers (hR : R.Native) {r : Except Break (Place V)} (h : Reads R σ r)
    (hσ : σ.Uses fun p => p.isForeign = false) : r ≠ .error .silence := by
  refine Reads.induct (P := fun σ r => σ.Uses (fun p => p.isForeign = false) → r ≠ .error .silence)
    ?_ h hσ
  intro σ r hr hσ
  -- Behind every token of such layers there is a place of such layers.
  have hnext : ∀ x r, Place.Uses (fun p => p.isForeign = false) x →
      (Tape.over fun σ r => Reads R σ r ∧
        (σ.Uses (fun p => p.isForeign = false) → r ≠ .error .silence)).next x r →
      r ≠ .error .silence ∧ ∀ y, r = .ok y → Place.Uses (fun p => p.isForeign = false) y := by
    intro x r hx h
    cases x with
    | token p v rest =>
      refine ⟨h.2 hx, ?_⟩
      rintro y rfl
      exact h.1.uses hx
    | finish | stalled => exact h.elim
  cases hr with
  | chars | values | fixed => rintro ⟨⟩
  | silent => exact hσ.elim
  | brokenBelow hb =>
    rintro ⟨⟩
    exact hb.2 hσ.1 rfl
  | @brokenSkip below skip token index x b hx hs =>
    -- the break is that of the skip pattern, at a place of such layers
    have hx := hx.1.uses hσ.1
    generalize he : Except.error b = r at hs
    cases hs with
    | none => cases he
    | @some p _ o hs =>
      have ho := hs.answers hR hnext (hσ.2.1 p rfl) hx
      cases o with
      | matched | refused => cases he
      | broken b =>
        cases he
        rintro ⟨⟩
        exact ho rfl
  | @read below skip token index x y o hx hs ho =>
    -- the break could only be that of the token pattern
    have hx := hx.1.uses hσ.1
    have hy : y.Uses fun p => p.isForeign = false :=
      hs.all (fun x y hx hy => (hnext x _ hx hy).2 y rfl) hx
    have ho := ho.answers hR hnext hσ.2.2 hy
    cases o with
    | matched | refused => rintro ⟨⟩
    | broken b =>
      rintro ⟨⟩
      exact ho rfl

/-! ## Building -/

/-- The stream was built, in a world that began as `w₀`, from texts, lists and cursors, and by
patterns of `ok` on other such streams. Other streams may have been built meanwhile, and matches
and walks may have read the stream and come to their end. -/
inductive Built (ok : Pattern V → Prop) (w₀ : World V) : Stream V → World V → Prop where
  | chars {text p} : Built ok w₀ (.chars text p) w₀
  | values {items index} : Built ok w₀ (.values items index) w₀
  | finish {p} : Built ok w₀ (.fixed (.finish p)) w₀
  | stalled {p f} : Built ok w₀ (.fixed (.stalled p f)) w₀
  | token {p v s w} : Built ok w₀ s w → Built ok w₀ (.fixed (.token p v s)) w
  | derived {s w skip token} : Built ok w₀ s w → (∀ k, skip = some k → ok k) → ok token →
      Built ok w₀ (w.derive s skip token).1 (w.derive s skip token).2
  | aside {s w s' skip token} : Built ok w₀ s w → Built ok w₀ s (w.derive s' skip token).2
  | matched {s w p fuel limit r w'} : Built ok w₀ s w →
      parse fuel limit p s w = some (.ok r, w') → Built ok w₀ (.fixed r.stop) w'
  | collected {s w fuel limit cs last w' c} : Built ok w₀ s w →
      collect fuel limit s w = some (.ok (cs ++ [last]), w') → last.isEnd = true →
      c ∈ cs ++ [last] → Built ok w₀ (.fixed c) w'

/-- The stream can be written out as a source, and none of its cells is busy. -/
structure Standing (ok : Pattern V → Prop) (w₀ w : World V) (chart : Chart V) (s : Stream V)
    (σ : Source V) : Prop where
  rulebook : w.rulebook = w₀.rulebook
  charted : Charted w₀.rulebook (fun _ => False) chart w.cells
  source : s.source? chart = some σ
  uses : σ.Uses ok
  settled : Settled w₀ w

/-- Whatever stands can be asked for. -/
theorem Standing.poised (h : Standing ok w₀ w chart s σ) (answers : List (Answer V))
    (walked : List (Cursor V)) :
    Poised w₀.rulebook (fun _ => False) (σ.depth + 1) chart { w with answers, walked } :=
  ⟨h.rulebook, h.charted, fun _ h => h.elim⟩

/-- A computation that is done leaves no cell busy. -/
theorem Evolves.settled (h : Evolves R (fun _ => False) chart w chart' w') (hw : Settled w₀ w) :
    Settled w₀ w' := by
  intro id cell hid hcell
  cases hσ : chart' id with
  | some σ =>
    -- A cell of the chart is idle or remembers what its source reads.
    obtain ⟨cell', hcell', hfits⟩ := h.charted id σ hσ
    cases hcell.symm.trans hcell'
    have hmemo := hfits.memo
    cases hm : cell.memo with
    | idle | ready => rfl
    | pending customers =>
      rw [hm] at hmemo
      exact hmemo.elim
  | none =>
    -- A cell off the chart is old, since all new ones are on it, and was left as it was.
    have hlt : id < w'.cells.size := (Array.getElem?_eq_some_iff.mp hcell).1
    by_cases hold : id < w.cells.size
    · have hnone : chart id = none := by
        refine Option.eq_none_iff_forall_ne_some.mpr fun σ hσ' => ?_
        rw [h.le id σ hσ'] at hσ
        cases hσ
      rw [h.frame id hold (.inr hnone)] at hcell
      exact hw id cell hid hcell
    · obtain ⟨σ, hσ'⟩ := h.new id (not_lt.mp hold) hlt
      rw [hσ'] at hσ
      cases hσ

theorem Charted.push_aside {B : Nat → Prop} {cells : Array (Cell V)} (h : Charted R B chart cells)
    (cell : Cell V) : Charted R B chart (cells.push cell) := by
  intro id σ hid
  obtain ⟨old, hold, hfits⟩ := h id σ hid
  refine ⟨old, ?_, hfits⟩
  rw [Array.getElem?_push, if_neg (h.lt_size hid).ne]
  exact hold

omit [MatchValue V] [DecidableEq V] in
theorem settled_self (w : World V) : Settled w w := by
  intro id cell hid hcell
  exact absurd (Array.getElem?_eq_some_iff.mp hcell).1 hid.not_gt

omit [MatchValue V] [DecidableEq V] in
theorem Settled.addCell (h : Settled w₀ w) {cell : Cell V} (hcell : cell.memo = .idle) :
    Settled w₀ (w.addCell cell).2 := by
  intro id c hid hc
  simp only [World.addCell, Array.getElem?_push] at hc
  split_ifs at hc
  · cases hc
    rw [hcell]
    rfl
  · exact h id c hid hc

theorem Standing.derive (h : Standing ok w₀ w chart s σ) {skip : Option (Pattern V)}
    {token : Pattern V} (hskip : ∀ k, skip = some k → ok k) (htoken : ok token) :
    ∃ chart', Standing ok w₀ (w.derive s skip token).2 chart' (w.derive s skip token).1
      (.derived σ skip token 0) := by
  obtain ⟨chart', -, hcharted, hsource⟩ := w.exists_source_derive skip token h.charted h.source
  exact ⟨chart', h.rulebook, hcharted, hsource, ⟨h.uses, hskip, htoken⟩, h.settled.addCell rfl⟩

/-- The places of a finding satisfy `I`. -/
def Finding.All (I : Place V → Prop) : Finding V → Prop
  | .matched x y _ => I x ∧ I y
  | .refused x r => I x ∧ I r.furthest
  | .broken _ => True

/-- What is found in a stream is a place of its layers. -/
theorem Finds.uses {p : Pattern V} {f : Finding V} (hf : Finds R p σ f) (hσ : σ.Uses ok) :
    f.All (Place.Uses ok) := by
  cases hf with
  | unread hb => trivial
  | @read x o hx ho =>
    have hx := hx.uses hσ
    have ho := ho.all (fun _ _ => uses_of_next) trivial hx
    cases o with
    | matched y v => exact ⟨hx, ho⟩
    | refused r => exact ⟨hx, ho⟩
    | broken b => trivial

/-- What is left of the stream behind a match can be written out. -/
theorem Standing.matched (h : Standing ok w₀ w chart s σ) {p : Pattern V} {fuel : Nat}
    {limit : Option Nat} {r : Success V}
    (hrun : parse fuel limit p s w = some (.ok r, w')) :
    ∃ chart' σ', Standing ok w₀ w' chart' (.fixed r.stop) σ' := by
  rcases Starts.runMatch_says (.ask h.source) (h.poised [] w.walked) σ.depth.lt_succ_self hrun with
    ⟨_, -, hlimit⟩ | ⟨chart', f, hf, hsays, hev⟩
  · cases hlimit
  · cases hsays with
    | @matched start stop x y v hx hy =>
      have hev := hev fun b h => by cases h
      refine ⟨chart', .fixed y, hev.rulebook.trans h.rulebook, hev.charted, ?_,
        (hf.uses h.uses).2, hev.settled h.settled⟩
      simp only [Stream.source?, hy, Option.map_some]

/-- What a walk gives can be written out. -/
theorem Standing.collected (h : Standing ok w₀ w chart s σ) {fuel : Nat} {limit : Option Nat}
    {cs : List (Cursor V)} {last c : Cursor V}
    (hrun : collect fuel limit s w = some (.ok (cs ++ [last]), w')) (hlast : last.isEnd = true)
    (hc : c ∈ cs ++ [last]) : ∃ chart' σ', Standing ok w₀ w' chart' (.fixed c) σ' := by
  obtain ⟨xs, chart', hwalks, hplaces, hev⟩ :=
    collect_walks (h.poised w.answers []) h.source σ.depth.lt_succ_self hrun hlast
  obtain ⟨x, hx, hcx⟩ := exists_mem_of_forall₂ hplaces hc
  refine ⟨chart', .fixed x, hev.rulebook.trans h.rulebook, hev.charted, ?_,
    hwalks.uses h.uses x hx, hev.settled h.settled⟩
  simp only [Stream.source?, hcx, Option.map_some]

/-- **A stream that was built can be written out.** -/
theorem Built.exists_standing (h : Built ok w₀ s w) : ∃ chart σ, Standing ok w₀ w chart s σ := by
  have hw₀ := settled_self w₀
  have hnone : Charted w₀.rulebook (fun _ => False) (fun _ => none) w₀.cells := .empty
  induction h with
  -- Texts, lists and ends take no cell, so that nothing has to be on the chart.
  | chars => exact ⟨fun _ => none, _, rfl, hnone, rfl, trivial, hw₀⟩
  | values => exact ⟨fun _ => none, _, rfl, hnone, rfl, trivial, hw₀⟩
  | finish => exact ⟨fun _ => none, _, rfl, hnone, rfl, trivial, hw₀⟩
  | stalled => exact ⟨fun _ => none, _, rfl, hnone, rfl, trivial, hw₀⟩
  | @token p v s w _ ih =>
    obtain ⟨chart, σ, hs⟩ := ih
    refine ⟨chart, .fixed (.token p v σ), hs.rulebook, hs.charted, ?_, hs.uses, hs.settled⟩
    simp only [Stream.source?, Cursor.place?, hs.source, Option.map_some]
  | derived _ hskip htoken ih =>
    obtain ⟨chart, σ, hs⟩ := ih
    obtain ⟨chart', hs'⟩ := hs.derive hskip htoken
    exact ⟨chart', _, hs'⟩
  | aside _ ih =>
    obtain ⟨chart, σ, hs⟩ := ih
    exact ⟨chart, σ, hs.rulebook, hs.charted.push_aside _, hs.source, hs.uses,
      hs.settled.addCell rfl⟩
  | matched _ hrun ih =>
    obtain ⟨chart, σ, hs⟩ := ih
    exact hs.matched hrun
  | collected _ hrun hlast hc ih =>
    obtain ⟨chart, σ, hs⟩ := ih
    exact hs.collected hrun hlast hc

/-! ## Words -/

/-- Whether the value is a letter. -/
def isLetter : Value → Bool
  | .char c => c.isAlpha
  | _ => false

/-- Whether the value is a space. -/
def isSpace : Value → Bool
  | .char ' ' => true
  | _ => false

/-- A grammar of words, and of everything that ends. -/
def wordGrammar : Grammar Value where
  rules := [
    ("word", {
      body := some (.oneOrMore (.predicate "letter" isLetter))
      transform := some fun _ v _ => .ok (.list [v]) }),
    ("rest", { body := some (.choice [.sequence [.any, .rule ⟨0, "rest"⟩], .finish]) })]

/-- A world with the grammar of words. -/
def wordWorld : World Value := { grammars := #[some wordGrammar] }

/-- The words of a text that ends with something else, and the world in which they are derived. -/
def wordStream : Stream Value × World Value :=
  wordWorld.derive (.chars ['a', ' ', 'b', 'c', '!'] .start)
    (some (.zeroOrMore (.predicate "space" isSpace))) (.rule ⟨0, "word"⟩)

theorem mem_wordGrammar {ref : RuleRef} {body : Pattern Value} {transform : Option (Transform Value)}
    (h : wordWorld.rulebook ref = .ok (body, transform)) :
    ∃ rule, (ref.name, rule) ∈ wordGrammar.rules ∧ rule.body = some body ∧
      rule.transform = transform := by
  obtain ⟨g, rule, hg, hrule, hbody, htransform⟩ := World.mem_of_rulebook h
  obtain rfl : g = wordGrammar := by
    simpa [wordWorld] using hg
  exact ⟨rule, hrule, hbody, htransform⟩

theorem native_wordWorld : wordWorld.rulebook.Native := by
  intro ref body transform h
  obtain ⟨rule, hrule, hbody, -⟩ := mem_wordGrammar h
  have hnative : ∀ r ∈ wordGrammar.rules, ∀ p, r.2.body = some p → p.isForeign = false := by
    simp [wordGrammar, Pattern.isForeign, Pattern.anyForeign]
  exact hnative _ hrule body hbody

end Humus.Peg
