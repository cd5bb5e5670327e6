import Humus.Proofs.Peg.Strand
import Humus.Proofs.Peg.Building

/-!
# Lasting

How many deliveries a strand takes. A derivation bounds them: the work on a task takes as many as
the work on its parts and a few for their addressees, and a derived stream gives a place after the
work of its cell, whoever does it.

## Main definitions

* `Takes R task x o k`: the work on `task` at `x` comes to the verdict `o` in `k` deliveries
* `Gives R σ z k`: a stream of the source `σ` gives the place `z` in `k` deliveries

## Main results

* `Derives.exists_takes`: the work on a task comes to the verdict that is derived
* `Reads.exists_gives`: a stream gives the place that its source reads
* `Finds.exists_lasts`: the strand of a match comes to its report
-/

namespace Humus.Peg

open Dispatch (Effect)

variable {V : Type} [MatchValue V] [DecidableEq V]

variable {R : Rulebook V} {chart chart' : Chart V} {w : World V} {ω : Owner V} {n k k' : Nat}
  {id : Nat} {start here : Cursor V} {ok : OnSuccess V} {fail : OnFailure V} {m : Delivery V}
  {x y z : Place V} {o : Verdict (Place V) V} {σ : Source V}

/-! ## Tasks -/

/-- The effects send one message, from which the strand of `ω` lasts for `n` deliveries. -/
def Sends (R : Rulebook V) (n : Nat) (ω : Owner V) (chart : Chart V) (effects : Effects V) : Prop :=
  ∃ m, effects = [.send m] ∧ Lasts R n ω chart m

/-- The work on `task` at `x` comes to the verdict `o` in `k` deliveries, whoever is to be told, and
whoever it is done for. -/
def Takes (R : Rulebook V) (task : Task (Place V) V) (x : Place V) (o : Verdict (Place V) V)
    (k : Nat) : Prop :=
  ∀ ⦃chart start here ok fail effects n ω⦄, here.place? chart = some x → ω.Above chart x.depth →
    Begins chart start ok fail task here effects →
    (∀ chart' m, chart.Le chart' → Told chart' start ok fail o m → Lasts R n ω chart' m) →
    Sends R (n + k) ω chart effects

/-- A stream of the source `σ` gives the place `z` in `k` deliveries, whoever asks it. -/
def Gives (R : Rulebook V) (σ : Source V) (z : Place V) (k : Nat) : Prop :=
  ∀ ⦃chart s customer n ω⦄, s.source? chart = some σ → ω.Above chart σ.depth →
    (∀ chart' c, chart.Le chart' → c.place? chart' = some z →
      Lasts R n ω chart' (.cursor customer c)) →
    Lasts R (n + k) ω chart (.ask s customer)

/-- A message that is handled by doing something that lasts. -/
theorem Lasts.does (hm : m.cell? = none)
    (h : ∀ chart' w, chart.Le chart' → Follows R chart' w →
      ∃ effects, receive m w = (effects, w) ∧ Sends R n ω chart' effects) :
    Lasts R (n + 1) ω chart m := by
  refine Lasts.relay hm fun chart' w hle hw => ?_
  obtain ⟨effects, hreceive, m', rfl, hm'⟩ := h chart' w hle hw
  exact .of_eq hreceive hm'

section Parts

variable {expected : Expected V} {test : V → Bool} {p q : Pattern V} {qs : List (Pattern V)}
  {values : List V} {v : V} {r : Refusal (Place V) V} {failed : Option (Refusal (Place V) V)}
  {needsOne : Bool} {task : Task (Place V) V}

/-- The request to a pattern that passes it on unchanged to its parts. -/
theorem Takes.whole (h : Takes R task x o k)
    (hbegins : ∀ chart start ok fail w, start.place? chart = some x →
      ∃ effects, receive (.request p ⟨start, ok, fail⟩) w = (effects, w) ∧
        Begins chart start ok fail task start effects) :
    Takes R (.whole p) x o (k + 1) := by
  intro chart start here ok fail effects n ω hx hω hb htold
  cases hb
  refine ⟨_, rfl, Lasts.does rfl fun chart' w hle hw => ?_⟩
  have hx' := Cursor.place?_mono hle _ hx
  obtain ⟨effects, hreceive, hb⟩ := hbegins chart' start ok fail w hx'
  exact ⟨effects, hreceive, h hx' (hω.mono hle) hb fun chart'' m hle' hm =>
    htold chart'' m (hle.trans hle') hm⟩

theorem Takes.token {position : Position} (htest : test v = true) (h : Gives R σ y k) :
    Takes R (.token expected test) (.token position v σ) (.matched y v) (k + 1) := by
  intro chart start here ok fail effects n ω hx hω hb htold
  cases hb
  have htoken : start.token? = some v := (Cursor.token?_of_place? hx).symm
  rw [if_pos (by rw [htoken]; exact htest)]
  cases start with
  | token p v' rest =>
    cases htoken
    obtain ⟨σ', hσ, he⟩ := Option.map_eq_some_iff.mp hx
    cases he
    refine ⟨_, rfl, ?_⟩
    rw [Nat.add_comm k, ← Nat.add_assoc]
    -- behind the token the customer tells of the match
    refine h hσ hω fun chart' c hle hc => Lasts.relay rfl fun chart'' w hle' hw => ?_
    exact .of_eq rfl (htold chart'' _ (hle.trans hle') (.matched (Cursor.place?_mono hle' _ hc)))
  | finish | stalled => cases htoken

theorem Takes.tokenRefused (htest : x.token?.any test = false) :
    Takes R (.token expected test) x (.refused ⟨x, [expected]⟩) 0 := by
  intro chart start here ok fail effects n ω hx hω hb htold
  cases hb
  have htoken : x.token? = start.token? := Cursor.token?_of_place? hx
  rw [htoken] at htest
  rw [if_neg (Bool.eq_false_iff.mp htest)]
  exact ⟨_, rfl, htold chart _ (.refl chart) (.refused rfl (Failure.tells_of hx _))⟩

theorem Takes.finish (htoken : x.token? = none) :
    Takes R (.whole .finish) x (.matched x MatchValue.nothing) 1 := by
  intro chart start here ok fail effects n ω hx hω hb htold
  cases hb
  have ht : start.token? = none := (Cursor.token?_of_place? hx).symm.trans htoken
  refine ⟨_, rfl, Lasts.relay rfl fun chart' w hle _ => Relays.of_eq ?_
    (htold chart' _ hle (.matched (Cursor.place?_mono hle _ hx)))⟩
  simp only [receive, matchPattern, Cursor.isEnd_eq, ht, Option.isNone_none, if_true]
  rfl

theorem Takes.finishRefused (htoken : x.token? = some v) :
    Takes R (.whole .finish) x (.refused ⟨x, [.endOfInput]⟩) 1 := by
  intro chart start here ok fail effects n ω hx hω hb htold
  cases hb
  have ht : start.token? = some v := (Cursor.token?_of_place? hx).symm.trans htoken
  refine ⟨_, rfl, Lasts.relay rfl fun chart' w hle _ => Relays.of_eq ?_
    (htold chart' _ hle (.refused rfl (Failure.tells_of (Cursor.place?_mono hle _ hx) _)))⟩
  simp only [receive, matchPattern, Cursor.isEnd_eq, ht, Option.isNone_some]
  rfl

theorem Takes.itemsDone :
    Takes R (.items [] values) x (.matched x (MatchValue.list values.reverse)) 0 := by
  intro chart start here ok fail effects n ω hx hω hb htold
  cases hb
  exact ⟨_, rfl, htold chart _ (.refl chart) (.matched hx)⟩

theorem Takes.itemsNext (h : Takes R (.whole q) x (.matched y v) k) (hy : y.depth ≤ x.depth)
    (h' : Takes R (.items qs (v :: values)) y o k') :
    Takes R (.items (q :: qs) values) x o (k' + 1 + k) := by
  intro chart start here ok fail effects n ω hx hω hb htold
  cases hb
  rw [← Nat.add_assoc, ← Nat.add_assoc]
  refine h hx hω .whole fun chart₁ m hle hm => ?_
  refine Lasts.does (hm.cell? rfl rfl) fun chart₂ w hle' hw => ?_
  rcases (hm.mono hle').items w with ⟨z, u, stop, he, hz, hreceive⟩ | ⟨_, hm', -, -⟩
  · cases he
    exact ⟨_, hreceive, h' hz ((hω.of_le hy).mono (hle.trans hle')) .items fun chart₃ m hle'' hm =>
      htold chart₃ m ((hle.trans hle').trans hle'') hm⟩
  · cases hm'

theorem Takes.itemsStop (h : Takes R (.whole q) x o k) (hstop : o.isMatched = false) :
    Takes R (.items (q :: qs) values) x o (1 + k) := by
  intro chart start here ok fail effects n ω hx hω hb htold
  cases hb
  rw [← Nat.add_assoc]
  refine h hx hω .whole fun chart₁ m hle hm => ?_
  refine Lasts.relay (hm.cell? rfl rfl) fun chart₂ w hle' hw => ?_
  rcases (hm.mono hle').items w with ⟨y, v, stop, rfl, -, -⟩ | ⟨m', -, hreceive, hm'⟩
  · cases hstop
  · exact .of_eq hreceive (htold chart₂ m' (hle.trans hle') hm')

theorem Takes.alternativesDone :
    Takes R (.alternatives [] failed) x (.refused (failed.getD ⟨x, []⟩)) 0 := by
  intro chart start here ok fail effects n ω hx hω hb htold
  cases hb with
  | alternatives hfailed =>
    cases hfailed with
    | none =>
      exact ⟨_, rfl, htold chart _ (.refl chart) (.refused rfl (Failure.tells_unexpected hx))⟩
    | some hr => exact ⟨_, rfl, htold chart _ (.refl chart) (.refused rfl (hr.startingAt _))⟩

theorem Takes.alternativesNext {N : Source V → Except Break (Place V) → Prop}
    (h : Takes R (.whole q) x (.refused r) k)
    (h' : Takes R (.alternatives qs (some ((Tape.over N).mergeInto failed r))) x o k') :
    Takes R (.alternatives (q :: qs) failed) x o (k' + 1 + k) := by
  intro chart start here ok fail effects n ω hx hω hb htold
  cases hb with
  | alternatives hfailed =>
    rw [← Nat.add_assoc, ← Nat.add_assoc]
    refine h hx hω .whole fun chart₁ m hle hm => ?_
    have hcell : m.cell? = none := by
      cases hm
      rfl
    -- what is known of the refusals so far goes on to the next alternative
    refine Lasts.does hcell fun chart₂ w hle' hw => ?_
    have hfailed' := rel_tells_mono (hle.trans hle') hfailed
    rcases (hm.mono hle').alternatives (R := R) w hfailed' with
      ⟨r, f, he, hf, hreceive⟩ | ⟨hm, -⟩
    · cases he
      exact ⟨_, hreceive, h' (Cursor.place?_mono (hle.trans hle') _ hx) (hω.mono (hle.trans hle'))
        (.alternatives (.some hf)) fun chart₃ m hle'' hm =>
          htold chart₃ m ((hle.trans hle').trans hle'') hm⟩
    · cases hm

theorem Takes.alternativesStop (h : Takes R (.whole q) x o k) (hm : o.isRefused = false) :
    Takes R (.alternatives (q :: qs) failed) x o k := by
  intro chart start here ok fail effects n ω hx hω hb htold
  cases hb with
  | alternatives hfailed =>
    refine h hx hω .whole fun chart₁ m hle hm' => htold chart₁ m hle ?_
    cases hm' with
    | matched hy => exact .matched hy
    | refused _ _ => cases hm

theorem Takes.againNext (h : Takes R (.whole q) x (.matched y v) k) (hlt : x.offset < y.offset)
    (hy : y.depth ≤ x.depth) (h' : Takes R (.again q needsOne (v :: values)) y o k') :
    Takes R (.again q needsOne values) x o (k' + 1 + k) := by
  intro chart start here ok fail effects n ω hx hω hb htold
  cases hb
  rw [← Nat.add_assoc, ← Nat.add_assoc]
  refine h hx hω .whole fun chart₁ m hle hm => ?_
  refine Lasts.does (hm.cell? rfl rfl) fun chart₂ w hle' hw => ?_
  rcases (hm.mono hle').again (R := R) w (Cursor.place?_mono (hle.trans hle') _ hx) with
    ⟨z, u, stop, he, -, hz, hreceive⟩ | ⟨_, hc, -, -⟩
  · cases he
    exact ⟨_, hreceive, h' hz ((hω.of_le hy).mono (hle.trans hle')) .again fun chart₃ m hle'' hm =>
      htold chart₃ m ((hle.trans hle').trans hle'') hm⟩
  · exact absurd hlt (of_decide_eq_false hc)

theorem Takes.againStop {N : Source V → Except Break (Place V) → Prop}
    (h : Takes R (.whole q) x o k) (hc : (Tape.over N).consumes x o = false) :
    Takes R (.again q needsOne values) x (o.ending x needsOne values) (1 + k) := by
  intro chart start here ok fail effects n ω hx hω hb htold
  cases hb
  rw [← Nat.add_assoc]
  refine h hx hω .whole fun chart₁ m hle hm => ?_
  refine Lasts.relay (hm.cell? rfl rfl) fun chart₂ w hle' hw => ?_
  rcases (hm.mono hle').again (R := R) w (Cursor.place?_mono (hle.trans hle') _ hx) with
    ⟨y, v, stop, rfl, hlt, -, -⟩ | ⟨m', -, hreceive, hm'⟩
  · exact absurd hlt (of_decide_eq_false hc)
  · exact .of_eq hreceive (htold chart₂ m' (hle.trans hle') hm')

theorem Takes.optional (h : Takes R (.whole q) x o k) :
    Takes R (.whole (.optional q)) x (o.optional x) (1 + k + 1) := by
  intro chart start here ok fail effects n ω hx hω hb htold
  cases hb
  rw [← Nat.add_assoc, ← Nat.add_assoc]
  refine ⟨_, rfl, Lasts.does rfl fun chart₁ w hle hw => ⟨_, rfl, ?_⟩⟩
  refine h (Cursor.place?_mono hle _ hx) (hω.mono hle) .whole fun chart₂ m hle' hm => ?_
  refine Lasts.relay (hm.cell? rfl rfl) fun chart₃ w hle'' hw => ?_
  have hle₃ := (hle.trans hle').trans hle''
  obtain ⟨m', hreceive, hm'⟩ := (hm.mono hle'').optional w (Cursor.place?_mono hle₃ _ hx)
  exact .of_eq hreceive (htold chart₃ m' hle₃ hm')

theorem Takes.not (h : Takes R (.whole q) x o k) :
    Takes R (.whole (.not q)) x (o.not x) (1 + k + 1) := by
  intro chart start here ok fail effects n ω hx hω hb htold
  cases hb
  rw [← Nat.add_assoc, ← Nat.add_assoc]
  refine ⟨_, rfl, Lasts.does rfl fun chart₁ w hle hw => ⟨_, rfl, ?_⟩⟩
  refine h (Cursor.place?_mono hle _ hx) (hω.mono hle) .whole fun chart₂ m hle' hm => ?_
  refine Lasts.relay (hm.cell? rfl rfl) fun chart₃ w hle'' hw => ?_
  have hle₃ := (hle.trans hle').trans hle''
  obtain ⟨m', hreceive, hm'⟩ := (hm.mono hle'').not w (Cursor.place?_mono hle₃ _ hx)
  exact .of_eq hreceive (htold chart₃ m' hle₃ hm')

theorem Takes.rule {N : Source V → Except Break (Place V) → Prop} {ref : RuleRef}
    {body : Pattern V} {transform : Option (Transform V)} (hR : R ref = .ok (body, transform))
    (h : Takes R (.whole body) x o k)
    (hbroken : ∀ b, (Tape.over N).reduce ref.name transform x o ≠ .broken b) :
    Takes R (.whole (.rule ref)) x ((Tape.over N).reduce ref.name transform x o) (1 + k + 1) := by
  intro chart start here ok fail effects n ω hx hω hb htold
  cases hb
  rw [← Nat.add_assoc, ← Nat.add_assoc]
  refine ⟨_, rfl, Lasts.relay rfl fun chart₁ w hle hw => ?_⟩
  have hreceive : receive (.request (.rule ref) ⟨start, ok, fail⟩) w =
      (ask body start (ruleOk ref transform ok) (.relabel ref.name fail),
        w.sealGrammar ref.grammar) := by
    simp only [receive, matchPattern, matchRule_eq, hw.rulebook, hR]
    rfl
  have hx₁ := Cursor.place?_mono hle _ hx
  have hbody : Sends R (n + 1 + k) ω chart₁
      (ask body start (ruleOk ref transform ok) (.relabel ref.name fail)) := by
    refine h hx₁ (hω.mono hle) .whole fun chart₂ m hle' hm => ?_
    -- the verdict of the body is that of the rule after at most one more delivery
    have hle₂ := hle.trans hle'
    cases hm with
    | @refused f r hp hr =>
      refine Lasts.relay rfl fun chart₃ w hle'' hw => .of_eq rfl ?_
      refine htold chart₃ _ (hle₂.trans hle'') ?_
      refine .refused ((f.position_relabel _).trans hp) ((hr.mono hle'').relabel (R := R) ?_ _)
      rw [hp]
      exact Cursor.place?_mono (hle₂.trans hle'') _ hx
    | @matched stop y v hy =>
      cases transform with
      | none => exact (htold chart₂ _ hle₂ (.matched hy)).succ
      | some g =>
        have hspan : (⟨(Tape.over N).position x, (Tape.over N).position y⟩ : Span) =
            (⟨start, stop, v⟩ : Success V).span := by
          simp only [Success.span, ← Cursor.position_of_place? hx, ← Cursor.position_of_place? hy]
          rfl
        simp only [Tape.reduce, hspan] at htold hbroken
        refine Lasts.relay rfl fun chart₃ w hle'' hw => ?_
        cases hg : g ref.name v (⟨start, stop, v⟩ : Success V).span with
        | error reason =>
          rw [hg] at hbroken
          exact absurd rfl (hbroken _)
        | ok value =>
          rw [hg] at htold
          refine ⟨_, { w with invocations := ⟨ref, v, ⟨start.position, stop.position⟩⟩
            :: w.invocations }, ?_, ⟨rfl, rfl, rfl⟩, rfl, htold chart₃ _ (hle₂.trans hle'')
              (.matched (Cursor.place?_mono hle'' _ hy))⟩
          simp only [ruleOk, receive, onSuccess, hg]
          rfl
  obtain ⟨m', he, hm'⟩ := hbody
  rw [he] at hreceive
  exact ⟨m', _, hreceive, ⟨by simp, by simp, by simp⟩, by simp, hm'⟩

theorem Takes.tally {counter : String} (h : Takes R (.whole q) x o k) :
    Takes R (.whole (.tally counter q)) x o (k + 1 + 1) := by
  intro chart start here ok fail effects n ω hx hω hb htold
  cases hb
  refine ⟨_, rfl, Lasts.does rfl fun chart₁ w hle hw => ⟨_, rfl, _, rfl, ?_⟩⟩
  refine Lasts.relay rfl fun chart₂ w hle' hw => ?_
  have hle₂ := hle.trans hle'
  obtain ⟨m', he, hm'⟩ := h (Cursor.place?_mono hle₂ _ hx) (hω.mono hle₂) .whole
    fun chart₃ m hle'' hm => htold chart₃ m (hle₂.trans hle'') hm
  exact ⟨m', w.count counter, congrArg (·, w.count counter) he, ⟨rfl, rfl, rfl⟩, rfl, hm'⟩

end Parts

/-- **What is derived is come to**, if the streams below give what their sources read. -/
theorem Derives.exists_takes {N : Source V → Except Break (Place V) → Prop}
    (hN : ∀ σ r, N σ r → Reads R σ r) (hgives : ∀ σ z, N σ (.ok z) → ∃ k, Gives R σ z k)
    {task : Task (Place V) V} (h : Derives (Tape.over N) R task x o)
    (ho : ∀ b, o ≠ .broken b) : ∃ k, Takes R task x o k := by
  have hdepth : ∀ {p : Pattern V} {x y : Place V} {v}, Derives (Tape.over N) R (.whole p) x
      (.matched y v) → y.depth ≤ x.depth := fun h => (h.over_mono hN).depth_le le_rfl
  induction h with
  -- These patterns pass the request on to their parts in the same delivery.
  | terminal _ ih =>
    obtain ⟨k, hk⟩ := ih ho
    refine ⟨_, hk.whole fun chart start ok fail w _ => ⟨_, ?_, .token⟩⟩
    simp only [receive, matchPattern, ← any_eq_iff]
  | predicate _ ih =>
    obtain ⟨k, hk⟩ := ih ho
    exact ⟨_, hk.whole fun _ _ _ _ _ _ => ⟨_, rfl, .token⟩⟩
  | any _ ih =>
    obtain ⟨k, hk⟩ := ih ho
    refine ⟨_, hk.whole fun chart start ok fail w _ => ⟨_, ?_, .token⟩⟩
    cases start <;> rfl
  | sequence _ ih =>
    obtain ⟨k, hk⟩ := ih ho
    exact ⟨_, hk.whole fun _ _ _ _ _ _ => ⟨_, rfl, .items⟩⟩
  | choice _ ih =>
    obtain ⟨k, hk⟩ := ih ho
    exact ⟨_, hk.whole fun _ _ _ _ _ _ => ⟨_, rfl, .alternatives .none⟩⟩
  | zeroOrMore _ ih | oneOrMore _ ih =>
    obtain ⟨k, hk⟩ := ih ho
    exact ⟨_, hk.whole fun _ _ _ _ _ _ => ⟨_, rfl, .again⟩⟩
  | @token _ _ x _ r htoken htest hr =>
    cases r with
    | error b => exact absurd rfl (ho b)
    | ok y =>
      cases x with
      | token position v σ =>
        cases htoken
        obtain ⟨k, hk⟩ := hgives σ y hr
        exact ⟨_, .token htest hk⟩
      | finish | stalled => cases htoken
  | tokenRefused htest => exact ⟨_, .tokenRefused htest⟩
  | finish htoken => exact ⟨_, .finish htoken⟩
  | finishRefused htoken => exact ⟨_, .finishRefused htoken⟩
  | itemsDone => exact ⟨_, .itemsDone⟩
  | itemsNext h₁ _ ih ih' =>
    obtain ⟨k, hk⟩ := ih fun b h => by cases h
    obtain ⟨k', hk'⟩ := ih' ho
    exact ⟨_, hk.itemsNext (hdepth h₁) hk'⟩
  | itemsStop _ hm ih =>
    obtain ⟨k, hk⟩ := ih ho
    exact ⟨_, hk.itemsStop hm⟩
  | alternativesDone => exact ⟨_, .alternativesDone⟩
  | alternativesNext _ _ ih ih' =>
    obtain ⟨k, hk⟩ := ih fun b h => by cases h
    obtain ⟨k', hk'⟩ := ih' ho
    exact ⟨_, hk.alternativesNext hk'⟩
  | alternativesStop _ hm ih =>
    obtain ⟨k, hk⟩ := ih ho
    exact ⟨_, hk.alternativesStop hm⟩
  | againNext h₁ hlt _ ih ih' =>
    obtain ⟨k, hk⟩ := ih fun b h => by cases h
    obtain ⟨k', hk'⟩ := ih' ho
    exact ⟨_, hk.againNext hlt (hdepth h₁) hk'⟩
  | againStop _ hc ih =>
    obtain ⟨k, hk⟩ := ih fun b h => ho b (by rw [h]; rfl)
    exact ⟨_, hk.againStop hc⟩
  | optional _ ih =>
    obtain ⟨k, hk⟩ := ih fun b h => ho b (by rw [h]; rfl)
    exact ⟨_, hk.optional⟩
  | not _ ih =>
    obtain ⟨k, hk⟩ := ih fun b h => ho b (by rw [h]; rfl)
    exact ⟨_, hk.not⟩
  | ruleUnknown | silent => exact absurd rfl (ho _)
  | rule hR _ ih =>
    obtain ⟨k, hk⟩ := ih fun b h => ho b (by rw [h]; rfl)
    exact ⟨_, hk.rule hR ho⟩
  | tally _ ih =>
    obtain ⟨k, hk⟩ := ih ho
    exact ⟨_, hk.tally⟩

/-! ## Cells -/

section Cells

variable {cell : Cell V} {below : Source V} {skip : Option (Pattern V)} {token : Pattern V}
  {index : Nat}

omit [MatchValue V] [DecidableEq V] in
theorem Cell.source?_eq_derived_iff :
    cell.source? chart = some (.derived below skip token index) ↔
      cell.base.source? chart = some below ∧ cell.skip = skip ∧ cell.token = token ∧
        cell.index = index := by
  rw [Cell.source?_eq_some_iff]
  constructor
  · rintro ⟨β, hβ, he⟩
    cases he
    exact ⟨hβ, rfl, rfl, rfl⟩
  · rintro ⟨hβ, rfl, rfl, rfl⟩
    exact ⟨below, hβ, rfl⟩

theorem Follows.exists_cell (hw : Follows R chart w) (hid : chart id = some σ) :
    ∃ cell, w.cells[id]? = some cell ∧ cell.source? chart = some σ := by
  obtain ⟨cell, hcell, hfits⟩ := hw.charted id σ hid
  exact ⟨cell, hcell, Cell.source?_eq_some_iff.mpr hfits.base⟩

/-- A cell that asks for its token is told what it reads. -/
theorem Takes.lasts_lexing (h : Takes R (.whole token) y o k)
    (hid : chart id = some (.derived below skip token index)) (hy : here.place? chart = some y)
    (hd : y.depth ≤ below.depth) (hz : readFrom skip token index y o = .ok z)
    (hread : Reads R (.derived below skip token index) (.ok z)) :
    Lasts R k (.cell id .lexing) chart
      (.request token ⟨here, .lexed id here, .unlexed id here⟩) := by
  have habove : (Owner.cell id .lexing).Above chart y.depth :=
    ⟨_, hid, Nat.lt_succ_of_le hd⟩
  obtain ⟨m, he, hm⟩ := h (n := 0) hy habove .whole fun chart' m hle hm =>
    ⟨rfl, below, skip, token, index, here, y, o, z, hle id _ hid, Cursor.place?_mono hle _ hy, hm,
      hz, hread⟩
  cases he
  rw [Nat.zero_add] at hm
  exact hm

/-- A cell that is told of the end of one stage begins a later one. -/
theorem Lasts.next {stage : Stage} (hid : chart id = some (.derived below skip token index))
    (hm : m.cell? = some id) (hasker : m.asker? = none)
    (h : ∀ chart' w, chart.Le chart' → Follows R chart' w → ∃ m' stage',
      receive m w = ([.send m'], w) ∧ stage'.Opens skip token id m' ∧ stage.rank < stage'.rank ∧
        Lasts R n (.cell id stage') chart' m') :
    Lasts R (n + 1) (.cell id stage) chart m := by
  refine .inr (.inl fun chart' w hle hw => ?_)
  obtain ⟨m', stage', hreceive, hopens, hlt, hm'⟩ := h chart' w hle hw
  exact .of_eq hreceive ⟨_, .next (hle id _ hid) hm hasker hlt hopens, hm'⟩

/-- A cell that steps over what precedes its token asks for the token then. -/
theorem Takes.lasts_skipping {p : Pattern V} (hskip : Takes R (.whole p) x o k)
    (hy : o.skipped x = .ok y)
    (hlex : ∀ chart here, chart id = some (.derived below skip token index) →
      here.place? chart = some y → Lasts R k' (.cell id .lexing) chart
        (.request token ⟨here, .lexed id here, .unlexed id here⟩))
    (hid : chart id = some (.derived below skip token index)) (hx : here.place? chart = some x)
    (hd : x.depth ≤ below.depth) :
    Lasts R (k' + 1 + k) (.cell id .skipping) chart
      (.request p ⟨here, .skipped id, .unskipped id here⟩) := by
  have habove : (Owner.cell id .skipping).Above chart x.depth :=
    ⟨_, hid, Nat.lt_succ_of_le hd⟩
  have hsends : Sends R (k' + 1 + k) (.cell id .skipping) chart
      (ask p here (.skipped id) (.unskipped id here)) := by
    refine hskip hx habove .whole fun chart₁ m hle hm => ?_
    have hcell : m.cell? = some id := by
      cases hm <;> rfl
    have hasker : m.asker? = none := by
      cases hm <;> rfl
    refine Lasts.next (hle id _ hid) hcell hasker fun chart₂ w hle' hw => ?_
    have hid₂ := (hle.trans hle') id _ hid
    obtain ⟨cell, hcell, hsource⟩ := hw.exists_cell hid₂
    obtain ⟨-, -, rfl, -⟩ := Cell.source?_eq_derived_iff.mp hsource
    obtain ⟨z, c, hz, hc, hreceive⟩ :=
      (hm.mono hle').skipped hcell (Cursor.place?_mono (hle.trans hle') _ hx)
    cases hy.symm.trans hz
    exact ⟨_, .lexing, hreceive, .lexing, by decide, hlex chart₂ c hid₂ hc⟩
  obtain ⟨m, he, hm⟩ := hsends
  cases he
  exact hm

/-- A cell that has been given a cursor of the stream below. -/
theorem exists_lasts_skipAt {N : Source V → Except Break (Place V) → Prop}
    (hN : ∀ σ r, N σ r → Reads R σ r) (hgives : ∀ σ z, N σ (.ok z) → ∃ k, Gives R σ z k)
    (hx : x.depth ≤ below.depth) (hskips : SkipsTo (Tape.over N) R skip x (.ok y))
    (ho : Derives (Tape.over N) R (.whole token) y o) (hz : readFrom skip token index y o = .ok z)
    (hread : Reads R (.derived below skip token index) (.ok z)) :
    ∃ k, ∀ ⦃chart : Chart V⦄ ⦃id⦄ ⦃cell : Cell V⦄ ⦃here : Cursor V⦄,
      chart id = some (.derived below skip token index) → here.place? chart = some x →
      cell.skip = skip → cell.token = token →
      ∃ m stage, cell.skipAt id here = [.send m] ∧ stage.Opens skip token id m ∧ 0 < stage.rank ∧
        Lasts R k (.cell id stage) chart m := by
  have hbroken : ∀ b, o ≠ .broken b := by
    rintro b rfl
    cases hz
  obtain ⟨k, hk⟩ := ho.exists_takes hN hgives hbroken
  have hy : y.depth ≤ below.depth := (hskips.over_mono hN).depth_le.trans hx
  have hlex : ∀ {id : Nat} (chart : Chart V) here,
      chart id = some (.derived below skip token index) → here.place? chart = some y →
      Lasts R k (.cell id .lexing) chart (.request token ⟨here, .lexed id here, .unlexed id here⟩) :=
    fun chart here hid hc => hk.lasts_lexing hid hc hy hz hread
  generalize he : Except.ok y = r at hskips
  cases hskips with
  | none =>
    cases he
    refine ⟨k, ?_⟩
    rintro chart id cell here hid hc hskip rfl
    refine ⟨_, .lexing, ?_, .lexing, by decide, hlex chart here hid hc⟩
    rw [Cell.skipAt, hskip]
    rfl
  | @some p _ o' hp =>
    have hbroken' : ∀ b, o' ≠ .broken b := by
      rintro b rfl
      cases he
    obtain ⟨k', hk'⟩ := hp.exists_takes hN hgives hbroken'
    refine ⟨k + 1 + k', ?_⟩
    rintro chart id cell here hid hc hskip rfl
    refine ⟨_, .skipping, ?_, .skipping rfl, by decide,
      hk'.lasts_skipping he.symm hlex hid hc hx⟩
    rw [Cell.skipAt, hskip]
    rfl

/-- Set to work, a cell comes to what its source reads, if the streams below do. -/
theorem exists_employs {N : Source V → Except Break (Place V) → Prop}
    (hN : ∀ σ r, N σ r → Reads R σ r) (hgives : ∀ σ z, N σ (.ok z) → ∃ k, Gives R σ z k)
    (hr : Step R N (.derived below skip token index) (.ok z)) :
    ∃ k, ∀ ⦃chart : Chart V⦄ ⦃id⦄, chart id = some (.derived below skip token index) →
      Employs (Lasts R k) chart id (.derived below skip token index) := by
  have hread := reads_iff.mpr (hr.mono hN)
  generalize he : Except.ok z = r at hr
  cases hr with
  | brokenBelow | brokenSkip => cases he
  | @read _ _ _ _ x y o hx hskips ho =>
    have hd := (hN _ _ hx).depth_le
    obtain ⟨k, hk⟩ := exists_lasts_skipAt hN hgives hd hskips ho he.symm hread
    obtain ⟨k', hk'⟩ := hgives _ _ hx
    refine ⟨k + 1 + k', fun chart id hid chart₁ cell hle hsource => ?_⟩
    have hid₁ := hle id _ hid
    obtain ⟨hbase, hskip, htoken, -⟩ := Cell.source?_eq_derived_iff.mp hsource
    cases hb : cell.base with
    | cursor c =>
      -- the cell stands on a cursor, which is what the source below reads
      rw [hb] at hbase
      obtain ⟨x', hc, rfl⟩ := Option.map_eq_some_iff.mp hbase
      cases (hN _ _ hx).unique (reads_iff.mpr .fixed)
      obtain ⟨m, stage, hskipAt, hopens, -, hm⟩ := hk hid₁ hc hskip htoken
      rw [hskip, htoken]
      refine ⟨m, stage, ?_, hopens, hm.of_le (by omega)⟩
      rw [Cell.begin, hb]
      exact hskipAt
    | stream s =>
      rw [hb] at hbase
      refine ⟨.ask s (.reader id), .reading, ?_, .reading, ?_⟩
      · rw [Cell.begin, hb]
      · -- the stream below gives the cursor from which the cell goes on
        refine hk' hbase ⟨_, hid₁, Nat.lt_succ_self _⟩ fun chart₂ c hle' hc => ?_
        refine Lasts.next (hle' id _ hid₁) rfl rfl fun chart₃ w hle'' hw => ?_
        have hid₃ := (hle'.trans hle'') id _ hid₁
        obtain ⟨cell', hcell', hsource'⟩ := hw.exists_cell hid₃
        obtain ⟨-, hskip', htoken', -⟩ := Cell.source?_eq_derived_iff.mp hsource'
        obtain ⟨m, stage, hskipAt, hopens, hlt, hm⟩ :=
          hk hid₃ (Cursor.place?_mono hle'' _ hc) hskip' htoken'
        refine ⟨m, stage, ?_, hopens, hlt, hm⟩
        simp only [receive, onCursor, withCell, hcell', hskipAt]

end Cells

/-! ## Streams -/

/-- A stream that is not derived answers at once. -/
theorem Follows.delivers (hw : Follows R chart w) {s : Stream V} (hs : s.source? chart = some σ)
    (hread : Reads R σ (.ok z)) (hσ : ∀ below skip token index, σ ≠ .derived below skip token index)
    (customer : OnCursor V) :
    (Delivery.ask s customer).cell? = none ∧ ∃ c, c.place? chart = some z ∧
      receive (.ask s customer) w = ([.send (.cursor customer c)], w) := by
  cases s with
  | chars text p =>
    cases hs
    cases hread.unique (reads_iff.mpr .chars)
    exact ⟨rfl, _, place?_charCursor .., rfl⟩
  | values items index =>
    cases hs
    cases hread.unique (reads_iff.mpr .values)
    exact ⟨rfl, _, place?_valueCursor .., rfl⟩
  | fixed c =>
    obtain ⟨x, hx, rfl⟩ := Option.map_eq_some_iff.mp hs
    cases hread.unique (reads_iff.mpr .fixed)
    exact ⟨rfl, c, hx, rfl⟩
  | derived id =>
    -- a cell of the chart stands for a derived source
    obtain ⟨cell, -, hsource⟩ := hw.exists_cell hs
    obtain ⟨β, -, rfl⟩ := Cell.source?_eq_some_iff.mp hsource
    exact absurd rfl (hσ _ _ _ _)
  | silent =>
    cases hs
    cases hread.unique (reads_iff.mpr .silent)

theorem Gives.of_deliver (hread : Reads R σ (.ok z))
    (hσ : ∀ below skip token index, σ ≠ .derived below skip token index) : Gives R σ z 1 := by
  intro chart s customer n ω hs hω hnext
  refine .inr (.inl fun chart' w hle hw => ?_)
  obtain ⟨hcell, c, hc, hreceive⟩ := hw.delivers (s.source?_mono hle hs) hread hσ customer
  exact .of_eq hreceive ⟨ω, .on hcell, hnext chart' c hle hc⟩

omit [MatchValue V] [DecidableEq V] in
/-- Only a cell stands for a derived source. -/
theorem Stream.eq_derived_of_source? {s : Stream V} {below : Source V} {skip : Option (Pattern V)}
    {token : Pattern V} {index : Nat}
    (h : s.source? chart = some (.derived below skip token index)) :
    ∃ id, s = .derived id ∧ chart id = some (.derived below skip token index) := by
  cases s with
  | derived id => exact ⟨id, rfl, h⟩
  | fixed c =>
    obtain ⟨x, -, hx⟩ := Option.map_eq_some_iff.mp h
    cases hx
  | chars | values | silent => cases h

/-- **A stream gives the place that its source reads.** -/
theorem Reads.exists_gives (h : Reads R σ (.ok z)) : ∃ k, Gives R σ z k := by
  refine Reads.induct (P := fun σ r => ∀ z, r = .ok z → ∃ k, Gives R σ z k) ?_ h z rfl
  intro σ r hr z hz
  subst hz
  have hread : Reads R σ (.ok z) := reads_iff.mpr (hr.mono fun _ _ h => h.1)
  cases σ with
  | chars | values | fixed | silent => exact ⟨1, .of_deliver hread fun _ _ _ _ h => by cases h⟩
  | derived below skip token index =>
    obtain ⟨k, hk⟩ := exists_employs (fun _ _ h => h.1) (fun _ _ h => h.2 _ rfl) hr
    refine ⟨k + 1, fun chart s customer n ω hs hω hnext => ?_⟩
    obtain ⟨id, rfl, hid⟩ := Stream.eq_derived_of_source? hs
    have hemploys := (hk hid).imp fun _ _ _ h => Lasts.of_le h (Nat.le_add_left k n)
    refine .inr (.inr ⟨id, customer, _, z, rfl, hid, hread, hω, hemploys, ?_⟩)
    intro chart' c hle hc
    exact (hnext chart' c hle hc).of_le (Nat.le_add_right n k)

/-! ## Matches -/

/-- **The strand of a match comes to its report**, if the match comes to a verdict. -/
theorem Finds.exists_lasts {p : Pattern V} {f : Finding V} (hf : Finds R p σ f)
    (hbroken : ∀ b, f ≠ .broken b) (number : Nat) :
    ∃ n, ∀ ⦃chart : Chart V⦄ ⦃s⦄, s.source? chart = some σ →
      Lasts R n (.matcher number p σ) chart (.ask s (matcher p number)) := by
  cases hf with
  | unread => exact absurd rfl (hbroken _)
  | @read x o hx ho =>
    have ho' : ∀ b, o ≠ .broken b := by
      rintro b rfl
      exact hbroken b rfl
    obtain ⟨k, hk⟩ := ho.exists_takes (fun _ _ h => h) (fun _ _ h => Reads.exists_gives h) ho'
    obtain ⟨k', hk'⟩ := hx.exists_gives
    refine ⟨0 + k + 1 + k', fun chart s hs => hk' hs trivial fun chart₁ c hle hc => ?_⟩
    refine Lasts.does rfl fun chart₂ w hle' hw => ⟨_, rfl, ?_⟩
    have hc₂ := Cursor.place?_mono hle' _ hc
    refine hk hc₂ trivial .whole fun chart₃ m hle'' hm => ?_
    exact ⟨_, .read hx ho, hm.reports (Cursor.place?_mono hle'' _ hc₂)⟩

end Humus.Peg
