import Humus.Proofs.Peg.Chart
import Humus.Proofs.Dispatch.Thread

/-!
# Telling

How the work on a task is asked for, and how its verdict is told. A match of a part of a pattern is
answered to an addressee that holds the rest of the work; what this addressee does next is either
to ask for the rest or to tell the verdict of the whole.

## Main definitions

* `Begins chart start ok fail task here effects`: the effects ask for the work on a task
* `Told chart start ok fail o m`: the message tells a verdict
* `Answered`, `Delivered`, `BrokeOff`: how the work on a task or the reading of a stream ends

## Main results

* `Told.items`, `Told.alternatives`, `Told.again`, `Told.optional`, `Told.not`, `Told.rule`: what an
  addressee does with the verdict of a part
* `Told.skipped`, `Told.lexed`: what a cell does with the verdicts of its patterns
-/

namespace Humus.Peg

open Dispatch (Effect Script)

variable {V : Type}

/-- The failure says what the refusal says. -/
structure Failure.Tells (chart : Chart V) (f : Failure V) (r : Refusal (Place V) V) : Prop where
  furthest : f.furthest.place? chart = some r.furthest
  expected : f.expected = r.expected

/-- The message tells `ok` or `fail` the verdict of a match that began at `start`. -/
inductive Told (chart : Chart V) (start : Cursor V) (ok : OnSuccess V) (fail : OnFailure V) :
    Verdict (Place V) V → Delivery V → Prop where
  | matched {stop y v} : stop.place? chart = some y →
      Told chart start ok fail (.matched y v) (.success ok ⟨start, stop, v⟩)
  | refused {f r} : f.position = start → f.Tells chart r →
      Told chart start ok fail (.refused r) (.failure fail f)

variable [MatchValue V]

/-- The effects ask for the work on a task at `here`, whose verdict is to be told as that of a match
that began at `start`. -/
inductive Begins (chart : Chart V) (start : Cursor V) (ok : OnSuccess V) (fail : OnFailure V) :
    Task (Place V) V → Cursor V → Effects V → Prop where
  | whole {p} : Begins chart start ok fail (.whole p) start (ask p start ok fail)
  | token {expected test} : Begins chart start ok fail (.token expected test) start
      (if start.token?.any test then consume ⟨start, ok, fail⟩
        else reject ⟨start, ok, fail⟩ expected)
  | items {rest values here} : Begins chart start ok fail (.items rest values) here
      (matchItems start ok fail here values rest)
  | alternatives {rest failed failed'} : Option.Rel (Failure.Tells chart) failed failed' →
      Begins chart start ok fail (.alternatives rest failed') start
        (tryAlternatives start ok fail failed rest)
  | again {body needsOne values here} : Begins chart start ok fail (.again body needsOne values) here
      (matchAgain body needsOne start ok fail here values)

variable {chart chart' : Chart V} {start here : Cursor V} {x y : Place V} {ok : OnSuccess V}
  {fail : OnFailure V} {o : Verdict (Place V) V} {m : Delivery V} {f f' : Failure V}
  {r r' : Refusal (Place V) V} {R : Rulebook V}

section Failures

omit [MatchValue V]

theorem Failure.Tells.mono (h : f.Tells chart r) (hle : chart.Le chart') : f.Tells chart' r :=
  ⟨Cursor.place?_mono hle _ h.furthest, h.expected⟩

theorem rel_tells_mono (hle : chart.Le chart') {failed : Option (Failure V)}
    {failed' : Option (Refusal (Place V) V)} (h : Option.Rel (Failure.Tells chart) failed failed') :
    Option.Rel (Failure.Tells chart') failed failed' := by
  cases h with
  | none => exact .none
  | some hr => exact .some (hr.mono hle)

theorem Failure.Tells.startingAt (h : f.Tells chart r) (start : Cursor V) :
    (f.startingAt start).Tells chart r :=
  ⟨h.furthest, h.expected⟩

theorem Failure.tells_of (hx : here.place? chart = some x) (expected : Expected V) :
    (Failure.of here expected).Tells chart ⟨x, [expected]⟩ :=
  ⟨hx, rfl⟩

theorem Failure.tells_unexpected (hx : here.place? chart = some x) :
    (Failure.unexpected here).Tells chart ⟨x, []⟩ :=
  ⟨hx, rfl⟩

theorem Failure.Tells.merge [DecidableEq V] [MatchValue V] (h : f.Tells chart r)
    (h' : f'.Tells chart r') : (f.merge f').Tells chart ((lazyTape R).merge r r') := by
  have hoffset : (lazyTape R).offset r.furthest = f.furthest.offset :=
    Cursor.offset_of_place? h.furthest
  have hoffset' : (lazyTape R).offset r'.furthest = f'.furthest.offset :=
    Cursor.offset_of_place? h'.furthest
  rw [Failure.merge, Tape.merge, hoffset, hoffset']
  split_ifs
  · exact ⟨h'.furthest, h'.expected⟩
  · omega
  · refine ⟨h.furthest, ?_⟩
    simp only [h.expected, h'.expected]
  · exact ⟨h.furthest, h.expected⟩
  · omega

theorem Failure.Tells.relabel [DecidableEq V] [MatchValue V] (h : f.Tells chart r)
    (hx : f.position.place? chart = some x) (rule : String) :
    (f.relabel rule).Tells chart ((lazyTape R).relabel rule x r) := by
  have hoffset : (lazyTape R).offset r.furthest = f.furthest.offset :=
    Cursor.offset_of_place? h.furthest
  have hoffset' : (lazyTape R).offset x = f.position.offset := Cursor.offset_of_place? hx
  rw [Failure.relabel, Tape.relabel, hoffset, hoffset']
  split_ifs
  · exact ⟨h.furthest, rfl⟩
  · exact h

theorem Failure.position_relabel (f : Failure V) (rule : String) :
    (f.relabel rule).position = f.position := by
  unfold Failure.relabel
  split_ifs <;> rfl

end Failures

/-! ## What an addressee does -/

variable [DecidableEq V] {w : World V} {body : Pattern V} {rest : List (Pattern V)}
  {values : List V} {needsOne : Bool}

/-- The addressee of an item asks for the next items, or passes on that the item did not match. -/
theorem Told.items (w : World V)
    (h : Told chart here (.nextItem start rest values ok fail) (.backTo start fail) o m) :
    (∃ y v stop, o = .matched y v ∧ stop.place? chart = some y ∧
      receive m w = (matchItems start ok fail stop (v :: values) rest, w)) ∨
    ∃ m', o.isMatched = false ∧ receive m w = ([.send m'], w) ∧ Told chart start ok fail o m' := by
  cases h with
  | matched hy => exact .inl ⟨_, _, _, rfl, hy, rfl⟩
  | refused hp hr => exact .inr ⟨_, rfl, rfl, .refused rfl (hr.startingAt start)⟩

/-- The addressee of an alternative passes on that it matched, or asks for the next ones. -/
theorem Told.alternatives (w : World V) {failed : Option (Failure V)}
    {failed' : Option (Refusal (Place V) V)} (hfailed : Option.Rel (Failure.Tells chart) failed failed')
    (h : Told chart start ok (.nextAlternative start rest failed ok fail) o m) :
    (∃ r f, o = .refused r ∧ f.Tells chart ((lazyTape R).mergeInto failed' r) ∧
      receive m w = (tryAlternatives start ok fail (some f) rest, w)) ∨
    o.isRefused = false ∧ Told chart start ok fail o m := by
  cases h with
  | matched hy => exact .inr ⟨rfl, .matched hy⟩
  | @refused f r hp hr =>
    left
    cases hfailed with
    | none => exact ⟨r, f, rfl, hr, rfl⟩
    | @some f₀ r₀ hr₀ => exact ⟨r, f₀.merge f, rfl, hr₀.merge hr, rfl⟩

/-- The addressee of the body of a repetition asks for the body again, or ends the repetition. -/
theorem Told.again (w : World V) (hx : here.place? chart = some x)
    (h : Told chart here (.again body needsOne start values ok fail)
      (.enough needsOne start here values ok fail) o m) :
    (∃ y v stop, o = .matched y v ∧ (lazyTape R).offset x < (lazyTape R).offset y ∧
      stop.place? chart = some y ∧
      receive m w = (matchAgain body needsOne start ok fail stop (v :: values), w)) ∨
    ∃ m', (lazyTape R).consumes x o = false ∧ receive m w = ([.send m'], w) ∧
      Told chart start ok fail (o.ending x needsOne values) m' := by
  have hoffset : (lazyTape R).offset x = here.offset := Cursor.offset_of_place? hx
  cases h with
  | @matched stop y v hy =>
    have hoffset' : (lazyTape R).offset y = stop.offset := Cursor.offset_of_place? hy
    by_cases hlt : here.offset < stop.offset
    · -- the body moved on, and is tried again behind its match
      left
      refine ⟨y, v, stop, rfl, by rw [hoffset, hoffset']; exact hlt, hy, ?_⟩
      simp only [receive, onSuccess, Success.consumed]
      rw [if_neg (by omega)]
    · -- the body consumed nothing: its match is the last one
      right
      refine ⟨_, ?_, ?_, .matched hy⟩
      · simp only [Tape.consumes, hoffset, hoffset', hlt, decide_false]
      · simp only [receive, onSuccess, Success.consumed, finishRepetition, succeed]
        rw [if_pos (by omega)]
  | @refused f r hp hr =>
    right
    -- a refusal ends the repetition, or refuses it when the first match was needed
    by_cases hlacks : lacksOne needsOne values = true
    · refine ⟨.failure fail (f.startingAt start), rfl, ?_, ?_⟩
      · simp only [receive, onFailure, hlacks, if_true]
        rfl
      · rw [Verdict.ending, if_pos hlacks]
        exact .refused rfl (hr.startingAt start)
    · refine ⟨.success ok ⟨start, here, MatchValue.list values.reverse⟩, rfl, ?_, ?_⟩
      · simp only [receive, onFailure, if_neg hlacks]
        rfl
      · rw [Verdict.ending, if_neg hlacks]
        exact .matched hx

/-- The addressee of the body of an option tells the verdict of the option. -/
theorem Told.optional (w : World V) (hx : start.place? chart = some x)
    (h : Told chart start (.found ok) (.missing start ok) o m) :
    ∃ m', receive m w = ([.send m'], w) ∧ Told chart start ok fail (o.optional x) m' := by
  cases h with
  | matched hy => exact ⟨_, rfl, .matched hy⟩
  | refused _ _ => exact ⟨_, rfl, .matched hx⟩

/-- The addressee of the body of a lookahead tells the verdict of the lookahead. -/
theorem Told.not (w : World V) (hx : start.place? chart = some x)
    (h : Told chart start (.unwanted start fail) (.absent start ok) o m) :
    ∃ m', receive m w = ([.send m'], w) ∧ Told chart start ok fail (o.not x) m' := by
  cases h with
  | matched hy => exact ⟨_, rfl, .refused rfl (Failure.tells_unexpected hx)⟩
  | refused _ _ => exact ⟨_, rfl, .matched hx⟩

/-- Who is told that the body of a rule matched. -/
def ruleOk (ref : RuleRef) (transform : Option (Transform V)) (ok : OnSuccess V) : OnSuccess V :=
  match transform with
  | none => ok
  | some f => .transform ref f ok

/-- The addressees of the body of a rule tell the verdict of the rule, now or after one step. -/
theorem Told.rule (w : World V) (hx : start.place? chart = some x) {ref : RuleRef}
    {transform : Option (Transform V)}
    (h : Told chart start (ruleOk ref transform ok) (.relabel ref.name fail) o m) :
    Told chart start ok fail ((lazyTape R).reduce ref.name transform x o) m ∨
    ∃ w', w.Quiet w' ∧ w'.cells = w.cells ∧
      ((∃ m', receive m w = ([.send m'], w') ∧
          Told chart start ok fail ((lazyTape R).reduce ref.name transform x o) m') ∨
        ∃ fault, receive m w = ([.halt fault], w') ∧
          (lazyTape R).reduce ref.name transform x o = .broken (.fault fault)) := by
  cases h with
  | @matched stop y v hy =>
    cases transform with
    | none => exact .inl (.matched hy)
    | some g =>
      right
      -- The transform is given the span of the match, as it is derived.
      have hspan : (⟨(lazyTape R).position x, (lazyTape R).position y⟩ : Span) =
          (⟨start, stop, v⟩ : Success V).span := by
        simp only [Success.span, ← Cursor.position_of_place? hx, ← Cursor.position_of_place? hy]
        rfl
      refine ⟨{ w with invocations := ⟨ref, v, ⟨start.position, stop.position⟩⟩ :: w.invocations },
        ⟨rfl, rfl, rfl⟩, rfl, ?_⟩
      simp only [Tape.reduce, hspan]
      simp only [ruleOk, receive, onSuccess]
      cases g ref.name v (⟨start, stop, v⟩ : Success V).span with
      | ok value => exact .inl ⟨_, rfl, .matched hy⟩
      | error reason => exact .inr ⟨_, rfl, rfl⟩
  | @refused f r hp hr =>
    -- the failure is relabelled and goes on to who waits for the rule
    refine .inr ⟨w, .refl w, rfl, .inl ⟨_, rfl, ?_⟩⟩
    refine .refused ((f.position_relabel _).trans hp) (hr.relabel ?_ _)
    rw [hp]
    exact hx

/-! ## What a cell does -/

section Cells

variable {B : Nat → Prop} {id : Nat} {cell : Cell V} {customer : OnCursor V} {σ β : Source V}

/-- A cell that has stepped over what precedes its token asks for the token. -/
theorem Told.skipped (hcell : w.cells[id]? = some cell) (hx : here.place? chart = some x)
    (h : Told chart here (.skipped id) (.unskipped id here) o m) :
    ∃ y c, o.skipped x = .ok y ∧ c.place? chart = some y ∧ receive m w = (cell.lexAt id c, w) := by
  cases h with
  | @matched stop y v hy =>
    exact ⟨y, stop, rfl, hy, by simp only [receive, onSuccess, withCell, hcell]⟩
  | @refused f r hp hr =>
    exact ⟨x, here, rfl, hx, by simp only [receive, onFailure, withCell, hcell]⟩

omit [MatchValue V] [DecidableEq V] in
theorem Cell.place?_endAt (cell : Cell V) (hx : here.place? chart = some x) {f : Failure V}
    {r : Refusal (Place V) V} (hp : f.position = here) (hr : f.Tells chart r) :
    (cell.endAt here f).place? chart = some (x.endAt cell.index r) := by
  have hfurthest := Cursor.position_of_place? hr.furthest
  have hfound := Cursor.token?_of_place? hr.furthest
  cases here with
  | token p v rest =>
    simp only [Cursor.place?, Option.map_eq_some_iff] at hx
    obtain ⟨σ, -, rfl⟩ := hx
    simp only [Cell.endAt, Cursor.place?, Failure.stall, hp, ← hfurthest, ← hfound, hr.expected]
    rfl
  | finish p | stalled p f => cases hx; rfl

section Answering

variable {w' : World V} (hid : chart id = some σ) (hB : ¬ B id) (hcell : w.cells[id]? = some cell)
  (hev : Evolves R (fun i => B i ∨ i = id) chart (w.setMemo id (.pending [customer])) chart' w')
include hid hB hcell hev

/-- A cell that is read answers its customer, and is busy no more. -/
theorem Evolves.answers_customer {c : Cursor V} {z : Place V} (hread : Reads R σ (.ok z))
    (hc : c.place? chart' = some z) :
    ∃ w'', resolve id c w' = ([.send (.cursor customer c)], w'') ∧
      Evolves R B chart w chart' w'' := by
  refine ⟨w'.setMemo id (.ready c), ?_, hev.settle hid hB hread hc⟩
  rw [resolve, hev.busy hcell (.inr rfl)]
  rfl

/-- A token that was matched and consumed something is read before the next cell. -/
theorem Told.lexedNext (hy : here.place? chart' = some y) {stop : Cursor V} {z : Place V} {v : V}
    (hz : stop.place? chart' = some z) (hlt : y.offset < z.offset)
    (hread : Reads R σ (readFrom cell.skip cell.token cell.index y (.matched z v))) :
    ∃ c chart'' w'', receive (.success (.lexed id here) ⟨here, stop, v⟩) w' =
        ([.send (.cursor customer c)], w'') ∧
      c.place? chart'' = some (.token (y.positionAt cell.index) v
        (.derived (.fixed z) cell.skip cell.token (cell.index + 1))) ∧
      Evolves R B chart w chart'' w'' := by
  rw [readFrom, if_pos hlt] at hread
  have hconsumed : ¬ (⟨here, stop, v⟩ : Success V).consumed = 0 := by
    rw [Success.consumed, ← Cursor.offset_of_place? hy, ← Cursor.offset_of_place? hz]
    omega
  -- The next cell begins behind the match.
  set next : Cell V := { cell with base := .cursor stop, index := cell.index + 1, memo := .idle }
  have hnext : next.base.source? chart' = some (.fixed z) := by
    simp only [next, Base.source?, hz, Option.map_some]
  obtain ⟨chart'', hle, hnew, hev'⟩ := hev.push next rfl hnext
  have hplace : (Cursor.token (cell.positionAt here) v (.derived w'.cells.size)).place? chart''
      = some (.token (y.positionAt cell.index) v
          (.derived (.fixed z) cell.skip cell.token (cell.index + 1))) := by
    simp only [Cursor.place?, Stream.source?, hnew, Option.map_some, next, Place.positionAt,
      Cell.positionAt, Cursor.position_of_place? hy]
  obtain ⟨w'', hresolve, hev''⟩ := hev'.answers_customer hid hB hcell hread hplace
  refine ⟨_, chart'', w'', ?_, hplace, hev''⟩
  simp only [receive, onSuccess, withCell, hev.busy hcell (.inr rfl), resolveMatch,
    if_neg hconsumed]
  exact hresolve

/-- A token that was matched but consumed nothing is not read: the stream ends there. -/
theorem Told.lexedNothing (hy : here.place? chart' = some y) {stop : Cursor V} {z : Place V} {v : V}
    (hz : stop.place? chart' = some z) (hle : ¬ y.offset < z.offset)
    (hread : Reads R σ (readFrom cell.skip cell.token cell.index y (.matched z v))) :
    ∃ c w'', receive (.success (.lexed id here) ⟨here, stop, v⟩) w' =
        ([.send (.cursor customer c)], w'') ∧
      c.place? chart' = some (.finish (y.positionAt cell.index)) ∧
      Evolves R B chart w chart' w'' := by
  rw [readFrom, if_neg hle] at hread
  have hconsumed : (⟨here, stop, v⟩ : Success V).consumed = 0 := by
    rw [Success.consumed, ← Cursor.offset_of_place? hy, ← Cursor.offset_of_place? hz]
    omega
  have hplace : (Cursor.finish (cell.positionAt here)).place? chart' =
      some (.finish (y.positionAt cell.index)) := by
    simp only [Cursor.place?, Place.positionAt, Cell.positionAt, Cursor.position_of_place? hy]
  obtain ⟨w'', hresolve, hev'⟩ := hev.answers_customer hid hB hcell hread hplace
  refine ⟨_, w'', ?_, hplace, hev'⟩
  simp only [receive, onSuccess, withCell, hev.busy hcell (.inr rfl), resolveMatch,
    if_pos hconsumed]
  exact hresolve

/-- A cell that has tried its token answers its customer. -/
theorem Told.lexed (hy : here.place? chart' = some y)
    (hread : Reads R σ (readFrom cell.skip cell.token cell.index y o))
    (h : Told chart' here (.lexed id here) (.unlexed id here) o m) :
    ∃ c z chart'' w'', receive m w' = ([.send (.cursor customer c)], w'') ∧
      readFrom cell.skip cell.token cell.index y o = .ok z ∧ c.place? chart'' = some z ∧
      Evolves R B chart w chart'' w'' := by
  cases h with
  | @refused f r hp hr =>
    have hplace := cell.place?_endAt hy hp hr
    obtain ⟨w'', hresolve, hev'⟩ := hev.answers_customer hid hB hcell hread hplace
    refine ⟨_, _, chart', w'', ?_, rfl, hplace, hev'⟩
    simp only [receive, onFailure, withCell, hev.busy hcell (.inr rfl)]
    exact hresolve
  | @matched stop z v hz =>
    by_cases hlt : y.offset < z.offset
    · obtain ⟨c, chart'', w'', hreceive, hplace, hev'⟩ :=
        Told.lexedNext hid hB hcell hev hy hz hlt hread
      exact ⟨c, _, chart'', w'', hreceive, by rw [readFrom, if_pos hlt], hplace, hev'⟩
    · obtain ⟨c, w'', hreceive, hplace, hev'⟩ :=
        Told.lexedNothing hid hB hcell hev hy hz hlt hread
      exact ⟨c, _, chart', w'', hreceive, by rw [readFrom, if_neg hlt], hplace, hev'⟩

end Answering

end Cells

/-! ## How the work ends -/

/-- The fault that a break halts the loop with, if it does. -/
def Break.fault? : Break → Option Fault
  | .fault f => some f
  | .silence => none

/-- A verdict of `P` is told. -/
def Answered (R : Rulebook V) (B : Nat → Prop) (chart : Chart V) (w : World V)
    (P : Verdict (Place V) V → Prop) (start : Cursor V) (ok : OnSuccess V) (fail : OnFailure V)
    (m : Delivery V) (w' : World V) : Prop :=
  ∃ chart' o, Evolves R B chart w chart' w' ∧ P o ∧ Told chart' start ok fail o m

/-- A customer is given a place of `P`. -/
def Delivered (R : Rulebook V) (B : Nat → Prop) (chart : Chart V) (w : World V)
    (P : Except Break (Place V) → Prop) (customer : OnCursor V) (m : Delivery V) (w' : World V) :
    Prop :=
  ∃ chart' x c, Evolves R B chart w chart' w' ∧ P (.ok x) ∧ c.place? chart' = some x ∧
    m = .cursor customer c

/-- The thread has ended because of a break of `P`, and nothing was answered. -/
def BrokeOff (w : World V) (P : Break → Prop) (f : Option Fault) (w' : World V) : Prop :=
  ∃ b, P b ∧ b.fault? = f ∧ w.Quiet w'

end Humus.Peg
