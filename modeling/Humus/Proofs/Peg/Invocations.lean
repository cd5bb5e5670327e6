import Humus.Proofs.Peg.Evaluation
import Humus.Proofs.Peg.Totality

/-!
# Invocations of transforms

A transform is invoked when an addressee of a rule hears that the body of the rule matched, many
deliveries after the request to the rule. The invocations of a parse are nevertheless those of the
evaluation of its pattern, each made once and in the same order.

Texts and lists take no cell, so that a cursor behind a token is known as soon as it is asked for.
What a match does to the world is then no more than to invoke transforms, to seal grammars and to
count requests.

## Main definitions

* `Tape.Plain T cur`: the places of `T` are cursors that take no cell
* `World.Invoked w log w'`: from `w` to `w'` the transforms of `log` were invoked
* `Replies cur start ok fail o m`: the message tells the verdict `o`
* `EnactsFrom`, `Enacts`: a thread comes to a verdict and invokes the transforms of a log

## Main results

* `Evaluates.enactsTask`: the work on a task comes to what is evaluated
* `invocations_of_parse`: the invocations of a parse are those of its evaluation
-/

namespace Humus.Peg

open Dispatch (Effect Loop Stop After Reaches Ends)

variable {C V : Type} [MatchValue V]

/-! ## Inputs without cells -/

/-- The places of the input are cursors of streams that take no cell: who asks for the cursor behind
a token is answered with the next delivery. -/
structure Tape.Plain (T : Tape C V) (cur : C → Cursor V) : Prop where
  token? (x : C) : (cur x).token? = T.token? x
  position (x : C) : (cur x).position = T.position x
  next {x : C} {r : Except Break C} : T.next x r → ∃ y p v rest, r = .ok y ∧
    cur x = .token p v rest ∧
    ∀ customer w, answerStream customer w rest = (deliver customer (cur y), w)

/-- The cursor at token `i`. -/
def Input.cursor (input : Input V) (i : Nat) : Cursor V :=
  match input with
  | text s => charCursor ((text (V := V) s).position i) (s.toList.drop i)
  | items l => valueCursor i (l.drop i)

/-! ## Verdicts and messages -/

/-- From `w` to `w'` the transforms of `log` were invoked. Nothing was answered, and no rule has
changed. -/
structure World.Invoked (w : World V) (log : List (Invocation V)) (w' : World V) : Prop where
  rulebook : w'.rulebook = w.rulebook
  answers : w'.answers = w.answers
  invocations : w'.invocations = log.reverse ++ w.invocations

/-- The message tells `ok` or `fail` the verdict of a match that began at `start`. -/
inductive Replies (cur : C → Cursor V) (start : Cursor V) (ok : OnSuccess V) (fail : OnFailure V) :
    Verdict C V → Delivery V → Prop where
  | matched {y v} : Replies cur start ok fail (.matched y v) (.success ok ⟨start, cur y, v⟩)
  | refused {r} :
      Replies cur start ok fail (.refused r) (.failure fail ⟨start, cur r.furthest, r.expected⟩)

/-- The effects ask for the work on a task at `x`, whose verdict is to be told as that of a match
that began at `start`. -/
inductive Calls (cur : C → Cursor V) (start : Cursor V) (ok : OnSuccess V) (fail : OnFailure V) :
    Task C V → C → Effects V → Prop where
  | whole {p x} : start = cur x → Calls cur start ok fail (.whole p) x (ask p start ok fail)
  | token {expected test x} : start = cur x → Calls cur start ok fail (.token expected test) x
      (if start.token?.any test then consume ⟨start, ok, fail⟩
        else reject ⟨start, ok, fail⟩ expected)
  | items {rest values x} : Calls cur start ok fail (.items rest values) x
      (matchItems start ok fail (cur x) values rest)
  | alternatives {rest failed x} : start = cur x →
      Calls cur start ok fail (.alternatives rest failed) x
        (tryAlternatives start ok fail
          (failed.map fun r => ⟨start, cur r.furthest, r.expected⟩) rest)
  | again {body needsOne values x} : Calls cur start ok fail (.again body needsOne values) x
      (matchAgain body needsOne start ok fail (cur x) values)

variable [DecidableEq V] {T : Tape C V} {R : Rulebook V} {cur : C → Cursor V} {w w₁ w₂ : World V}
  {start start₁ : Cursor V} {ok ok₁ : OnSuccess V} {fail fail₁ : OnFailure V} {m m' : Delivery V}
  {task : Task C V} {x y : C} {v : V} {o o₁ : Verdict C V} {log log₁ log₂ : List (Invocation V)}
  {p : Effects V × World V} {q : Pattern V} {qs : List (Pattern V)} {values : List V}
  {needsOne : Bool} {r : Refusal C V} {failed : Option (Refusal C V)} {expected : Expected V}
  {test : V → Bool}

/-- A match is broken off, and the transforms of the log were invoked before. -/
def Breaks (w : World V) (o : Verdict C V) (log : List (Invocation V)) (f : Option Fault)
    (w' : World V) : Prop :=
  ∃ b, o = .broken b ∧ b.fault? = f ∧ w.Invoked log w'

/-- The thread at `m` comes to the verdict `o`. The transforms of the log are invoked on the way. -/
abbrev EnactsFrom (cur : C → Cursor V) (w : World V) (o : Verdict C V) (log : List (Invocation V))
    (start : Cursor V) (ok : OnSuccess V) (fail : OnFailure V) : Delivery V → World V → Prop :=
  Reaches receive (fun m w' => Replies cur start ok fail o m ∧ w.Invoked log w') (Breaks w o log)

/-- After `p` the work on a task comes to the verdict `o`. -/
abbrev Enacts (cur : C → Cursor V) (w : World V) (o : Verdict C V) (log : List (Invocation V))
    (start : Cursor V) (ok : OnSuccess V) (fail : OnFailure V) : Effects V × World V → Prop :=
  After (EnactsFrom cur w o log start ok fail) (Breaks w o log)

/-- The work on `task` at `x` comes to the verdict `o`, whoever is to be told. -/
def EnactsTask (cur : C → Cursor V) (R : Rulebook V) (task : Task C V) (x : C) (o : Verdict C V)
    (log : List (Invocation V)) : Prop :=
  ∀ ⦃w start ok fail effects⦄, w.rulebook = R → Calls cur start ok fail task x effects →
    Enacts cur w o log start ok fail (effects, w)

section Worlds

omit [MatchValue V] [DecidableEq V]

theorem World.Invoked.refl (w : World V) : w.Invoked [] w :=
  ⟨rfl, rfl, rfl⟩

theorem World.Invoked.trans (h : w.Invoked log₁ w₁) (h' : w₁.Invoked log₂ w₂) :
    w.Invoked (log₁ ++ log₂) w₂ := by
  refine ⟨h'.rulebook.trans h.rulebook, h'.answers.trans h.answers, ?_⟩
  rw [h'.invocations, h.invocations, List.reverse_append, List.append_assoc]

theorem World.Invoked.sealGrammar (w : World V) (id : Nat) : w.Invoked [] (w.sealGrammar id) :=
  ⟨w.rulebook_sealGrammar id, w.answers_sealGrammar id, w.invocations_sealGrammar id⟩

end Worlds

section Offsets

variable (hT : T.Plain cur)
include hT

omit [DecidableEq V] in
theorem Tape.Plain.offset (x : C) : (cur x).offset = T.offset x :=
  congrArg Position.offset (hT.position x)

/-- The failures of two alternatives are merged as their refusals are. -/
theorem Tape.Plain.merge (start start' : Cursor V) (r r' : Refusal C V) :
    Failure.merge ⟨start, cur r.furthest, r.expected⟩ ⟨start', cur r'.furthest, r'.expected⟩ =
      ⟨start, cur (T.merge r r').furthest, (T.merge r r').expected⟩ := by
  have hr := hT.offset r.furthest
  have hr' := hT.offset r'.furthest
  simp only [Failure.merge, Tape.merge, hr, hr']
  split_ifs <;> first | rfl | omega

end Offsets

/-! ## Composition -/

omit [MatchValue V] [DecidableEq V] in
/-- What is invoked before and after is invoked in turn. -/
theorem Breaks.after (hinv : w.Invoked log₁ w₁) {f : Option Fault} {w' : World V}
    (h : Breaks w₁ o log₂ f w') : Breaks w o (log₁ ++ log₂) f w' := by
  obtain ⟨b, hb, hf, hinv'⟩ := h
  exact ⟨b, hb, hf, hinv.trans hinv'⟩

/-- Work that begins where invocations have led to is work that began where those began. -/
theorem Enacts.after (hinv : w.Invoked log₁ w₁) (h : Enacts cur w₁ o log₂ start ok fail p) :
    Enacts cur w o (log₁ ++ log₂) start ok fail p := by
  refine After.imp h (fun m s hreaches => hreaches.bind ?_ fun _ _ => Breaks.after hinv)
    fun _ _ => Breaks.after hinv
  rintro m s ⟨hreplies, hinv'⟩
  exact .here ⟨hreplies, hinv.trans hinv'⟩

/-- The work on a part is followed by that of the addressees of its verdict. -/
theorem Enacts.bind (h : Enacts cur w o₁ log₁ start₁ ok₁ fail₁ p)
    (hbroken : ∀ b, o₁ = .broken b → o = .broken b ∧ log = log₁)
    (hnext : ∀ m w', Replies cur start₁ ok₁ fail₁ o₁ m → w.Invoked log₁ w' →
      EnactsFrom cur w o log start ok fail m w') :
    Enacts cur w o log start ok fail p := by
  have hbreaks : ∀ f s, Breaks w o₁ log₁ f s → Breaks w o log f s := by
    rintro f s ⟨b, hb, hf, hinv⟩
    obtain ⟨ho, rfl⟩ := hbroken b hb
    exact ⟨b, ho, hf, hinv⟩
  refine After.imp h (fun m s hreaches => hreaches.bind ?_ hbreaks) hbreaks
  rintro m s ⟨hreplies, hinv⟩
  exact hnext m s hreplies hinv

/-- An addressee goes on with the work. -/
theorem EnactsFrom.next (hinv : w.Invoked log₁ w₁)
    (h : Enacts cur w₁ o log₂ start ok fail (receive m w₁)) :
    EnactsFrom cur w o (log₁ ++ log₂) start ok fail m w₁ :=
  Reaches.step (h.after hinv)

/-- An addressee tells the verdict. -/
theorem EnactsFrom.tell (hreceive : receive m w₁ = ([.send m'], w₂)) (hinv : w.Invoked log w₂)
    (hreplies : Replies cur start ok fail o m') : EnactsFrom cur w o log start ok fail m w₁ :=
  .send hreceive (.here ⟨hreplies, hinv⟩)

/-! ## Patterns -/

namespace EnactsTask

/-- The request to a pattern that passes it on unchanged to its parts. -/
theorem whole (h : EnactsTask cur R task x o log)
    (hcalls : ∀ ok fail w, ∃ effects, receive (.request q ⟨cur x, ok, fail⟩) w = (effects, w) ∧
      Calls cur (cur x) ok fail task x effects) : EnactsTask cur R (.whole q) x o log := by
  intro w start ok fail effects hw hc
  cases hc with
  | whole hstart =>
    subst hstart
    obtain ⟨effects, hreceive, hc⟩ := hcalls ok fail w
    refine Reaches.step ?_
    rw [hreceive]
    exact h hw hc

section Tokens

variable (hT : T.Plain cur)
include hT

/-- A token is taken, and the cursor behind it is known with the next delivery. -/
theorem token {r : Except Break C} (hv : T.token? x = some v) (ht : test v = true)
    (hr : T.next x r) : EnactsTask cur R (.token expected test) x (.taking v r) [] := by
  intro w start ok fail effects hw hc
  cases hc with
  | token hstart =>
    subst hstart
    have htoken : (cur x).token? = some v := (hT.token? x).trans hv
    obtain ⟨y, p, u, rest, rfl, hx, hanswer⟩ := hT.next hr
    rw [if_pos (by rw [htoken]; exact ht), hx]
    rw [hx] at htoken
    cases htoken
    exact .send (hanswer _ _) (EnactsFrom.tell rfl (.refl w) .matched)

theorem tokenRefused (ht : (T.token? x).any test = false) :
    EnactsTask cur R (.token expected test) x (.refused ⟨x, [expected]⟩) [] := by
  intro w start ok fail effects hw hc
  cases hc with
  | token hstart =>
    subst hstart
    rw [hT.token? x, if_neg (Bool.eq_false_iff.mp ht)]
    exact .here ⟨.refused, .refl w⟩

theorem finish (hv : T.token? x = none) :
    EnactsTask cur R (.whole .finish) x (.matched x MatchValue.nothing) [] := by
  intro w start ok fail effects hw hc
  cases hc with
  | whole hstart =>
    subst hstart
    have htoken : (cur x).token? = none := (hT.token? x).trans hv
    have hreceive : receive (.request .finish ⟨cur x, ok, fail⟩) w =
        (succeed ok (emptySuccess (cur x)), w) := by
      simp only [receive, matchPattern, Cursor.isEnd_eq, htoken, Option.isNone_none, if_true]
    exact .tell hreceive (.refl w) .matched

theorem finishRefused (hv : T.token? x = some v) :
    EnactsTask cur R (.whole .finish) x (.refused ⟨x, [.endOfInput]⟩) [] := by
  intro w start ok fail effects hw hc
  cases hc with
  | whole hstart =>
    subst hstart
    have htoken : (cur x).token? = some v := (hT.token? x).trans hv
    have hreceive : receive (.request .finish ⟨cur x, ok, fail⟩) w =
        (reject ⟨cur x, ok, fail⟩ .endOfInput, w) := by
      simp only [receive, matchPattern, Cursor.isEnd_eq, htoken, Option.isNone_some]
      rfl
    exact .tell hreceive (.refl w) .refused

end Tokens

theorem itemsDone :
    EnactsTask cur R (.items [] values) x (.matched x (MatchValue.list values.reverse)) [] := by
  intro w start ok fail effects hw hc
  cases hc with
  | items => exact .here ⟨.matched, .refl w⟩

theorem itemsNext (h : EnactsTask cur R (.whole q) x (.matched y v) log₁)
    (h' : EnactsTask cur R (.items qs (v :: values)) y o log₂) :
    EnactsTask cur R (.items (q :: qs) values) x o (log₁ ++ log₂) := by
  intro w start ok fail effects hw hc
  cases hc with
  | items =>
    refine (h hw (.whole rfl)).bind (fun b hb => by cases hb) ?_
    rintro m w' ⟨⟩ hinv
    -- the next item is asked behind the one that matched
    exact .next hinv (h' (hinv.rulebook.trans hw) .items)

theorem itemsStop (h : EnactsTask cur R (.whole q) x o log) (hm : o.isMatched = false) :
    EnactsTask cur R (.items (q :: qs) values) x o log := by
  intro w start ok fail effects hw hc
  cases hc with
  | items =>
    refine (h hw (.whole rfl)).bind (fun b hb => ⟨hb, rfl⟩) ?_
    rintro m w' (_ | _) hinv
    · cases hm
    · exact .tell rfl hinv .refused

theorem alternativesDone :
    EnactsTask cur R (.alternatives [] failed) x (.refused (failed.getD ⟨x, []⟩)) [] := by
  intro w start ok fail effects hw hc
  cases hc with
  | alternatives hstart =>
    subst hstart
    cases failed with
    | none => exact .here ⟨.refused, .refl w⟩
    | some r => exact .here ⟨.refused, .refl w⟩

section Offsets

variable (hT : T.Plain cur)
include hT

theorem alternativesNext (h : EnactsTask cur R (.whole q) x (.refused r) log₁)
    (h' : EnactsTask cur R (.alternatives qs (some (T.mergeInto failed r))) x o log₂) :
    EnactsTask cur R (.alternatives (q :: qs) failed) x o (log₁ ++ log₂) := by
  intro w start ok fail effects hw hc
  cases hc with
  | alternatives hstart =>
    subst hstart
    refine (h hw (.whole rfl)).bind (fun b hb => by cases hb) ?_
    rintro m w' ⟨⟩ hinv
    refine .next hinv ?_
    have hcalls := @h' w' (cur x) ok fail _ (hinv.rulebook.trans hw) (.alternatives rfl)
    -- the refusal is merged into those of the alternatives before
    cases failed with
    | none => exact hcalls
    | some r₀ =>
      rw [Option.map_some, Tape.mergeInto, ← hT.merge (cur x) (cur x)] at hcalls
      exact hcalls

theorem againNext (h : EnactsTask cur R (.whole q) x (.matched y v) log₁)
    (hlt : T.offset x < T.offset y)
    (h' : EnactsTask cur R (.again q needsOne (v :: values)) y o log₂) :
    EnactsTask cur R (.again q needsOne values) x o (log₁ ++ log₂) := by
  intro w start ok fail effects hw hc
  cases hc with
  | again =>
    refine (h hw (.whole rfl)).bind (fun b hb => by cases hb) ?_
    rintro m w' ⟨⟩ hinv
    refine .next hinv ?_
    have hconsumed : ¬ (⟨cur x, cur y, v⟩ : Success V).consumed = 0 := by
      simp only [Success.consumed, hT.offset]
      omega
    simp only [receive, onSuccess, if_neg hconsumed]
    exact h' (hinv.rulebook.trans hw) .again

theorem againStop (h : EnactsTask cur R (.whole q) x o log) (hc : T.consumes x o = false) :
    EnactsTask cur R (.again q needsOne values) x (o.ending x needsOne values) log := by
  intro w start ok fail effects hw hcalls
  cases hcalls with
  | again =>
    refine (h hw (.whole rfl)).bind (fun b hb => ⟨by rw [hb]; rfl, rfl⟩) ?_
    rintro m w' (@⟨y, v⟩ | @⟨r⟩) hinv
    · -- the last iteration consumed nothing
      have hconsumed : (⟨cur x, cur y, v⟩ : Success V).consumed = 0 := by
        have hle := of_decide_eq_false hc
        simp only [Success.consumed, hT.offset]
        omega
      refine .tell ?_ hinv .matched
      simp only [receive, onSuccess, if_pos hconsumed]
      rfl
    · by_cases hlacks : lacksOne needsOne values = true
      · rw [Verdict.ending, if_pos hlacks]
        refine .tell ?_ hinv .refused
        simp only [receive, onFailure, hlacks, if_true]
        rfl
      · rw [Verdict.ending, if_neg hlacks]
        refine .tell ?_ hinv .matched
        simp only [receive, onFailure, if_neg hlacks]
        rfl

end Offsets

theorem alternativesStop (h : EnactsTask cur R (.whole q) x o log) (hm : o.isRefused = false) :
    EnactsTask cur R (.alternatives (q :: qs) failed) x o log := by
  intro w start ok fail effects hw hc
  cases hc with
  | alternatives hstart =>
    subst hstart
    refine (h hw (.whole rfl)).bind (fun b hb => ⟨hb, rfl⟩) ?_
    rintro m w' (_ | _) hinv
    · exact .here ⟨.matched, hinv⟩
    · cases hm

theorem optional (h : EnactsTask cur R (.whole q) x o log) :
    EnactsTask cur R (.whole (.optional q)) x (o.optional x) log := by
  intro w start ok fail effects hw hc
  cases hc with
  | whole hstart =>
    subst hstart
    refine Reaches.step ((h hw (.whole rfl)).bind (fun b hb => ⟨by rw [hb]; rfl, rfl⟩) ?_)
    rintro m w' (_ | _) hinv
    · exact .tell rfl hinv .matched
    · exact .tell rfl hinv .matched

theorem not (h : EnactsTask cur R (.whole q) x o log) :
    EnactsTask cur R (.whole (.not q)) x (o.not x) log := by
  intro w start ok fail effects hw hc
  cases hc with
  | whole hstart =>
    subst hstart
    refine Reaches.step ((h hw (.whole rfl)).bind (fun b hb => ⟨by rw [hb]; rfl, rfl⟩) ?_)
    rintro m w' (_ | _) hinv
    · exact .tell rfl hinv .refused
    · exact .tell rfl hinv .matched

/-! ## Rules -/

/-- A rule that has no body raises a fault. -/
theorem ruleUnknown {ref : RuleRef} {fault : Fault} (hR : R ref = .error fault) :
    EnactsTask cur R (.whole (.rule ref)) x (.broken (.fault fault)) [] := by
  intro w start ok fail effects hw hc
  cases hc with
  | whole hstart =>
    refine Reaches.step ?_
    simp only [receive, matchPattern, matchRule_eq, hw, hR]
    exact ⟨.fault fault, rfl, rfl, World.Invoked.sealGrammar w ref.grammar⟩

/-- **A rule with a transform invokes it once**, behind what its body invokes, with the value of the
body and the region that the body consumed. -/
theorem rule (hT : T.Plain cur) {ref : RuleRef} {transform : Option (Transform V)}
    (hR : R ref = .ok (q, transform)) (h : EnactsTask cur R (.whole q) x o log) :
    EnactsTask cur R (.whole (.rule ref)) x (T.reduce ref.name transform x o)
      (log ++ T.invokes ref transform x o) := by
  intro w start ok fail effects hw hc
  cases hc with
  | whole hstart =>
    subst hstart
    have hseal := World.Invoked.sealGrammar w ref.grammar
    refine Reaches.step ?_
    simp only [receive, matchPattern, matchRule_eq, hw, hR]
    have hcalls : Calls cur (cur x) (ruleOk ref transform ok) (.relabel ref.name fail) (.whole q) x
        _ := .whole rfl
    have hbody := (h (hseal.rulebook.trans hw) hcalls).after hseal
    refine Enacts.bind hbody (fun b hb => ?_) ?_
    · rw [hb]
      exact ⟨rfl, List.append_nil _⟩
    rintro m w' (@⟨y, v⟩ | @⟨r⟩) hinv
    · cases transform with
      | none =>
        -- the verdict of the body is that of the rule
        exact .here ⟨.matched, by simpa [Tape.invokes] using hinv⟩
      | some f =>
        have hspan : (⟨T.position x, T.position y⟩ : Span) =
            (⟨cur x, cur y, v⟩ : Success V).span := by
          simp only [Success.span, hT.position]
        have hinvoked : w.Invoked (log ++ T.invokes ref (some f) x (.matched y v))
            { w' with invocations :=
                ⟨ref, v, (⟨cur x, cur y, v⟩ : Success V).span⟩ :: w'.invocations } := by
          refine ⟨hinv.rulebook, hinv.answers, ?_⟩
          simp only [Tape.invokes, hspan, hinv.invocations]
          simp
        simp only [Tape.reduce, hspan]
        -- the transform accepts the value, or it refuses it and halts the loop
        cases hf : f ref.name v (⟨cur x, cur y, v⟩ : Success V).span with
        | ok u =>
          refine .tell ?_ hinvoked .matched
          simp only [ruleOk, receive, onSuccess, hf]
          rfl
        | error reason =>
          refine Reaches.step ?_
          simp only [ruleOk, receive, onSuccess, hf]
          exact ⟨_, rfl, rfl, hinvoked⟩
    · refine .tell rfl (by simpa [Tape.invokes] using hinv) ?_
      have hr := hT.offset r.furthest
      have hx := hT.offset x
      simp only [Failure.relabel, Tape.reduce, Tape.relabel, hr, hx]
      split_ifs <;> exact .refused

theorem tally {counter : String} (h : EnactsTask cur R (.whole q) x o log) :
    EnactsTask cur R (.whole (.tally counter q)) x o log := by
  intro w start ok fail effects hw hc
  cases hc with
  | whole hstart =>
    have hcount : w.Invoked [] (w.count counter) := ⟨rfl, rfl, rfl⟩
    refine Reaches.step (Reaches.step ?_)
    exact (h (hcount.rulebook.trans hw) (.whole hstart)).after hcount

theorem silent : EnactsTask cur R (.whole .silent) x (.broken .silence) [] := by
  intro w start ok fail effects hw hc
  cases hc with
  | whole hstart => exact Reaches.step (Reaches.step ⟨.silence, rfl, rfl, .refl w⟩)

end EnactsTask

/-- **The work on a task comes to what is evaluated.** -/
theorem Evaluates.enactsTask (hT : T.Plain cur) (h : Evaluates T R task x o log) :
    EnactsTask cur R task x o log := by
  induction h with
  -- These patterns pass the request on to their parts in the same delivery.
  | @terminal value x _ _ _ ih =>
    refine ih.whole fun ok fail w => ⟨_, ?_, .token rfl⟩
    simp only [receive, matchPattern, ← any_eq_iff]
  | predicate _ ih => exact ih.whole fun _ _ _ => ⟨_, rfl, .token rfl⟩
  | @any x _ _ _ ih =>
    refine ih.whole fun ok fail w => ⟨_, ?_, .token rfl⟩
    cases cur x <;> rfl
  | sequence _ ih => exact ih.whole fun _ _ _ => ⟨_, rfl, .items⟩
  | choice _ ih => exact ih.whole fun _ _ _ => ⟨_, rfl, .alternatives rfl⟩
  | zeroOrMore _ ih => exact ih.whole fun _ _ _ => ⟨_, rfl, .again⟩
  | oneOrMore _ ih => exact ih.whole fun _ _ _ => ⟨_, rfl, .again⟩
  | token hv ht hr => exact .token hT hv ht hr
  | tokenRefused ht => exact .tokenRefused hT ht
  | finish hv => exact .finish hT hv
  | finishRefused hv => exact .finishRefused hT hv
  | itemsDone => exact .itemsDone
  | itemsNext _ _ ih ih' => exact .itemsNext ih ih'
  | itemsStop _ hm ih => exact .itemsStop ih hm
  | alternativesDone => exact .alternativesDone
  | alternativesNext _ _ ih ih' => exact .alternativesNext hT ih ih'
  | alternativesStop _ hm ih => exact .alternativesStop ih hm
  | againNext _ hlt _ ih ih' => exact .againNext hT ih hlt ih'
  | againStop _ hc ih => exact .againStop hT ih hc
  | optional _ ih => exact ih.optional
  | not _ ih => exact ih.not
  | ruleUnknown hR => exact .ruleUnknown hR
  | rule hR _ ih => exact .rule hT hR ih
  | tally _ ih => exact ih.tally
  | silent => exact .silent

/-! ## Parses -/

omit [DecidableEq V] in
theorem token?_charCursor (p : Position) (text : List Char) :
    (charCursor p text : Cursor V).token? = text.head?.map MatchValue.ofChar := by
  cases text <;> rfl

omit [DecidableEq V] in
theorem position_charCursor (p : Position) (text : List Char) :
    (charCursor p text : Cursor V).position = p := by
  cases text <;> rfl

omit [MatchValue V] [DecidableEq V] in
theorem token?_valueCursor (index : Nat) (items : List V) :
    (valueCursor index items).token? = items.head? := by
  cases items <;> rfl

omit [MatchValue V] [DecidableEq V] in
theorem position_valueCursor (index : Nat) (items : List V) :
    (valueCursor index items).position = ⟨index, 0, index⟩ := by
  cases items <;> rfl

omit [DecidableEq V] in
/-- The cursors of a text or of a list take no cell. -/
theorem Input.plain (input : Input V) : input.tape.Plain input.cursor where
  token? i := by
    cases input with
    | text s =>
      rw [Input.cursor, token?_charCursor, List.head?_drop]
      exact (List.getElem?_map ..).symm
    | items l =>
      rw [Input.cursor, token?_valueCursor, List.head?_drop]
      rfl
  position i := by
    cases input with
    | text s => exact position_charCursor ..
    | items l => exact position_valueCursor ..
  next := by
    rintro i r ⟨hlt, rfl⟩
    cases input with
    | text s =>
      have hi : i < s.toList.length := by simpa [Input.tokens] using hlt
      have hx : (text (V := V) s).cursor i = .token ((text (V := V) s).position i)
          (MatchValue.ofChar s.toList[i]) (.chars (s.toList.drop (i + 1))
            (((text (V := V) s).position i).after s.toList[i])) := by
        rw [Input.cursor, List.drop_eq_getElem_cons hi]
        rfl
      refine ⟨i + 1, _, _, _, rfl, hx, fun customer w => ?_⟩
      -- the position behind a character is that of the character, moved on by it
      rw [Input.cursor, Input.position, Input.position, List.take_succ_eq_append_getElem hi,
        List.foldl_append]
      rfl
    | items l =>
      have hi : i < l.length := hlt
      have hx : (items l).cursor i =
          .token ⟨i, 0, i⟩ l[i] (.values (l.drop (i + 1)) (i + 1)) := by
        rw [Input.cursor, List.drop_eq_getElem_cons hi]
        rfl
      exact ⟨i + 1, _, _, _, rfl, hx, fun customer w => rfl⟩

/-- The run of a match comes to what is evaluated. -/
theorem Evaluates.exists_parse (hT : T.Plain cur) {s : Stream V}
    (hs : ∀ customer w, answerStream customer w s = (deliver customer (cur x), w))
    (h : Evaluates T w.rulebook (.whole q) x o log) :
    ∃ fuel out w', parse fuel none q s w = some (out, w') ∧ out.report = o.report T.position x ∧
      w'.invocations = log.reverse ++ w.invocations := by
  -- The stream is asked, then the pattern at its first cursor.
  have hreaches : Reaches receive
      (fun m w' => Replies cur (cur x) (.report 0) (.report 0) o m ∧
        World.Invoked { w with answers := [] } log w')
      (Breaks { w with answers := [] } o log) (.ask s (matcher q 0)) { w with answers := [] } :=
    .send (hs _ _) (Reaches.step (h.enactsTask hT (w := { w with answers := [] }) rfl (.whole rfl)))
  have hlast : ∀ m s, Replies cur (cur x) (.report 0) (.report 0) o m ∧
      World.Invoked { w with answers := [] } log s → ∃ s', receive m s = ([], s') := by
    rintro m s ⟨_ | _, -⟩
    · exact ⟨_, rfl⟩
    · exact ⟨_, rfl⟩
  obtain ⟨N, hN⟩ :=
    Loop.exists_runFrom hlast hreaches (Loop.holds_send_fresh none _) rfl 0
  obtain ⟨result, loop, w₁, hrun, hends⟩ := hN N le_rfl
  refine ⟨N, outcomeOf result w₁.answers, { w₁ with answers := [] }, ?_, ?_⟩
  · simp only [parse, runMatch, runLoop_eq, hrun]
    rfl
  cases hends with
  | answered hm hreceive =>
    obtain ⟨_ | _, hinv⟩ := hm
    · cases hreceive
      refine ⟨?_, hinv.invocations⟩
      simp only [outcomeOf, Outcome.report, Verdict.report, hT.position]
    · cases hreceive
      refine ⟨?_, hinv.invocations⟩
      simp only [outcomeOf, Outcome.report, Verdict.report, hT.position]
  | idle hbroke =>
    obtain ⟨b, rfl, hf, hinv⟩ := hbroke
    cases b with
    | fault g => cases hf
    | silence => exact ⟨by rw [hinv.answers]; rfl, hinv.invocations⟩
  | fault hbroke =>
    obtain ⟨b, rfl, hf, hinv⟩ := hbroke
    cases b with
    | fault g => cases hf; exact ⟨rfl, hinv.invocations⟩
    | silence => cases hf

/-- **The invocations of a parse are those of its evaluation.** With any rules and any pattern, a
parse of a text or of a list of tokens that is not limited comes to this report and adds these
invocations to those that the world remembers, the newest first, if and only if the pattern
evaluates to this report with this log: one invocation for each match of the body of a rule with a
transform, in the order in which the matches come to their end, and none for anything else. This
includes the matches that are given up later, and the one whose value a transform refuses. -/
theorem invocations_of_parse (input : Input V) (p : Pattern V) (w : World V)
    (r : Report Position V) (log : List (Invocation V)) :
    (∃ fuel out w', parse fuel none p input.stream w = some (out, w') ∧ out.report = r ∧
      w'.invocations = log.reverse ++ w.invocations) ↔
    ∃ o, Evaluates input.tape w.rulebook (.whole p) 0 o log ∧ o.report input.position 0 = r := by
  have hs : ∀ customer w,
      answerStream customer w input.stream = (deliver customer (input.cursor 0), w) := by
    cases input <;> exact fun _ _ => rfl
  constructor
  · rintro ⟨fuel, out, w', hrun, rfl, hlog⟩
    -- What the run comes to is derived, and its evaluation has a run, which can be no other one.
    obtain ⟨σ, xs, hsource, hwalks, htokens, hposition⟩ :=
      input.exists_walks w.rulebook fun _ => none
    have hiff := hwalks.parse_report_iff .empty hsource hposition p out.report
    rw [htokens] at hiff
    obtain ⟨o, ho, hreport⟩ := hiff.mp ⟨fuel, out, w', hrun, rfl⟩
    obtain ⟨log', hevaluates⟩ := Derives.exists_evaluates ho
    obtain ⟨fuel', out', w'', hrun', -, hlog'⟩ := hevaluates.exists_parse input.plain hs
    have hmono := runMatch_mono none (.ask input.stream (matcher p 0)) w
    have hmax := hmono fuel (max fuel fuel') _ (le_max_left ..) hrun
    cases hmax.symm.trans (hmono fuel' (max fuel fuel') _ (le_max_right ..) hrun')
    have hsame : log' = log :=
      List.reverse_inj.mp (List.append_cancel_right (hlog'.symm.trans hlog))
    exact ⟨o, hsame ▸ hevaluates, hreport⟩
  · rintro ⟨o, hevaluates, rfl⟩
    exact hevaluates.exists_parse input.plain hs

end Humus.Peg
