import Humus.Peg.Matching
import Mathlib.Tactic.SplitIfs

/-!
# Derivations

What a pattern matches, by recursion on patterns and rules alone: there are no messages and no
queue. A match is derived from the matches of the parts of its pattern, each at the place where
the one before it ended.

A match comes to one of three verdicts. It stops at a later place with a value, it is refused, or
it breaks off: a fault in the grammar is met, or nobody ever answers. A match that breaks off takes
every match with it that it is a part of, lookaheads and rejected alternatives included.

## Main definitions

* `Tape C V`: an input with places of type `C`
* `Verdict C V`: what a match comes to
* `Task C V`: a pattern to match, or the rest of one
* `Derives T R task x o`: at the place `x`, `task` comes to the verdict `o`

## Main results

* `Derives.agree`: a match comes to one verdict
* `Derives.all`: what holds of a place and of the places behind it holds where a match ends
-/

namespace Humus.Peg

/-- Why a match has no answer. -/
inductive Break where
  /-- A fault in the grammar was met. -/
  | fault (fault : Fault)
  /-- An actor was asked that never answers. -/
  | silence
  deriving DecidableEq

/-- An input as a match sees it, whatever it is made of. -/
structure Tape (C V : Type) where
  /-- The token at a place, `none` at the end. -/
  token? : C → Option V
  position : C → Position
  /-- What comes behind the token of a place. -/
  next : C → Except Break C → Prop

/-- What is known of a refused match. -/
structure Refusal (C V : Type) where
  /-- The furthest place at which a token was refused. -/
  furthest : C
  /-- What would have been accepted there. -/
  expected : List (Expected V)

/-- What a match comes to. -/
inductive Verdict (C V : Type) where
  | matched (stop : C) (value : V)
  | refused (refusal : Refusal C V)
  | broken (why : Break)

/-- A pattern to match, or what is left to do of one. -/
inductive Task (C V : Type) where
  | whole (p : Pattern V)
  /-- One token that passes a test. -/
  | token (expected : Expected V) (test : V → Bool)
  /-- The rest of a sequence, with the values of the items before, newest first. -/
  | items (rest : List (Pattern V)) (values : List V)
  /-- The rest of a choice, with what is known of the alternatives before. -/
  | alternatives (rest : List (Pattern V)) (failed : Option (Refusal C V))
  /-- The rest of a repetition, with the values so far, newest first. -/
  | again (body : Pattern V) (needsOne : Bool) (values : List V)

/-- The rules that patterns refer to: the body and the transform of a rule, or the fault that is
met when it is matched. -/
abbrev Rulebook (V : Type) := RuleRef → Except Fault (Pattern V × Option (Transform V))

variable {C V : Type}

/-- Whether what is left of a task involves an actor from outside. -/
def Task.isForeign : Task C V → Bool
  | .whole p | .again p _ _ => p.isForeign
  | .token .. => false
  | .items rest _ | .alternatives rest _ => Pattern.anyForeign rest

namespace Tape

variable (T : Tape C V)

/-- How many tokens come before a place. -/
def offset (x : C) : Nat :=
  (T.position x).offset

/-- Two refusals at one place: the one that got further counts, and the expectations of two that
got equally far are united. -/
def merge [DecidableEq V] (ours theirs : Refusal C V) : Refusal C V :=
  if T.offset ours.furthest < T.offset theirs.furthest then theirs
  else if T.offset theirs.furthest < T.offset ours.furthest then ours
  else ⟨ours.furthest, Failure.union ours.expected theirs.expected⟩

/-- A refusal behind those of earlier alternatives. -/
def mergeInto [DecidableEq V] (failed : Option (Refusal C V)) (r : Refusal C V) : Refusal C V :=
  match failed with
  | some earlier => T.merge earlier r
  | none => r

/-- A rule that is refused at its start `x` without getting past it was itself expected there. -/
def relabel (rule : String) (x : C) (r : Refusal C V) : Refusal C V :=
  if T.offset r.furthest = T.offset x then { r with expected := [.rule rule] } else r

/-- Whether a match from `x` consumed a token. -/
def consumes (x : C) : Verdict C V → Bool
  | .matched y _ => T.offset x < T.offset y
  | _ => false

end Tape

namespace Verdict

/-- Whether the match succeeded. -/
def isMatched : Verdict C V → Bool
  | .matched .. => true
  | _ => false

/-- Whether the match was refused. -/
def isRefused : Verdict C V → Bool
  | .refused _ => true
  | _ => false

/-- The verdict of a match that takes a token with this value. -/
def taking (value : V) : Except Break C → Verdict C V
  | .ok y => .matched y value
  | .error b => .broken b

variable [MatchValue V]

/-- The verdict of an option at `x` from that of its body. -/
def optional (x : C) : Verdict C V → Verdict C V
  | .matched y v => .matched y (MatchValue.list [v])
  | .refused _ => .matched x (MatchValue.list [])
  | .broken b => .broken b

/-- The verdict of a negative lookahead at `x` from that of its body. -/
def not (x : C) : Verdict C V → Verdict C V
  | .matched .. => .refused ⟨x, []⟩
  | .refused _ => .matched x MatchValue.nothing
  | .broken b => .broken b

/-- The verdict of a repetition that ends at `x`, from that of the last match of its body. A match
that consumed nothing counts only if one was still owed. -/
def ending (x : C) (needsOne : Bool) (values : List V) : Verdict C V → Verdict C V
  | .matched y v =>
    .matched y (MatchValue.list (if lacksOne needsOne values then v :: values else values).reverse)
  | .refused r =>
    if lacksOne needsOne values then .refused r else .matched x (MatchValue.list values.reverse)
  | .broken b => .broken b

end Verdict

/-- The verdict of a rule at `x` from that of its body. -/
def Tape.reduce (T : Tape C V) (name : String) (transform : Option (Transform V)) (x : C) :
    Verdict C V → Verdict C V
  | .matched y v =>
    match transform with
    | none => .matched y v
    | some f =>
      match f name v ⟨T.position x, T.position y⟩ with
      | .ok value => .matched y value
      | .error reason => .broken (.fault (.transform name reason))
  | .refused r => .refused (T.relabel name x r)
  | .broken b => .broken b

/-- At the place `x` of the tape `T`, with the rules `R`, the task comes to a verdict. -/
inductive Derives [MatchValue V] [DecidableEq V] (T : Tape C V) (R : Rulebook V) :
    Task C V → C → Verdict C V → Prop where
  | terminal {value x o} :
      Derives T R (.token (.token value) (· = value)) x o →
      Derives T R (.whole (.terminal value)) x o
  | predicate {label test x o} :
      Derives T R (.token (.label label) test) x o → Derives T R (.whole (.predicate label test)) x o
  | any {x o} :
      Derives T R (.token .anyToken fun _ => true) x o → Derives T R (.whole .any) x o
  | token {expected test x v r} :
      T.token? x = some v → test v = true → T.next x r →
      Derives T R (.token expected test) x (.taking v r)
  | tokenRefused {expected test x} :
      (T.token? x).any test = false →
      Derives T R (.token expected test) x (.refused ⟨x, [expected]⟩)
  | finish {x} :
      T.token? x = none → Derives T R (.whole .finish) x (.matched x MatchValue.nothing)
  | finishRefused {x v} :
      T.token? x = some v → Derives T R (.whole .finish) x (.refused ⟨x, [.endOfInput]⟩)
  | sequence {ps x o} :
      Derives T R (.items ps []) x o → Derives T R (.whole (.sequence ps)) x o
  | itemsDone {values x} :
      Derives T R (.items [] values) x (.matched x (MatchValue.list values.reverse))
  | itemsNext {p ps values x y v o} :
      Derives T R (.whole p) x (.matched y v) → Derives T R (.items ps (v :: values)) y o →
      Derives T R (.items (p :: ps) values) x o
  | itemsStop {p ps values x o} :
      Derives T R (.whole p) x o → o.isMatched = false → Derives T R (.items (p :: ps) values) x o
  | choice {ps x o} :
      Derives T R (.alternatives ps none) x o → Derives T R (.whole (.choice ps)) x o
  | alternativesDone {failed x} :
      Derives T R (.alternatives [] failed) x (.refused (failed.getD ⟨x, []⟩))
  | alternativesNext {p ps failed x r o} :
      Derives T R (.whole p) x (.refused r) →
      Derives T R (.alternatives ps (some (T.mergeInto failed r))) x o →
      Derives T R (.alternatives (p :: ps) failed) x o
  | alternativesStop {p ps failed x o} :
      Derives T R (.whole p) x o → o.isRefused = false →
      Derives T R (.alternatives (p :: ps) failed) x o
  | zeroOrMore {p x o} :
      Derives T R (.again p false []) x o → Derives T R (.whole (.zeroOrMore p)) x o
  | oneOrMore {p x o} :
      Derives T R (.again p true []) x o → Derives T R (.whole (.oneOrMore p)) x o
  | againNext {p needsOne values x y v o} :
      Derives T R (.whole p) x (.matched y v) → T.offset x < T.offset y →
      Derives T R (.again p needsOne (v :: values)) y o →
      Derives T R (.again p needsOne values) x o
  | againStop {p needsOne values x o} :
      Derives T R (.whole p) x o → T.consumes x o = false →
      Derives T R (.again p needsOne values) x (o.ending x needsOne values)
  | optional {p x o} :
      Derives T R (.whole p) x o → Derives T R (.whole (.optional p)) x (o.optional x)
  | not {p x o} :
      Derives T R (.whole p) x o → Derives T R (.whole (.not p)) x (o.not x)
  | ruleUnknown {ref fault x} :
      R ref = .error fault → Derives T R (.whole (.rule ref)) x (.broken (.fault fault))
  | rule {ref body transform x o} :
      R ref = .ok (body, transform) → Derives T R (.whole body) x o →
      Derives T R (.whole (.rule ref)) x (T.reduce ref.name transform x o)
  | tally {counter p x o} :
      Derives T R (.whole p) x o → Derives T R (.whole (.tally counter p)) x o
  | silent {x} :
      Derives T R (.whole .silent) x (.broken .silence)

section Lemmas

variable [MatchValue V] [DecidableEq V] {T T' : Tape C V} {R : Rulebook V}

/-- **A match comes to one verdict**, over inputs that look alike and go on alike. -/
theorem Derives.agree (htoken : ∀ x, T'.token? x = T.token? x)
    (hposition : ∀ x, T'.position x = T.position x)
    (hnext : ∀ x r r', T.next x r → T'.next x r' → r' = r) {task : Task C V} {x : C}
    {o : Verdict C V} (h : Derives T R task x o) : ∀ o', Derives T' R task x o' → o' = o := by
  have hoffset : ∀ x, T'.offset x = T.offset x := fun x => congrArg Position.offset (hposition x)
  -- Induction on the first derivation. Where two rules fit the same task, the verdict on its first
  -- part or the token decides between them, and that verdict is unique.
  induction h with
  -- the patterns that one rule fits
  | terminal _ ih | predicate _ ih | any _ ih | sequence _ ih | choice _ ih | zeroOrMore _ ih
  | oneOrMore _ ih | tally _ ih =>
    intro o' h'
    cases h'
    exact ih _ (by assumption)
  | token hv ht hr =>
    intro o' h'
    cases h' with
    | token hv' _ hr' =>
      rw [htoken, hv] at hv'
      obtain rfl := Option.some.inj hv'
      rw [hnext _ _ _ hr hr']
    | tokenRefused hf => rw [htoken, hv] at hf; simp_all
  | tokenRefused hf =>
    intro o' h'
    cases h' with
    | token hv' ht' _ => rw [htoken] at hv'; rw [hv'] at hf; simp_all
    | tokenRefused _ => rfl
  | finish hv =>
    intro o' h'
    cases h' with
    | finish _ => rfl
    | finishRefused hv' => rw [htoken, hv] at hv'; cases hv'
  | finishRefused hv =>
    intro o' h'
    cases h' with
    | finish hv' => rw [htoken, hv] at hv'; cases hv'
    | finishRefused _ => rfl
  | itemsDone => intro o' h'; cases h'; rfl
  | itemsNext _ _ ih ih' =>
    intro o' h'
    cases h' with
    | itemsNext h₁ h₂ => cases ih _ h₁; exact ih' _ h₂
    | itemsStop h₁ hm => cases ih _ h₁; cases hm
  | itemsStop _ hm ih =>
    intro o' h'
    cases h' with
    | itemsNext h₁ _ => cases ih _ h₁; cases hm
    | itemsStop h₁ _ => exact ih _ h₁
  | alternativesDone => intro o' h'; cases h'; rfl
  | @alternativesNext p ps failed x r o _ _ ih ih' =>
    intro o' h'
    -- what is furthest does not depend on the input
    have hmerge : T'.mergeInto failed r = T.mergeInto failed r := by
      cases failed <;> simp only [Tape.mergeInto, Tape.merge, hoffset]
    cases h' with
    | alternativesNext h₁ h₂ => cases ih _ h₁; rw [hmerge] at h₂; exact ih' _ h₂
    | alternativesStop h₁ hm => cases ih _ h₁; cases hm
  | alternativesStop _ hm ih =>
    intro o' h'
    cases h' with
    | alternativesNext h₁ _ => cases ih _ h₁; cases hm
    | alternativesStop h₁ _ => exact ih _ h₁
  | againNext _ hlt _ ih ih' =>
    intro o' h'
    cases h' with
    | againNext h₁ _ h₂ => cases ih _ h₁; exact ih' _ h₂
    | againStop h₁ hc =>
      -- the body cannot both have moved on and not
      cases ih _ h₁
      simp [Tape.consumes, hoffset, hlt] at hc
  | againStop _ hc ih =>
    intro o' h'
    cases h' with
    | againNext h₁ hlt _ =>
      cases ih _ h₁
      rw [hoffset, hoffset] at hlt
      simp [Tape.consumes, hlt] at hc
    | againStop h₁ _ => cases ih _ h₁; rfl
  | optional _ ih => intro o' h'; cases h' with | optional h₁ => cases ih _ h₁; rfl
  | not _ ih => intro o' h'; cases h' with | not h₁ => cases ih _ h₁; rfl
  | ruleUnknown hR =>
    intro o' h'
    cases h' with
    | ruleUnknown hR' => rw [hR] at hR'; cases hR'; rfl
    | rule hR' _ => rw [hR] at hR'; cases hR'
  | rule hR _ ih =>
    intro o' h'
    cases h' with
    | ruleUnknown hR' => rw [hR] at hR'; cases hR'
    | rule hR' h₁ =>
      -- the same body, and a transform that is given the same span
      rw [hR] at hR'
      cases hR'
      rw [ih _ h₁]
      simp only [Tape.reduce, Tape.relabel, hposition, hoffset]
  | silent => intro o' h'; cases h'; rfl

/-- Where a match stopped, or the furthest place at which it was refused, satisfies `I`. -/
def Verdict.All (I : C → Prop) : Verdict C V → Prop
  | .matched y _ => I y
  | .refused r => I r.furthest
  | .broken _ => True

/-- What is known of the alternatives before satisfies `I`. -/
def Task.All (I : C → Prop) : Task C V → Prop
  | .alternatives _ (some r) => I r.furthest
  | _ => True

omit [MatchValue V] in
theorem Tape.merge_all {I : C → Prop} {r r' : Refusal C V} (h : I r.furthest)
    (h' : I r'.furthest) : I (T.merge r r').furthest := by
  unfold Tape.merge
  split_ifs <;> assumption

omit [DecidableEq V] in
theorem Verdict.All.ending {I : C → Prop} {x : C} (hx : I x) {o : Verdict C V} (ho : o.All I)
    (needsOne : Bool) (values : List V) : (o.ending x needsOne values).All I := by
  cases o with
  | matched y v => exact ho
  | refused r =>
    simp only [Verdict.ending]
    split_ifs
    · exact ho
    · exact hx
  | broken b => trivial

omit [DecidableEq V] in
theorem Verdict.All.optional {I : C → Prop} {x : C} (hx : I x) {o : Verdict C V} (ho : o.All I) :
    (o.optional x).All I := by
  cases o with
  | matched y v => exact ho
  | refused r => exact hx
  | broken b => trivial

omit [DecidableEq V] in
theorem Verdict.All.not {I : C → Prop} {x : C} (hx : I x) (o : Verdict C V) :
    (o.not x).All I := by
  cases o <;> first | exact hx | trivial

omit [MatchValue V] [DecidableEq V] in
theorem Verdict.All.reduce {I : C → Prop} {o : Verdict C V} (ho : o.All I) (name : String)
    (transform : Option (Transform V)) (x : C) : (T.reduce name transform x o).All I := by
  cases o with
  | matched y v =>
    simp only [Tape.reduce]
    split
    · exact ho
    · split
      · exact ho
      · trivial
  | refused r =>
    simp only [Tape.reduce, Tape.relabel]
    split_ifs <;> exact ho
  | broken b => trivial

/-- What holds of a place, and of every place behind one of which it holds, holds where a match
that begins there stops or is refused. -/
theorem Derives.all {I : C → Prop} (hI : ∀ x y, I x → T.next x (.ok y) → I y) {task : Task C V}
    {x : C} {o : Verdict C V} (h : Derives T R task x o) (htask : task.All I) (hx : I x) :
    o.All I := by
  induction h with
  | terminal _ ih | predicate _ ih | any _ ih | sequence _ ih | choice _ ih | zeroOrMore _ ih
  | oneOrMore _ ih | tally _ ih | itemsStop _ _ ih => exact ih trivial hx
  | @token _ _ _ _ r _ _ hr =>
    cases r with
    | ok y => exact hI _ _ hx hr
    | error b => trivial
  | tokenRefused _ | finish _ | finishRefused _ | itemsDone => exact hx
  | itemsNext _ _ ih ih' => exact ih' trivial (ih trivial hx)
  | @alternativesDone failed x =>
    cases failed with
    | none => exact hx
    | some r => exact htask
  | @alternativesNext p ps failed x r o _ _ ih ih' =>
    have hr : I r.furthest := ih trivial hx
    refine ih' ?_ hx
    cases failed with
    | none => exact hr
    | some r' => exact Tape.merge_all htask hr
  | alternativesStop _ _ ih => exact ih trivial hx
  | againNext _ _ _ ih ih' => exact ih' trivial (ih trivial hx)
  | againStop _ _ ih => exact (ih trivial hx).ending hx _ _
  | optional _ ih => exact (ih trivial hx).optional hx
  | not _ _ => exact Verdict.All.not hx _
  | ruleUnknown _ | silent => trivial
  | rule _ _ ih => exact (ih trivial hx).reduce _ _ _

end Lemmas

end Humus.Peg
