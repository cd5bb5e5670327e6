import Humus.Proofs.Peg.Derivation

/-!
# Evaluations

A derivation says what a match comes to, and an evaluation also says which transforms are invoked on
the way. The parts of a match are evaluated in the order in which they are tried, and what they
invoke is listed one after the other: that of an alternative that was refused, of a lookahead, of
the items before one that does not match, and of an iteration that consumed nothing. A rule with a
transform adds one invocation behind those of its body, if the body matches.

## Main definitions

* `Tape.invokes ref transform x o`: what a rule invokes when its body came to the verdict `o`
* `Evaluates T R task x o log`: the task comes to the verdict `o`, invoking the transforms of `log`

## Main results

* `Evaluates.derives`, `Derives.exists_evaluates`: what is evaluated is what is derived
-/

namespace Humus.Peg

variable {C V : Type}

/-- What a rule invokes whose body, tried at `x`, came to the verdict. The transform is given the
value of the body and the region that the body consumed. -/
def Tape.invokes (T : Tape C V) (ref : RuleRef) (transform : Option (Transform V)) (x : C) :
    Verdict C V → List (Invocation V)
  | .matched y v => if transform.isSome then [⟨ref, v, ⟨T.position x, T.position y⟩⟩] else []
  | .refused _ | .broken _ => []

/-- At the place `x` of the tape `T`, with the rules `R`, the task comes to a verdict. The
transforms that are invoked on the way are those of the log, in that order. -/
inductive Evaluates [MatchValue V] [DecidableEq V] (T : Tape C V) (R : Rulebook V) :
    Task C V → C → Verdict C V → List (Invocation V) → Prop where
  | terminal {value x o log} :
      Evaluates T R (.token (.token value) (· = value)) x o log →
      Evaluates T R (.whole (.terminal value)) x o log
  | predicate {label test x o log} :
      Evaluates T R (.token (.label label) test) x o log →
      Evaluates T R (.whole (.predicate label test)) x o log
  | any {x o log} :
      Evaluates T R (.token .anyToken fun _ => true) x o log → Evaluates T R (.whole .any) x o log
  | token {expected test x v r} :
      T.token? x = some v → test v = true → T.next x r →
      Evaluates T R (.token expected test) x (.taking v r) []
  | tokenRefused {expected test x} :
      (T.token? x).any test = false →
      Evaluates T R (.token expected test) x (.refused ⟨x, [expected]⟩) []
  | finish {x} :
      T.token? x = none → Evaluates T R (.whole .finish) x (.matched x MatchValue.nothing) []
  | finishRefused {x v} :
      T.token? x = some v → Evaluates T R (.whole .finish) x (.refused ⟨x, [.endOfInput]⟩) []
  | sequence {ps x o log} :
      Evaluates T R (.items ps []) x o log → Evaluates T R (.whole (.sequence ps)) x o log
  | itemsDone {values x} :
      Evaluates T R (.items [] values) x (.matched x (MatchValue.list values.reverse)) []
  | itemsNext {p ps values x y v o log log'} :
      Evaluates T R (.whole p) x (.matched y v) log →
      Evaluates T R (.items ps (v :: values)) y o log' →
      Evaluates T R (.items (p :: ps) values) x o (log ++ log')
  | itemsStop {p ps values x o log} :
      Evaluates T R (.whole p) x o log → o.isMatched = false →
      Evaluates T R (.items (p :: ps) values) x o log
  | choice {ps x o log} :
      Evaluates T R (.alternatives ps none) x o log → Evaluates T R (.whole (.choice ps)) x o log
  | alternativesDone {failed x} :
      Evaluates T R (.alternatives [] failed) x (.refused (failed.getD ⟨x, []⟩)) []
  | alternativesNext {p ps failed x r o log log'} :
      Evaluates T R (.whole p) x (.refused r) log →
      Evaluates T R (.alternatives ps (some (T.mergeInto failed r))) x o log' →
      Evaluates T R (.alternatives (p :: ps) failed) x o (log ++ log')
  | alternativesStop {p ps failed x o log} :
      Evaluates T R (.whole p) x o log → o.isRefused = false →
      Evaluates T R (.alternatives (p :: ps) failed) x o log
  | zeroOrMore {p x o log} :
      Evaluates T R (.again p false []) x o log → Evaluates T R (.whole (.zeroOrMore p)) x o log
  | oneOrMore {p x o log} :
      Evaluates T R (.again p true []) x o log → Evaluates T R (.whole (.oneOrMore p)) x o log
  | againNext {p needsOne values x y v o log log'} :
      Evaluates T R (.whole p) x (.matched y v) log → T.offset x < T.offset y →
      Evaluates T R (.again p needsOne (v :: values)) y o log' →
      Evaluates T R (.again p needsOne values) x o (log ++ log')
  | againStop {p needsOne values x o log} :
      Evaluates T R (.whole p) x o log → T.consumes x o = false →
      Evaluates T R (.again p needsOne values) x (o.ending x needsOne values) log
  | optional {p x o log} :
      Evaluates T R (.whole p) x o log → Evaluates T R (.whole (.optional p)) x (o.optional x) log
  | not {p x o log} :
      Evaluates T R (.whole p) x o log → Evaluates T R (.whole (.not p)) x (o.not x) log
  | ruleUnknown {ref fault x} :
      R ref = .error fault → Evaluates T R (.whole (.rule ref)) x (.broken (.fault fault)) []
  | rule {ref body transform x o log} :
      R ref = .ok (body, transform) → Evaluates T R (.whole body) x o log →
      Evaluates T R (.whole (.rule ref)) x (T.reduce ref.name transform x o)
        (log ++ T.invokes ref transform x o)
  | tally {counter p x o log} :
      Evaluates T R (.whole p) x o log → Evaluates T R (.whole (.tally counter p)) x o log
  | silent {x} :
      Evaluates T R (.whole .silent) x (.broken .silence) []

variable [MatchValue V] [DecidableEq V] {T : Tape C V} {R : Rulebook V} {task : Task C V} {x : C}
  {o : Verdict C V} {log : List (Invocation V)}

/-- What is evaluated is derived. -/
theorem Evaluates.derives (h : Evaluates T R task x o log) : Derives T R task x o := by
  induction h with
  | terminal _ ih => exact .terminal ih
  | predicate _ ih => exact .predicate ih
  | any _ ih => exact .any ih
  | token hv ht hr => exact .token hv ht hr
  | tokenRefused hf => exact .tokenRefused hf
  | finish hv => exact .finish hv
  | finishRefused hv => exact .finishRefused hv
  | sequence _ ih => exact .sequence ih
  | itemsDone => exact .itemsDone
  | itemsNext _ _ ih ih' => exact .itemsNext ih ih'
  | itemsStop _ hm ih => exact .itemsStop ih hm
  | choice _ ih => exact .choice ih
  | alternativesDone => exact .alternativesDone
  | alternativesNext _ _ ih ih' => exact .alternativesNext ih ih'
  | alternativesStop _ hm ih => exact .alternativesStop ih hm
  | zeroOrMore _ ih => exact .zeroOrMore ih
  | oneOrMore _ ih => exact .oneOrMore ih
  | againNext _ hlt _ ih ih' => exact .againNext ih hlt ih'
  | againStop _ hc ih => exact .againStop ih hc
  | optional _ ih => exact .optional ih
  | not _ ih => exact .not ih
  | ruleUnknown hR => exact .ruleUnknown hR
  | rule hR _ ih => exact .rule hR ih
  | tally _ ih => exact .tally ih
  | silent => exact .silent

/-- What is derived is evaluated, with some log. -/
theorem Derives.exists_evaluates (h : Derives T R task x o) :
    ∃ log, Evaluates T R task x o log := by
  induction h with
  -- nothing is tried
  | token hv ht hr => exact ⟨_, .token hv ht hr⟩
  | tokenRefused hf => exact ⟨_, .tokenRefused hf⟩
  | finish hv => exact ⟨_, .finish hv⟩
  | finishRefused hv => exact ⟨_, .finishRefused hv⟩
  | itemsDone => exact ⟨_, .itemsDone⟩
  | alternativesDone => exact ⟨_, .alternativesDone⟩
  | ruleUnknown hR => exact ⟨_, .ruleUnknown hR⟩
  | silent => exact ⟨_, .silent⟩
  -- one part is tried
  | terminal _ ih => obtain ⟨log, h⟩ := ih; exact ⟨_, .terminal h⟩
  | predicate _ ih => obtain ⟨log, h⟩ := ih; exact ⟨_, .predicate h⟩
  | any _ ih => obtain ⟨log, h⟩ := ih; exact ⟨_, .any h⟩
  | sequence _ ih => obtain ⟨log, h⟩ := ih; exact ⟨_, .sequence h⟩
  | itemsStop _ hm ih => obtain ⟨log, h⟩ := ih; exact ⟨_, .itemsStop h hm⟩
  | choice _ ih => obtain ⟨log, h⟩ := ih; exact ⟨_, .choice h⟩
  | alternativesStop _ hm ih => obtain ⟨log, h⟩ := ih; exact ⟨_, .alternativesStop h hm⟩
  | zeroOrMore _ ih => obtain ⟨log, h⟩ := ih; exact ⟨_, .zeroOrMore h⟩
  | oneOrMore _ ih => obtain ⟨log, h⟩ := ih; exact ⟨_, .oneOrMore h⟩
  | againStop _ hc ih => obtain ⟨log, h⟩ := ih; exact ⟨_, .againStop h hc⟩
  | optional _ ih => obtain ⟨log, h⟩ := ih; exact ⟨_, .optional h⟩
  | not _ ih => obtain ⟨log, h⟩ := ih; exact ⟨_, .not h⟩
  | rule hR _ ih => obtain ⟨log, h⟩ := ih; exact ⟨_, .rule hR h⟩
  | tally _ ih => obtain ⟨log, h⟩ := ih; exact ⟨_, .tally h⟩
  -- one part is tried after another
  | itemsNext _ _ ih ih' =>
    obtain ⟨log, h⟩ := ih
    obtain ⟨log', h'⟩ := ih'
    exact ⟨_, .itemsNext h h'⟩
  | alternativesNext _ _ ih ih' =>
    obtain ⟨log, h⟩ := ih
    obtain ⟨log', h'⟩ := ih'
    exact ⟨_, .alternativesNext h h'⟩
  | againNext _ hlt _ ih ih' =>
    obtain ⟨log, h⟩ := ih
    obtain ⟨log', h'⟩ := ih'
    exact ⟨_, .againNext h hlt h'⟩

end Humus.Peg
