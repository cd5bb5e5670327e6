import Humus.Proofs.Peg.Derivation

/-!
# What a pattern cannot begin with

A pattern that has to take a token is refused where the next token is one that it cannot begin with.
Whether a token is barred in this way is computed from the pattern, and for a rule from its body, up
to a depth of rules that call each other before a token is taken. So the alternatives of a choice
that are out of the question are passed over by evaluation.

## Main definitions

* `Pattern.bars known t p`: `p` cannot begin with `t`
* `barsRule bodies t n ref`: the rule cannot begin with `t`, as `n` calls of rules show

## Main results

* `Pattern.exists_refused`: what is barred is refused
* `Derives.choose`: a choice matches what its first alternative matches that is not barred
-/

namespace Humus.Peg

variable {C V : Type}

section Bars

variable [DecidableEq V]

mutual

/-- Whether the pattern is refused wherever the next token is `t`, `none` at the end. Of rules,
`known` says so. -/
def Pattern.bars (known : RuleRef → Bool) (t : Option V) : Pattern V → Bool
  | .terminal v => decide (t ≠ some v)
  | .predicate _ test => !t.any test
  | .any => t.isNone
  | .finish => t.isSome
  | .sequence ps => Pattern.barsSequence known t ps
  | .choice ps => Pattern.barsChoice known t ps
  | .oneOrMore p => Pattern.bars known t p
  | .rule ref => known ref
  | .zeroOrMore _ | .optional _ | .not _ | .tally .. | .silent => false

/-- Whether the pattern matches nothing there, as its body is barred. -/
def Pattern.passes (known : RuleRef → Bool) (t : Option V) : Pattern V → Bool
  | .optional p | .zeroOrMore p => Pattern.bars known t p
  | _ => false

/-- Whether a sequence is refused there. -/
def Pattern.barsSequence (known : RuleRef → Bool) (t : Option V) : List (Pattern V) → Bool
  | [] => false
  | p :: ps =>
    Pattern.bars known t p || Pattern.passes known t p && Pattern.barsSequence known t ps

/-- Whether all alternatives are refused there. -/
def Pattern.barsChoice (known : RuleRef → Bool) (t : Option V) : List (Pattern V) → Bool
  | [] => true
  | p :: ps => Pattern.bars known t p && Pattern.barsChoice known t ps

end

/-- Whether a rule is refused wherever the next token is `t`, as its body shows when `n` calls of
rules are followed. -/
def barsRule (bodies : RuleRef → Option (Pattern V)) (t : Option V) : Nat → RuleRef → Bool
  | 0, _ => false
  | n + 1, ref => (bodies ref).any fun body => body.bars (barsRule bodies t n) t

/-- A sequence cannot begin with what its first item cannot begin with. -/
theorem Pattern.bars_sequence {known : RuleRef → Bool} {t : Option V} {p : Pattern V}
    (h : p.bars known t = true) (ps : List (Pattern V)) :
    (Pattern.sequence (p :: ps)).bars known t = true := by
  simp only [Pattern.bars, Pattern.barsSequence, h, Bool.true_or]

end Bars

variable [MatchValue V] [DecidableEq V] {T : Tape C V} {R : Rulebook V} {x y : C} {v : V}
  {p : Pattern V} {ps : List (Pattern V)}

/-! ## Tokens -/

theorem Derives.terminal_refused (hx : T.token? x ≠ some v) :
    Derives T R (.whole (.terminal v)) x (.refused ⟨x, [.token v]⟩) := by
  refine .terminal (.tokenRefused ?_)
  rcases ht : T.token? x with _ | u
  · rfl
  · apply decide_eq_false
    rintro rfl
    exact hx ht

theorem exists_refused_terminal (hx : T.token? x ≠ some v) :
    ∃ r, Derives T R (.whole (.terminal v)) x (.refused r) :=
  ⟨_, .terminal_refused hx⟩

/-- A terminal matches its own token. -/
theorem Derives.terminal_eq {u : V} (h : Derives T R (.whole (.terminal v)) x (.matched y u)) :
    u = v ∧ T.token? x = some v := by
  obtain ⟨h⟩ := h
  generalize ho : Verdict.matched y u = o at h
  cases h with
  | @token _ _ _ _ r hv ht _ =>
    rcases r with b | z
    · cases ho
    · cases ho
      obtain rfl := of_decide_eq_true ht
      exact ⟨rfl, hv⟩
  | tokenRefused _ => cases ho

theorem exists_refused_sequence (hp : ∃ r, Derives T R (.whole p) x (.refused r)) :
    ∃ r, Derives T R (.whole (.sequence (p :: ps))) x (.refused r) := by
  obtain ⟨r, hr⟩ := hp
  exact ⟨r, .sequence (.itemsStop hr rfl)⟩

/-- An option whose body is refused matches nothing. -/
theorem Derives.optional_of_refused (hp : ∃ r, Derives T R (.whole p) x (.refused r)) :
    Derives T R (.whole (.optional p)) x (.matched x (MatchValue.list [])) := by
  obtain ⟨r, hr⟩ := hp
  exact .optional hr

/-- A repetition whose body is refused matches nothing. -/
theorem Derives.zeroOrMore_of_refused (hp : ∃ r, Derives T R (.whole p) x (.refused r)) :
    Derives T R (.whole (.zeroOrMore p)) x (.matched x (MatchValue.list [])) := by
  obtain ⟨r, hr⟩ := hp
  have hstop : Derives T R (.again p false []) x _ := .againStop hr rfl
  exact .zeroOrMore hstop

/-! ## Refusals -/

/-- The next token is `t`, and the rules that are known to be barred there are refused. -/
structure Bars (T : Tape C V) (R : Rulebook V) (known : RuleRef → Bool) (t : Option V) (x : C) :
    Prop where
  token? : T.token? x = t
  rule {ref} : known ref = true → ∃ r, Derives T R (.whole (.rule ref)) x (.refused r)

section Refusals

variable {known : RuleRef → Bool} {t : Option V}

mutual

/-- **What is barred is refused.** -/
theorem Pattern.exists_refused (hx : Bars T R known t x) :
    (p : Pattern V) → p.bars known t = true → ∃ r, Derives T R (.whole p) x (.refused r)
  | .terminal v, h => exists_refused_terminal (hx.token? ▸ of_decide_eq_true h)
  | .predicate label test, h => by
    refine ⟨_, .predicate (.tokenRefused ?_)⟩
    rw [hx.token?]
    exact (Bool.not_eq_true' _).mp h
  | .any, h => by
    refine ⟨_, .any (.tokenRefused ?_)⟩
    rw [hx.token?, Option.isNone_iff_eq_none.mp h]
    rfl
  | .finish, h => by
    obtain ⟨v, hv⟩ := Option.isSome_iff_exists.mp h
    exact ⟨_, .finishRefused (hx.token?.trans hv)⟩
  | .sequence ps, h => by
    obtain ⟨r, hr⟩ := Pattern.exists_refused_items hx ps h []
    exact ⟨r, .sequence hr⟩
  | .choice ps, h => by
    obtain ⟨r, hr⟩ := Pattern.exists_refused_alternatives hx ps h none
    exact ⟨r, .choice hr⟩
  | .oneOrMore p, h => by
    obtain ⟨r, hr⟩ := Pattern.exists_refused hx p h
    have hstop : Derives T R (.again p true []) x _ := .againStop hr rfl
    exact ⟨r, .oneOrMore hstop⟩
  | .rule _, h => hx.rule h

theorem Pattern.exists_passed (hx : Bars T R known t x) :
    (p : Pattern V) → p.passes known t = true → ∃ v, Derives T R (.whole p) x (.matched x v)
  | .optional p, h => ⟨_, .optional_of_refused (Pattern.exists_refused hx p h)⟩
  | .zeroOrMore p, h => ⟨_, .zeroOrMore_of_refused (Pattern.exists_refused hx p h)⟩

theorem Pattern.exists_refused_items (hx : Bars T R known t x) :
    (ps : List (Pattern V)) → Pattern.barsSequence known t ps = true →
      ∀ values, ∃ r, Derives T R (.items ps values) x (.refused r)
  | [], h, _ => by cases h
  | p :: ps, h, values => by
    rcases (Bool.or_eq_true _ _).mp h with hp | h
    · obtain ⟨r, hr⟩ := Pattern.exists_refused hx p hp
      exact ⟨r, .itemsStop hr rfl⟩
    · obtain ⟨hp, hps⟩ := (Bool.and_eq_true _ _).mp h
      obtain ⟨v, hv⟩ := Pattern.exists_passed hx p hp
      obtain ⟨r, hr⟩ := Pattern.exists_refused_items hx ps hps (v :: values)
      exact ⟨r, .itemsNext hv hr⟩

theorem Pattern.exists_refused_alternatives (hx : Bars T R known t x) :
    (ps : List (Pattern V)) → Pattern.barsChoice known t ps = true →
      ∀ failed, ∃ r, Derives T R (.alternatives ps failed) x (.refused r)
  | [], _, _ => ⟨_, .alternativesDone⟩
  | p :: ps, h, failed => by
    obtain ⟨hp, hps⟩ := (Bool.and_eq_true _ _).mp h
    obtain ⟨r, hr⟩ := Pattern.exists_refused hx p hp
    obtain ⟨r', hr'⟩ := Pattern.exists_refused_alternatives hx ps hps (some (T.mergeInto failed r))
    exact ⟨r', .alternativesNext hr hr'⟩

end

end Refusals

/-! ## Rules -/

section Rules

variable {bodies : RuleRef → Option (Pattern V)}
  (hbodies : ∀ ref body, bodies ref = some body → ∃ transform, R ref = .ok (body, transform))
include hbodies

/-- A rule that cannot begin with the next token is refused. -/
theorem exists_refused_rule {t : Option V} (hx : T.token? x = t) {n : Nat} {ref : RuleRef}
    (h : barsRule bodies t n ref = true) :
    ∃ r, Derives T R (.whole (.rule ref)) x (.refused r) := by
  induction n generalizing ref with
  | zero => cases h
  | succ n ih =>
    unfold barsRule at h
    rcases hbody : bodies ref with _ | body
    · rw [hbody] at h
      cases h
    · rw [hbody] at h
      obtain ⟨transform, hR⟩ := hbodies ref body hbody
      obtain ⟨r, hr⟩ := body.exists_refused ⟨hx, ih⟩ h
      exact ⟨_, .rule hR hr⟩

/-- **A choice matches what its first alternative matches that is not barred.** -/
theorem Derives.choose {t : Option V} (hx : T.token? x = t) (n k : Nat) (hk : ps[k]? = some p)
    (h : Pattern.barsChoice (barsRule bodies t n) t (ps.take k) = true)
    (hp : Derives T R (.whole p) x (.matched y v)) :
    Derives T R (.whole (.choice ps)) x (.matched y v) := by
  have hskip : ∀ failed, Derives T R (.alternatives ps failed) x (.matched y v) := by
    intro failed
    -- one alternative after the other is passed over
    induction ps generalizing k failed with
    | nil => cases hk
    | cons q ps ih =>
      rcases k with _ | k
      · obtain rfl := Option.some.inj hk
        exact .alternativesStop hp rfl
      · obtain ⟨hq, hps⟩ := (Bool.and_eq_true _ _).mp h
        obtain ⟨r, hr⟩ := q.exists_refused ⟨hx, exists_refused_rule hbodies hx⟩ hq
        exact .alternativesNext hr (ih k hk hps _)
  exact .choice (hskip none)

end Rules

end Humus.Peg
