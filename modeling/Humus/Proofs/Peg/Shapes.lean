import Humus.Proofs.Peg.Correspondence

/-!
# Shapes of values

The shape of the values of a pattern is known once the shapes of the values of rules are. Rules are
sound when every transform accepts all values of the shape of its body, and makes values of the
shape of its rule of them. Over tokens that can all be read, a match by sound rules is never broken
off, and its value has the shape of its pattern.

## Main definitions

* `Pattern.Yields tok Γ p v`: `v` has the shape of `p`, where tokens satisfy `tok` and the values of
  rules have the shapes `Γ`
* `Rulebook.Sound R S tok Γ`: the rules of `S` have values of the shapes `Γ`
* `Verdict.Satisfies P o`: the match is not broken off, and its value satisfies `P`

## Main results

* `Derives.yields`: a match by sound rules has a value of the shape of its pattern
-/

namespace Humus.Peg

variable {C V : Type}

/-! ## Shapes -/

section Shapes

variable [MatchValue V] (tok : V → Prop) (Γ : RuleRef → V → Prop)

mutual

/-- The value has the shape of the pattern. -/
@[simp] def Pattern.Yields : Pattern V → V → Prop
  | .terminal value, v => v = value
  | .predicate _ test, v => test v = true ∧ tok v
  | .any, v => tok v
  | .finish, v | .not _, v => v = MatchValue.nothing
  | .sequence items, v => ∃ vs, v = MatchValue.list vs ∧ Pattern.AllYield items vs
  | .choice items, v => Pattern.AnyYields items v
  | .zeroOrMore body, v => ∃ vs, v = MatchValue.list vs ∧ ∀ u ∈ vs, Pattern.Yields body u
  | .oneOrMore body, v =>
    ∃ vs, v = MatchValue.list vs ∧ vs ≠ [] ∧ ∀ u ∈ vs, Pattern.Yields body u
  | .optional body, v =>
    v = MatchValue.list [] ∨ ∃ u, v = MatchValue.list [u] ∧ Pattern.Yields body u
  | .rule ref, v => Γ ref v
  | .tally _ body, v => Pattern.Yields body v
  | .silent, _ => False

/-- The values have the shapes of the patterns, one by one. -/
@[simp] def Pattern.AllYield : List (Pattern V) → List V → Prop
  | [], vs => vs = []
  | p :: ps, vs => ∃ u us, vs = u :: us ∧ Pattern.Yields p u ∧ Pattern.AllYield ps us

/-- The value has the shape of one of the patterns. -/
@[simp] def Pattern.AnyYields : List (Pattern V) → V → Prop
  | [], _ => False
  | p :: ps, v => Pattern.Yields p v ∨ Pattern.AnyYields ps v

end

/-- The value has the shape of what the task comes to, with the values it has already. -/
def Task.Yields : Task C V → V → Prop
  | .whole p, v => p.Yields tok Γ v
  | .token _ test, v => test v = true ∧ tok v
  | .items rest values, v =>
    ∃ vs, v = MatchValue.list (values.reverse ++ vs) ∧ Pattern.AllYield tok Γ rest vs
  | .alternatives rest _, v => Pattern.AnyYields tok Γ rest v
  | .again body needsOne values, v =>
    ∃ vs, v = MatchValue.list (values.reverse ++ vs) ∧
      (lacksOne needsOne values = true → vs ≠ []) ∧ ∀ u ∈ vs, body.Yields tok Γ u

end Shapes

section Mono

variable [MatchValue V] {tok : V → Prop} {Γ Γ' : RuleRef → V → Prop}

mutual

/-- Rules with values of fewer shapes leave fewer shapes to patterns. -/
theorem Pattern.Yields.mono (hΓ : ∀ ref v, Γ ref v → Γ' ref v) :
    (p : Pattern V) → ∀ {v}, p.Yields tok Γ v → p.Yields tok Γ' v
  | .terminal _, _, h | .predicate .., _, h | .any, _, h | .finish, _, h | .not _, _, h => h
  | .sequence items, _, ⟨vs, hv, h⟩ => ⟨vs, hv, Pattern.AllYield.mono hΓ items h⟩
  | .choice items, _, h => Pattern.AnyYields.mono hΓ items h
  | .zeroOrMore body, _, ⟨vs, hv, h⟩ => ⟨vs, hv, fun u hu => Pattern.Yields.mono hΓ body (h u hu)⟩
  | .oneOrMore body, _, ⟨vs, hv, hne, h⟩ =>
    ⟨vs, hv, hne, fun u hu => Pattern.Yields.mono hΓ body (h u hu)⟩
  | .optional body, _, h => h.imp_right fun ⟨u, hv, hu⟩ => ⟨u, hv, Pattern.Yields.mono hΓ body hu⟩
  | .rule ref, v, h => hΓ ref v h
  | .tally _ body, _, h => Pattern.Yields.mono hΓ body h
  | .silent, _, h => h
termination_by structural p => p

theorem Pattern.AllYield.mono (hΓ : ∀ ref v, Γ ref v → Γ' ref v) :
    (ps : List (Pattern V)) → ∀ {vs}, Pattern.AllYield tok Γ ps vs → Pattern.AllYield tok Γ' ps vs
  | [], _, h => h
  | p :: ps, _, ⟨u, us, hvs, hu, hus⟩ =>
    ⟨u, us, hvs, Pattern.Yields.mono hΓ p hu, Pattern.AllYield.mono hΓ ps hus⟩
termination_by structural ps => ps

theorem Pattern.AnyYields.mono (hΓ : ∀ ref v, Γ ref v → Γ' ref v) :
    (ps : List (Pattern V)) → ∀ {v}, Pattern.AnyYields tok Γ ps v → Pattern.AnyYields tok Γ' ps v
  | [], _, h => h
  | p :: ps, _, h => h.imp (Pattern.Yields.mono hΓ p) (Pattern.AnyYields.mono hΓ ps)
termination_by structural ps => ps

end

end Mono

/-- The match is not broken off, and its value satisfies `P`. -/
def Verdict.Satisfies (P : V → Prop) : Verdict C V → Prop
  | .matched _ v => P v
  | .refused _ => True
  | .broken _ => False

/-- The values that a rule makes of `v` satisfy `P`. -/
def Makes (P : V → Prop) (name : String) (v : V) : Option (Transform V) → Prop
  | none => P v
  | some f => ∀ span, ∃ u, f name v span = .ok u ∧ P u

/-- The rules of `S` are defined, involve no actor from outside, refer to rules of `S` only, and
have values of the shapes `Γ`. -/
def Rulebook.Sound [MatchValue V] (R : Rulebook V) (S : RuleRef → Prop) (tok : V → Prop)
    (Γ : RuleRef → V → Prop) : Prop :=
  ∀ ref, S ref → ∃ body transform, R ref = .ok (body, transform) ∧ body.isForeign = false ∧
    body.Within S ∧ ∀ v, body.Yields tok Γ v → Makes (Γ ref) ref.name v transform

/-- The tokens of the input satisfy `tok`, and what comes behind them can be read. -/
structure Tape.Readable (T : Tape C V) (tok : V → Prop) : Prop where
  token {x v} : T.token? x = some v → tok v
  next {x r} : T.next x r → ∃ y, r = .ok y

namespace Verdict.Satisfies

variable {P Q : V → Prop} {o : Verdict C V}

theorem imp (h : o.Satisfies P) (hPQ : ∀ v, P v → Q v) : o.Satisfies Q := by
  cases o with
  | matched y v => exact hPQ v h
  | refused r => trivial
  | broken b => exact h

theorem of_not_matched (h : o.Satisfies P) (ho : o.isMatched = false) : o.Satisfies Q := by
  cases o with
  | matched y v => cases ho
  | refused r => trivial
  | broken b => exact h

theorem reduce (h : o.Satisfies P) (T : Tape C V) {name : String}
    {transform : Option (Transform V)} (hmakes : ∀ v, P v → Makes Q name v transform) (x : C) :
    (T.reduce name transform x o).Satisfies Q := by
  cases o with
  | matched y v =>
    have hv := hmakes v h
    cases transform with
    | none => exact hv
    | some f =>
      obtain ⟨u, hu, hQ⟩ := hv ⟨T.position x, T.position y⟩
      simp only [Tape.reduce, hu]
      exact hQ
  | refused r => trivial
  | broken b => exact h

end Verdict.Satisfies

/-! ## Soundness -/

variable [MatchValue V] [DecidableEq V] {T : Tape C V} {R : Rulebook V} {S : RuleRef → Prop}
  {tok : V → Prop} {Γ : RuleRef → V → Prop}

omit [DecidableEq V] in
/-- The last match of the body of a repetition. -/
theorem Verdict.Satisfies.ending {o : Verdict C V} {body : Pattern V}
    (h : o.Satisfies (body.Yields tok Γ)) (x : C) (needsOne : Bool) (values : List V) :
    (o.ending x needsOne values).Satisfies
      ((Task.again (C := C) body needsOne values).Yields tok Γ) := by
  cases o with
  | matched y v =>
    by_cases hlacks : lacksOne needsOne values = true
    · refine ⟨[v], ?_, fun _ => List.cons_ne_nil v [], ?_⟩
      · simp only [hlacks, if_true, List.reverse_cons]
      · rintro u hu
        rw [List.mem_singleton.mp hu]
        exact h
    · refine ⟨[], ?_, fun h => absurd h hlacks, fun u hu => absurd hu List.not_mem_nil⟩
      simp only [hlacks, Bool.false_eq_true, if_false, List.append_nil]
  | refused r =>
    simp only [Verdict.ending]
    split_ifs with hlacks
    · trivial
    · refine ⟨[], ?_, fun h => absurd h hlacks, fun u hu => absurd hu List.not_mem_nil⟩
      rw [List.append_nil]
  | broken b => exact h

/-- **A match by sound rules is not broken off, and its value has the shape of its pattern.** -/
theorem Derives.yields (hR : R.Sound S tok Γ) (hT : T.Readable tok) {task : Task C V} {x : C}
    {o : Verdict C V} (h : Derives T R task x o) (hnative : task.isForeign = false)
    (hwithin : task.Within S) : o.Satisfies (task.Yields tok Γ) := by
  -- Induction on the derivation: the value of a task is built from those of its parts.
  induction h with
  | terminal _ ih => exact (ih rfl trivial).imp fun v hv => show v = _ from of_decide_eq_true hv.1
  | predicate _ ih => exact (ih rfl trivial).imp fun v hv => hv
  | any _ ih => exact (ih rfl trivial).imp fun v hv => hv.2
  | token hv ht hr =>
    obtain ⟨y, rfl⟩ := hT.next hr
    exact ⟨ht, hT.token hv⟩
  | tokenRefused _ | finishRefused _ | alternativesDone => trivial
  | finish _ => rfl
  | sequence _ ih => exact (ih hnative hwithin).imp fun v hv => hv
  | itemsDone => exact ⟨[], by rw [List.append_nil], rfl⟩
  | itemsNext _ _ ih ih' =>
    obtain ⟨hp, hps⟩ := Bool.or_eq_false_iff.mp hnative
    have hu := ih hp hwithin.1
    -- the values of the items before are held in reverse, the last one first
    refine (ih' hps hwithin.2).imp fun v hv => ?_
    obtain ⟨us, rfl, hus⟩ := hv
    exact ⟨_ :: us, by rw [List.reverse_cons, List.append_assoc, List.singleton_append], _, us, rfl,
      hu, hus⟩
  | itemsStop _ hm ih => exact (ih (Bool.or_eq_false_iff.mp hnative).1 hwithin.1).of_not_matched hm
  | choice _ ih => exact (ih hnative hwithin).imp fun v hv => hv
  | alternativesNext _ _ _ ih' =>
    exact (ih' (Bool.or_eq_false_iff.mp hnative).2 hwithin.2).imp fun v hv => .inr hv
  | alternativesStop _ _ ih =>
    exact (ih (Bool.or_eq_false_iff.mp hnative).1 hwithin.1).imp fun v hv => .inl hv
  | zeroOrMore _ ih =>
    refine (ih hnative hwithin).imp fun v hv => ?_
    obtain ⟨vs, hvs, -, hall⟩ := hv
    exact ⟨vs, hvs, hall⟩
  | oneOrMore _ ih =>
    refine (ih hnative hwithin).imp fun v hv => ?_
    obtain ⟨vs, hvs, hne, hall⟩ := hv
    exact ⟨vs, hvs, hne rfl, hall⟩
  | againNext _ _ _ ih ih' =>
    have hu := ih hnative hwithin
    refine (ih' hnative hwithin).imp fun v hv => ?_
    obtain ⟨us, rfl, -, hus⟩ := hv
    refine ⟨_ :: us, by rw [List.reverse_cons, List.append_assoc, List.singleton_append],
      fun _ => List.cons_ne_nil _ us, ?_⟩
    exact List.forall_mem_cons.mpr ⟨hu, hus⟩
  | againStop _ _ ih => exact (ih hnative hwithin).ending _ _ _
  | @optional p x o _ ih =>
    have ho := ih hnative hwithin
    cases o with
    | matched y v => exact .inr ⟨v, rfl, ho⟩
    | refused r => exact .inl rfl
    | broken b => exact ho
  | @not p x o _ ih =>
    have ho := ih hnative hwithin
    cases o with
    | matched y v => trivial
    | refused r => rfl
    | broken b => exact ho
  | ruleUnknown hf =>
    -- no rule of `S` is missing
    obtain ⟨_, _, hok, -⟩ := hR _ hwithin
    rw [hf] at hok
    cases hok
  | rule hr _ ih =>
    obtain ⟨_, _, hok, hforeign, hbody, hmakes⟩ := hR _ hwithin
    rw [hr] at hok
    cases hok
    -- the transform of a sound rule accepts every value of its body
    exact (ih hforeign hbody).reduce _ hmakes _
  | tally _ _ | silent => cases hnative

end Humus.Peg
