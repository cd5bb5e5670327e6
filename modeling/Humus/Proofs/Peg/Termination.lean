import Humus.Proofs.Peg.Correspondence

/-!
# Matches that come to a verdict

A rule is left-recursive when a match of it may come back to the same rule at the same place. The
rules can then not be ranked in such a way that every rule is of a higher rank than those that it
may enter before it has consumed a token. Where the rules can be ranked, and the input is finite,
every match comes to a verdict.

Whether a pattern ever matches without consuming a token is a question about all places of an input.
A pattern that is not nullable never does, which can be read off the pattern and its rules.

## Main definitions

* `Pattern.Nullable N p`: `p` may match without consuming a token, if the rules of `N` may
* `Stays T R p`: at some place of `T`, `p` matches without consuming a token
* `Pattern.Opens M Q p`: `p` enters only rules of `Q` before it has consumed a token, where the
  patterns of `M` may match without consuming one
* `Rulebook.Descends R S M rank`: the rules of `S` are not left-recursive
* `Rulebook.Ranked R S N rank`: the same, with the nullable patterns for `M`
* `Tape.Finite T I left`: something comes behind every token at the places of `I`, and `left` bounds
  the number of tokens behind a place

## Main results

* `Derives.stays_or_advances`: a match that consumes nothing is one of a nullable pattern
* `Rulebook.Descends.exists_derives`: every match comes to a verdict
-/

namespace Humus.Peg

variable {C V : Type}

/-! ## Left recursion -/

section Patterns

variable (N : RuleRef → Prop) (M : Pattern V → Prop) (Q : RuleRef → Prop)

mutual

/-- The pattern may match without consuming a token. -/
def Pattern.Nullable : Pattern V → Prop
  | .terminal _ | .predicate .. | .any | .silent => False
  | .finish | .zeroOrMore _ | .optional _ | .not _ => True
  | .sequence items => Pattern.AllNullable items
  | .choice items => Pattern.AnyNullable items
  | .oneOrMore body | .tally _ body => Pattern.Nullable body
  | .rule ref => N ref

/-- All of the patterns may match without consuming a token. -/
def Pattern.AllNullable : List (Pattern V) → Prop
  | [] => True
  | p :: ps => Pattern.Nullable p ∧ Pattern.AllNullable ps

/-- One of the patterns may match without consuming a token. -/
def Pattern.AnyNullable : List (Pattern V) → Prop
  | [] => False
  | p :: ps => Pattern.Nullable p ∨ Pattern.AnyNullable ps

end

mutual

/-- Every rule that the pattern may enter before it has consumed a token is in `Q`. -/
def Pattern.Opens : Pattern V → Prop
  | .rule ref => Q ref
  | .sequence items => Pattern.SequenceOpens items
  | .choice items => Pattern.ChoiceOpens items
  | .zeroOrMore body | .oneOrMore body | .optional body | .not body | .tally _ body =>
    Pattern.Opens body
  | .terminal _ | .predicate .. | .any | .finish | .silent => True

/-- An item of a sequence is tried before a token is consumed if all items before it may match
without consuming one. -/
def Pattern.SequenceOpens : List (Pattern V) → Prop
  | [] => True
  | p :: ps => Pattern.Opens p ∧ (M p → Pattern.SequenceOpens ps)

/-- Every alternative of a choice is tried where the choice begins. -/
def Pattern.ChoiceOpens : List (Pattern V) → Prop
  | [] => True
  | p :: ps => Pattern.Opens p ∧ Pattern.ChoiceOpens ps

end

/-- What is left of the task may match without consuming a token. -/
def Task.Nullable : Task C V → Prop
  | .whole p => p.Nullable N
  | .token .. => False
  | .items rest _ => Pattern.AllNullable N rest
  | .alternatives rest _ => Pattern.AnyNullable N rest
  | .again body needsOne values => lacksOne needsOne values = true → body.Nullable N

end Patterns

mutual

theorem Pattern.opens_true (M : Pattern V → Prop) : (p : Pattern V) → p.Opens M fun _ => True
  | .rule _ | .terminal _ | .predicate .. | .any | .finish | .silent => trivial
  | .sequence items => Pattern.sequenceOpens_true M items
  | .choice items => Pattern.choiceOpens_true M items
  | .zeroOrMore body | .oneOrMore body | .optional body | .not body | .tally _ body =>
    Pattern.opens_true M body

theorem Pattern.sequenceOpens_true (M : Pattern V → Prop) :
    (ps : List (Pattern V)) → Pattern.SequenceOpens M (fun _ => True) ps
  | [] => trivial
  | p :: ps => ⟨Pattern.opens_true M p, fun _ => Pattern.sequenceOpens_true M ps⟩

theorem Pattern.choiceOpens_true (M : Pattern V → Prop) :
    (ps : List (Pattern V)) → Pattern.ChoiceOpens M (fun _ => True) ps
  | [] => trivial
  | p :: ps => ⟨Pattern.opens_true M p, Pattern.choiceOpens_true M ps⟩

end

section Imp

variable {M M' : Pattern V → Prop} {Q S : RuleRef → Prop}

mutual

/-- The fewer patterns may match without consuming a token, the fewer rules are entered. -/
theorem Pattern.Opens.imp (hM : ∀ p : Pattern V, p.Within S → M' p → M p) :
    (p : Pattern V) → p.Within S → p.Opens M Q → p.Opens M' Q
  | .rule _, _, h => h
  | .terminal _, _, _ | .predicate .., _, _ | .any, _, _ | .finish, _, _ | .silent, _, _ => trivial
  | .sequence items, hS, h => Pattern.SequenceOpens.imp hM items hS h
  | .choice items, hS, h => Pattern.ChoiceOpens.imp hM items hS h
  | .zeroOrMore body, hS, h | .oneOrMore body, hS, h | .optional body, hS, h | .not body, hS, h
  | .tally _ body, hS, h => Pattern.Opens.imp hM body hS h

theorem Pattern.SequenceOpens.imp (hM : ∀ p : Pattern V, p.Within S → M' p → M p) :
    (ps : List (Pattern V)) → Pattern.AllWithin S ps → Pattern.SequenceOpens M Q ps →
      Pattern.SequenceOpens M' Q ps
  | [], _, _ => trivial
  | p :: ps, hS, h => ⟨Pattern.Opens.imp hM p hS.1 h.1,
      fun hp => Pattern.SequenceOpens.imp hM ps hS.2 (h.2 (hM p hS.1 hp))⟩

theorem Pattern.ChoiceOpens.imp (hM : ∀ p : Pattern V, p.Within S → M' p → M p) :
    (ps : List (Pattern V)) → Pattern.AllWithin S ps → Pattern.ChoiceOpens M Q ps →
      Pattern.ChoiceOpens M' Q ps
  | [], _, _ => trivial
  | p :: ps, hS, h =>
    ⟨Pattern.Opens.imp hM p hS.1 h.1, Pattern.ChoiceOpens.imp hM ps hS.2 h.2⟩

end

end Imp

/-- The rules of `S` refer to rules of `S` only, and every rule is of a higher rank than those that
it may enter before it has consumed a token, where the patterns of `M` may match without consuming
one. -/
structure Rulebook.Descends (R : Rulebook V) (S : RuleRef → Prop) (M : Pattern V → Prop)
    (rank : RuleRef → Nat) : Prop where
  closed : R.Closed S
  opens {ref body transform} : S ref → R ref = .ok (body, transform) →
    body.Opens M fun other => rank other < rank ref

/-- The rules of `S` descend, and those of them that may match without consuming a token are in
`N`. -/
structure Rulebook.Ranked (R : Rulebook V) (S N : RuleRef → Prop) (rank : RuleRef → Nat) : Prop
    extends R.Descends S (Pattern.Nullable N) rank where
  nullable {ref body transform} : S ref → R ref = .ok (body, transform) → body.Nullable N → N ref

/-- At the places of `I` something comes behind every token, which is a place of `I` again. Behind a
token, fewer tokens are left. -/
structure Tape.Finite (T : Tape C V) (I : C → Prop) (left : C → Nat) : Prop where
  exists_next {x v} : I x → T.token? x = some v → ∃ r, T.next x r
  next {x y} : I x → T.next x (.ok y) → I y
  lt {x y} : T.next x (.ok y) → left y < left x

/-- If the match succeeds, then at a place of `P`. -/
def Verdict.Stops (P : C → Prop) : Verdict C V → Prop
  | .matched y _ => P y
  | _ => True

namespace Verdict.Stops

variable {P Q : C → Prop} {o : Verdict C V}

theorem imp (h : o.Stops P) (hPQ : ∀ y, P y → Q y) : o.Stops Q := by
  cases o with
  | matched y v => exact hPQ y h
  | refused | broken => trivial

theorem of_not_matched (h : o.isMatched = false) : o.Stops P := by
  cases o with
  | matched y v => cases h
  | refused | broken => trivial

theorem reduce (h : o.Stops P) (T : Tape C V) (name : String) (transform : Option (Transform V))
    (x : C) : (T.reduce name transform x o).Stops P := by
  cases o with
  | matched y v =>
    cases transform with
    | none => exact h
    | some f =>
      simp only [Tape.reduce]
      split
      · exact h
      · trivial
  | refused | broken => trivial

end Verdict.Stops

/-! ## What a match consumes -/

variable [MatchValue V] [DecidableEq V] {T : Tape C V} {R : Rulebook V} {S N Q : RuleRef → Prop}
  {M : Pattern V → Prop} {rank : RuleRef → Nat} {I : C → Prop} {left : C → Nat}

/-- At some place the pattern matches without consuming a token. -/
def Stays (T : Tape C V) (R : Rulebook V) (p : Pattern V) : Prop :=
  ∃ x v, Derives T R (.whole p) x (.matched x v)

/-- **A match that consumes nothing is one of a nullable pattern.** Any other match leaves fewer
tokens. -/
theorem Derives.stays_or_advances (hR : R.Ranked S N rank)
    (hT : ∀ x y, T.next x (.ok y) → left y < left x) {task : Task C V} {x : C}
    {o : Verdict C V} (h : Derives T R task x o) (hwithin : task.Within S) :
    o.Stops fun y => y = x ∧ task.Nullable N ∨ left y < left x := by
  -- Induction on the derivation: tokens are consumed by the token patterns alone, and what is left
  -- never grows again.
  induction h with
  | terminal _ ih | predicate _ ih | any _ ih => exact ih trivial
  | @token _ _ _ _ r _ _ hr =>
    cases r with
    | ok y => exact .inr (hT _ _ hr)
    | error b => trivial
  | tokenRefused _ | finishRefused _ | alternativesDone | ruleUnknown _ | silent => trivial
  | finish _ | itemsDone => exact .inl ⟨rfl, trivial⟩
  | sequence _ ih | choice _ ih => exact ih hwithin
  | itemsNext _ _ ih ih' =>
    refine (ih' hwithin.2).imp fun z hz => ?_
    -- The sequence consumed nothing only if neither its first item nor the rest of them did.
    rcases ih hwithin.1 with ⟨rfl, hp⟩ | hlt
    · exact hz.imp_left fun ⟨hzy, hps⟩ => ⟨hzy, hp, hps⟩
    · rcases hz with ⟨rfl, -⟩ | hlt'
      · exact .inr hlt
      · right
        omega
  | itemsStop _ hm _ => exact .of_not_matched hm
  | alternativesNext _ _ _ ih' =>
    exact (ih' hwithin.2).imp fun y hy => hy.imp_left fun ⟨hyx, hps⟩ => ⟨hyx, .inr hps⟩
  | alternativesStop _ _ ih =>
    exact (ih hwithin.1).imp fun y hy => hy.imp_left fun ⟨hyx, hp⟩ => ⟨hyx, .inl hp⟩
  | zeroOrMore _ ih =>
    exact (ih hwithin).imp fun y hy => hy.imp_left fun ⟨hyx, _⟩ => ⟨hyx, trivial⟩
  | oneOrMore _ ih =>
    exact (ih hwithin).imp fun y hy => hy.imp_left fun ⟨hyx, hbody⟩ => ⟨hyx, hbody rfl⟩
  | againNext _ hlt _ ih ih' =>
    -- The first match of the body moved on, so it left fewer tokens.
    refine (ih' hwithin).imp fun z hz => .inr ?_
    rcases ih hwithin with ⟨rfl, -⟩ | hlt'
    · omega
    · rcases hz with ⟨rfl, -⟩ | hlt''
      · exact hlt'
      · omega
  | @againStop body needsOne values x o _ _ ih =>
    have ho := ih hwithin
    cases o with
    | matched y v => exact ho.imp_left fun ⟨hyx, hbody⟩ => ⟨hyx, fun _ => hbody⟩
    | refused r =>
      -- no match of the body was needed any more
      simp only [Verdict.ending]
      split_ifs with hlacks
      · trivial
      · exact .inl ⟨rfl, fun h => absurd h hlacks⟩
    | broken b => trivial
  | @optional p x o _ ih =>
    have ho := ih hwithin
    cases o with
    | matched y v => exact ho.imp_left fun ⟨hyx, _⟩ => ⟨hyx, trivial⟩
    | refused r => exact .inl ⟨rfl, trivial⟩
    | broken b => trivial
  | @not p x o _ _ =>
    cases o with
    | refused r => exact .inl ⟨rfl, trivial⟩
    | matched | broken => trivial
  | rule hr _ ih =>
    have ho := (ih (hR.closed _ _ _ hwithin hr)).imp fun y hy =>
      hy.imp_left fun ⟨hyx, hbody⟩ => And.intro hyx (hR.nullable hwithin hr hbody)
    exact ho.reduce T _ _ _
  | tally _ ih => exact ih hwithin

/-- A pattern that matches without consuming a token is nullable. -/
theorem Rulebook.Ranked.nullable_of_stays (hR : R.Ranked S N rank)
    (hT : ∀ x y, T.next x (.ok y) → left y < left x) {p : Pattern V} (hp : p.Within S)
    (h : Stays T R p) : p.Nullable N := by
  obtain ⟨x, v, hx⟩ := h
  rcases hx.stays_or_advances hR hT hp with ⟨-, hnullable⟩ | hlt
  · exact hnullable
  · exact absurd hlt (Nat.lt_irrefl _)

/-- Where the nullable patterns are those that are taken to match without consuming a token, those
that do so will do as well. -/
theorem Rulebook.Ranked.descends (hR : R.Ranked S N rank)
    (hT : ∀ x y, T.next x (.ok y) → left y < left x) : R.Descends S (Stays T R) rank where
  closed := hR.closed
  opens href hbody := Pattern.Opens.imp (fun _ hp => hR.nullable_of_stays hT hp) _
    (hR.closed _ _ _ href hbody) (hR.opens href hbody)

/-- A match stops where it began, or where fewer tokens are left. -/
theorem Derives.moves (hT : ∀ x y, T.next x (.ok y) → left y < left x) {p : Pattern V} {x y : C}
    {v : V} (h : Derives T R (.whole p) x (.matched y v)) : y = x ∨ left y < left x := by
  have hnext : ∀ y z, y = x ∨ left y < left x → T.next y (.ok z) → z = x ∨ left z < left x := by
    intro y z hle hz
    right
    rcases hle with rfl | hlt
    · exact hT _ _ hz
    · exact Nat.lt_trans (hT _ _ hz) hlt
  exact h.all hnext trivial (.inl rfl)

/-- A match that begins at a place of `I` stops at a place of `I`: where it began, or where fewer
tokens are left. -/
theorem Derives.stop_mem (hT : T.Finite I left) {p : Pattern V} {x y : C} {v : V} (hx : I x)
    (h : Derives T R (.whole p) x (.matched y v)) : I y ∧ (y = x ∨ left y < left x) :=
  ⟨h.all (fun _ _ => hT.next) trivial hx, h.moves fun _ _ => hT.lt⟩

/-! ## Verdicts -/

/-- A match of one token comes to a verdict. -/
theorem exists_derives_token (hT : T.Finite I left) (expected : Expected V) (test : V → Bool)
    {x : C} (hx : I x) : ∃ o, Derives T R (.token expected test) x o := by
  cases hv : T.token? x with
  | none => exact ⟨_, .tokenRefused (by rw [hv, Option.any_none])⟩
  | some v =>
    cases ht : test v with
    | false => exact ⟨_, .tokenRefused (by rw [hv, Option.any_some, ht])⟩
    | true =>
      obtain ⟨r, hr⟩ := hT.exists_next hx hv
      exact ⟨_, .token hv ht hr⟩

/-- The rest of a sequence comes to a verdict, if all patterns do where fewer than `n` tokens are
left. -/
theorem exists_derives_items (hT : T.Finite I left) {n : Nat}
    (h : ∀ y, I y → left y < n → ∀ p : Pattern V, p.Within S → ∃ o, Derives T R (.whole p) y o)
    (ps : List (Pattern V)) (hps : Pattern.AllWithin S ps) (values : List V) {y : C} (hy : I y)
    (hn : left y < n) : ∃ o, Derives T R (.items ps values) y o := by
  induction ps generalizing values y with
  | nil => exact ⟨_, .itemsDone⟩
  | cons p ps ih =>
    obtain ⟨o, ho⟩ := h y hy hn p hps.1
    cases o with
    | matched z v =>
      -- the next item is tried where no more tokens are left
      obtain ⟨hz, hle⟩ := ho.stop_mem hT hy
      have hzn : left z < n := by
        rcases hle with rfl | hlt
        · exact hn
        · omega
      obtain ⟨o', ho'⟩ := ih hps.2 (v :: values) hz hzn
      exact ⟨o', .itemsNext ho ho'⟩
    | refused | broken => exact ⟨_, .itemsStop ho rfl⟩

/-- A repetition comes to a verdict, if its body does at the place and where fewer tokens are
left. -/
theorem exists_derives_again (hT : T.Finite I left) {body : Pattern V} {x : C} (hx : I x)
    (hbody : ∃ o, Derives T R (.whole body) x o)
    (h : ∀ y, I y → left y < left x → ∃ o, Derives T R (.whole body) y o) (needsOne : Bool)
    (values : List V) : ∃ o, Derives T R (.again body needsOne values) x o := by
  -- Every match of the body but the last leaves fewer tokens than there were before it.
  induction hn : left x using Nat.strongRecOn generalizing x values with
  | ind n ih =>
    subst hn
    obtain ⟨o, ho⟩ := hbody
    cases hc : T.consumes x o with
    | false => exact ⟨_, .againStop ho hc⟩
    | true =>
      cases o with
      | matched y v =>
        have hlt : T.offset x < T.offset y := of_decide_eq_true hc
        obtain ⟨hy, hle⟩ := ho.stop_mem hT hx
        have hyx : left y < left x := by
          rcases hle with rfl | hyx
          · omega
          · exact hyx
        obtain ⟨o', ho'⟩ := ih (left y) hyx hy (h y hy hyx)
          (fun z hz hzy => h z hz (Nat.lt_trans hzy hyx)) (v :: values) rfl
        exact ⟨o', .againNext ho hlt ho'⟩
      | refused | broken => cases hc

/-- What a match at `x` may go on with comes to a verdict: a pattern where fewer tokens are left,
and a rule of `Q` at `x`. -/
structure Prepared (T : Tape C V) (R : Rulebook V) (S Q : RuleRef → Prop) (I : C → Prop)
    (left : C → Nat) (x : C) : Prop where
  place : I x
  later (y : C) : I y → left y < left x → ∀ p : Pattern V, p.Within S →
    ∃ o, Derives T R (.whole p) y o
  rule (ref : RuleRef) : S ref → Q ref → ∃ o, Derives T R (.whole (.rule ref)) x o

mutual

/-- A pattern comes to a verdict, if so do the rules that it may enter before it has consumed a
token. -/
theorem exists_derives_whole (hM : ∀ p : Pattern V, p.Within S → Stays T R p → M p)
    (hT : T.Finite I left) {x : C} {Q : RuleRef → Prop} (h : Prepared T R S Q I left x) :
    (p : Pattern V) → p.Within S → p.Opens M Q → ∃ o, Derives T R (.whole p) x o
  | .terminal value, _, _ => by
    obtain ⟨o, ho⟩ := exists_derives_token hT (.token value) (· = value) h.place
    exact ⟨o, .terminal ho⟩
  | .predicate label test, _, _ => by
    obtain ⟨o, ho⟩ := exists_derives_token hT (.label label) test h.place
    exact ⟨o, .predicate ho⟩
  | .any, _, _ => by
    obtain ⟨o, ho⟩ := exists_derives_token hT .anyToken (fun _ => true) h.place
    exact ⟨o, .any ho⟩
  | .finish, _, _ => by
    cases hv : T.token? x with
    | none => exact ⟨_, .finish hv⟩
    | some v => exact ⟨_, .finishRefused hv⟩
  | .sequence ps, hwithin, hopens => by
    obtain ⟨o, ho⟩ := exists_derives_sequence hM hT h ps hwithin hopens []
    exact ⟨o, .sequence ho⟩
  | .choice ps, hwithin, hopens => by
    obtain ⟨o, ho⟩ := exists_derives_choice hM hT h ps hwithin hopens none
    exact ⟨o, .choice ho⟩
  | .zeroOrMore body, hwithin, hopens => by
    obtain ⟨o, ho⟩ := exists_derives_again hT h.place
      (exists_derives_whole hM hT h body hwithin hopens)
      (fun y hy hlt => h.later y hy hlt body hwithin) false []
    exact ⟨o, .zeroOrMore ho⟩
  | .oneOrMore body, hwithin, hopens => by
    obtain ⟨o, ho⟩ := exists_derives_again hT h.place
      (exists_derives_whole hM hT h body hwithin hopens)
      (fun y hy hlt => h.later y hy hlt body hwithin) true []
    exact ⟨o, .oneOrMore ho⟩
  | .optional body, hwithin, hopens => by
    obtain ⟨o, ho⟩ := exists_derives_whole hM hT h body hwithin hopens
    exact ⟨_, .optional ho⟩
  | .not body, hwithin, hopens => by
    obtain ⟨o, ho⟩ := exists_derives_whole hM hT h body hwithin hopens
    exact ⟨_, .not ho⟩
  | .rule ref, hwithin, hopens => h.rule ref hwithin hopens
  | .tally _ body, hwithin, hopens => by
    obtain ⟨o, ho⟩ := exists_derives_whole hM hT h body hwithin hopens
    exact ⟨o, .tally ho⟩
  | .silent, _, _ => ⟨_, .silent⟩

/-- The rest of a sequence that has consumed nothing so far. -/
theorem exists_derives_sequence (hM : ∀ p : Pattern V, p.Within S → Stays T R p → M p)
    (hT : T.Finite I left) {x : C} {Q : RuleRef → Prop} (h : Prepared T R S Q I left x) :
    (ps : List (Pattern V)) → Pattern.AllWithin S ps → Pattern.SequenceOpens M Q ps →
    (values : List V) → ∃ o, Derives T R (.items ps values) x o
  | [], _, _, _ => ⟨_, .itemsDone⟩
  | p :: ps, hwithin, hopens, values => by
    obtain ⟨o, ho⟩ := exists_derives_whole hM hT h p hwithin.1 hopens.1
    cases o with
    | matched y v =>
      -- While nothing is consumed the rest may enter the rules of `Q`, and behind a token any rule.
      have hrest : ∃ o', Derives T R (.items ps (v :: values)) y o' := by
        obtain ⟨hy, rfl | hlt⟩ := ho.stop_mem hT h.place
        · have hp : M p := hM p hwithin.1 ⟨_, _, ho⟩
          exact exists_derives_sequence hM hT h ps hwithin.2 (hopens.2 hp) _
        · exact exists_derives_items hT h.later ps hwithin.2 _ hy hlt
      obtain ⟨o', ho'⟩ := hrest
      exact ⟨o', .itemsNext ho ho'⟩
    | refused | broken => exact ⟨_, .itemsStop ho rfl⟩

/-- The rest of a choice. -/
theorem exists_derives_choice (hM : ∀ p : Pattern V, p.Within S → Stays T R p → M p)
    (hT : T.Finite I left) {x : C} {Q : RuleRef → Prop} (h : Prepared T R S Q I left x) :
    (ps : List (Pattern V)) → Pattern.AllWithin S ps → Pattern.ChoiceOpens M Q ps →
    (failed : Option (Refusal C V)) → ∃ o, Derives T R (.alternatives ps failed) x o
  | [], _, _, _ => ⟨_, .alternativesDone⟩
  | p :: ps, hwithin, hopens, failed => by
    obtain ⟨o, ho⟩ := exists_derives_whole hM hT h p hwithin.1 hopens.1
    cases o with
    | refused r =>
      obtain ⟨o', ho'⟩ :=
        exists_derives_choice hM hT h ps hwithin.2 hopens.2 (some (T.mergeInto failed r))
      exact ⟨o', .alternativesNext ho ho'⟩
    | matched | broken => exact ⟨_, .alternativesStop ho rfl⟩

end

/-- **Every match comes to a verdict**, if no rule is left-recursive and the input is finite. -/
theorem Rulebook.Descends.exists_derives (hR : R.Descends S M rank)
    (hM : ∀ p : Pattern V, p.Within S → Stays T R p → M p) (hT : T.Finite I left) {p : Pattern V}
    (hp : p.Within S) {x : C} (hx : I x) : ∃ o, Derives T R (.whole p) x o := by
  -- The tokens that are left decrease first, then the rank of the rules that are entered.
  induction hn : left x using Nat.strongRecOn generalizing p x with
  | ind n ih =>
    subst hn
    have hlater : ∀ y, I y → left y < left x → ∀ p : Pattern V, p.Within S →
        ∃ o, Derives T R (.whole p) y o := fun y hy hlt p hp => ih (left y) hlt hp hy rfl
    -- A rule enters rules of a lower rank before it has consumed a token, and any rule after.
    have hrules : ∀ k ref, S ref → rank ref < k → ∃ o, Derives T R (.whole (.rule ref)) x o := by
      intro k
      induction k with
      | zero => intro ref _ hk; omega
      | succ k ihk =>
        intro ref href hk
        cases hbody : R ref with
        | error fault => exact ⟨_, .ruleUnknown hbody⟩
        | ok rule =>
          obtain ⟨body, transform⟩ := rule
          have hprepared : Prepared T R S (fun other => rank other < rank ref) I left x :=
            ⟨hx, hlater, fun other hother hlt => ihk other hother (by omega)⟩
          obtain ⟨o, ho⟩ := exists_derives_whole hM hT hprepared body
            (hR.closed _ _ _ href hbody) (hR.opens href hbody)
          exact ⟨_, .rule hbody ho⟩
    have hprepared : Prepared T R S (fun _ => True) I left x :=
      ⟨hx, hlater, fun ref href _ => hrules _ ref href (Nat.lt_succ_self _)⟩
    exact exists_derives_whole hM hT hprepared p hp (p.opens_true M)

end Humus.Peg
