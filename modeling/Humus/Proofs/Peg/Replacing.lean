import Humus.Proofs.Peg.Lists

/-!
# Replacing rules

Two grammars have the same matches, up to what their failures say, when every rule of the one comes
over the other to what its own body comes to there. The parts of a derivation are then replaced one
after the other.

To compare the bodies of two rules one has to know what comes of their sequences and choices, item
by item and alternative by alternative.

## Main definitions

* `Verdict.Alike`: the same match, or both refused
* `Rulebook.Replaces T R R'`: every rule comes over `R'` to what `R` makes of its body there
* `Outcome.Alike`: the same for the outcomes of parses
* `MatchesAll T R ps x vs y`, `RefusesOne T R ps x r`: what comes of the items of a sequence
* `RefusesAll T R ps x`: all alternatives are refused

## Main results

* `Derives.replace`: what is derived over `R` is derived alike over `R'`
* `parseAt_alike`: what is derived alike is parsed alike
* `Derives.sequence_cases`, `Derives.tail_cases`, `Derives.choice_at_cases`: what comes of a
  sequence, of a sequence with an optional tail, and of a choice
-/

namespace Humus.Peg

open Dispatch (Terminates)

variable {C V : Type}

/-! ## Alike verdicts -/

/-- Both match, up to the same place and with the same value, or both are refused. -/
inductive Verdict.Alike : Verdict C V → Verdict C V → Prop where
  | matched {y v} : Alike (.matched y v) (.matched y v)
  | refused {r r'} : Alike (.refused r) (.refused r')

/-- Both parses matched, between the same positions and with the same value, or both failed. -/
inductive Outcome.Alike : Outcome V → Outcome V → Prop where
  | matched {s s'} : s'.start.position = s.start.position → s'.stop.position = s.stop.position →
      s'.value = s.value → Alike (.ok s) (.ok s')
  | failed {f f'} : Alike (.error (.failed f)) (.error (.failed f'))

/-- The same task. What is known of alternatives before may differ. -/
inductive Task.Alike : Task C V → Task C V → Prop where
  | whole {p} : Alike (.whole p) (.whole p)
  | token {expected test} : Alike (.token expected test) (.token expected test)
  | items {rest values} : Alike (.items rest values) (.items rest values)
  | alternatives {rest failed failed'} :
      Alike (.alternatives rest failed) (.alternatives rest failed')
  | again {body needsOne values} :
      Alike (.again body needsOne values) (.again body needsOne values)

namespace Verdict

variable {o o' o'' : Verdict C V} {x : C}

theorem matched_ne_broken {y : C} {v : V} (b : Break) : Verdict.matched y v ≠ .broken b := by
  intro h
  cases h

theorem refused_ne_broken {r : Refusal C V} (b : Break) : Verdict.refused r ≠ .broken b := by
  intro h
  cases h

theorem Alike.refl (h : ∀ b, o ≠ .broken b) : o.Alike o := by
  cases o with
  | matched y v => exact .matched
  | refused r => exact .refused
  | broken b => exact absurd rfl (h b)

theorem Alike.trans (h : o.Alike o') (h' : o'.Alike o'') : o.Alike o'' := by
  cases h with
  | matched => exact h'
  | refused =>
    cases h'
    exact .refused

theorem Alike.ne_broken (h : o.Alike o') (b : Break) : o' ≠ .broken b := by
  rintro rfl
  cases h

theorem Alike.isMatched (h : o.Alike o') : o'.isMatched = o.isMatched := by
  cases h <;> rfl

theorem Alike.isRefused (h : o.Alike o') : o'.isRefused = o.isRefused := by
  cases h <;> rfl

theorem Alike.consumes {T : Tape C V} (h : o.Alike o') : T.consumes x o' = T.consumes x o := by
  cases h <;> rfl

theorem Alike.reduce {T : Tape C V} {name : String} {transform : Option (Transform V)}
    (h : o.Alike o') (hne : ∀ b, T.reduce name transform x o ≠ .broken b) :
    (T.reduce name transform x o).Alike (T.reduce name transform x o') := by
  cases h with
  | matched => exact .refl hne
  | refused => exact .refused

variable [MatchValue V]

theorem Alike.optional (h : o.Alike o') : (o.optional x).Alike (o'.optional x) := by
  cases h <;> exact .matched

theorem Alike.not (h : o.Alike o') : (o.not x).Alike (o'.not x) := by
  cases h with
  | matched => exact .refused
  | refused => exact .matched

theorem Alike.ending {needsOne : Bool} {values : List V} (h : o.Alike o') :
    (o.ending x needsOne values).Alike (o'.ending x needsOne values) := by
  cases h with
  | matched => exact .matched
  | refused =>
    simp only [Verdict.ending]
    split
    · exact .refused
    · exact .matched

end Verdict

variable [MatchValue V] [DecidableEq V] {T : Tape C V} {R R' : Rulebook V} {x y z : C}
  {p q : Pattern V} {ps qs : List (Pattern V)} {v : V} {vs us values : List V} {o : Verdict C V}
  {r : Refusal C V}

/-! ## Replacing rules -/

/-- Every rule comes over `R'` to what `R` makes of what the body of the rule comes to there. -/
def Rulebook.Replaces (T : Tape C V) (R R' : Rulebook V) : Prop :=
  ∀ ref body transform x o, R ref = .ok (body, transform) → Derives T R' (.whole body) x o →
    (∀ b, T.reduce ref.name transform x o ≠ .broken b) →
    ∃ o', Derives T R' (.whole (.rule ref)) x o' ∧ (T.reduce ref.name transform x o).Alike o'

/-- **Rules are replaced in a derivation.** What matches or is refused over `R` does so alike over
`R'`. -/
theorem Derives.replace (hR : R.Replaces T R') {task : Task C V} (h : Derives T R task x o) :
    (∀ b, o ≠ .broken b) → ∀ {task'}, task.Alike task' →
      ∃ o', Derives T R' task' x o' ∧ o.Alike o' := by
  -- Nothing that a match that is not broken off is derived from is broken off.
  induction h with
  | terminal _ ih =>
    rintro hne _ ⟨⟩
    obtain ⟨o', h, ho⟩ := ih hne .token
    exact ⟨o', .terminal h, ho⟩
  | predicate _ ih =>
    rintro hne _ ⟨⟩
    obtain ⟨o', h, ho⟩ := ih hne .token
    exact ⟨o', .predicate h, ho⟩
  | any _ ih =>
    rintro hne _ ⟨⟩
    obtain ⟨o', h, ho⟩ := ih hne .token
    exact ⟨o', .any h, ho⟩
  | token hv ht hnext =>
    rintro hne _ ⟨⟩
    exact ⟨_, .token hv ht hnext, .refl hne⟩
  | tokenRefused ht =>
    rintro - _ ⟨⟩
    exact ⟨_, .tokenRefused ht, .refused⟩
  | finish ht =>
    rintro - _ ⟨⟩
    exact ⟨_, .finish ht, .matched⟩
  | finishRefused ht =>
    rintro - _ ⟨⟩
    exact ⟨_, .finishRefused ht, .refused⟩
  | sequence _ ih =>
    rintro hne _ ⟨⟩
    obtain ⟨o', h, ho⟩ := ih hne .items
    exact ⟨o', .sequence h, ho⟩
  | itemsDone =>
    rintro - _ ⟨⟩
    exact ⟨_, .itemsDone, .matched⟩
  | itemsNext _ _ ih ih' =>
    rintro hne _ ⟨⟩
    obtain ⟨_, h, ⟨⟩⟩ := ih Verdict.matched_ne_broken .whole
    obtain ⟨o', h', ho'⟩ := ih' hne .items
    exact ⟨o', .itemsNext h h', ho'⟩
  | itemsStop _ hstop ih =>
    rintro hne _ ⟨⟩
    obtain ⟨o', h, ho⟩ := ih hne .whole
    exact ⟨o', .itemsStop h (ho.isMatched.trans hstop), ho⟩
  | choice _ ih =>
    rintro hne _ ⟨⟩
    obtain ⟨o', h, ho⟩ := ih hne .alternatives
    exact ⟨o', .choice h, ho⟩
  | alternativesDone =>
    rintro - _ ⟨⟩
    exact ⟨_, .alternativesDone, .refused⟩
  | alternativesNext _ _ ih ih' =>
    rintro hne _ ⟨⟩
    obtain ⟨_, h, ⟨⟩⟩ := ih Verdict.refused_ne_broken .whole
    obtain ⟨o', h', ho'⟩ := ih' hne .alternatives
    exact ⟨o', .alternativesNext h h', ho'⟩
  | alternativesStop _ hstop ih =>
    rintro hne _ ⟨⟩
    obtain ⟨o', h, ho⟩ := ih hne .whole
    exact ⟨o', .alternativesStop h (ho.isRefused.trans hstop), ho⟩
  | zeroOrMore _ ih =>
    rintro hne _ ⟨⟩
    obtain ⟨o', h, ho⟩ := ih hne .again
    exact ⟨o', .zeroOrMore h, ho⟩
  | oneOrMore _ ih =>
    rintro hne _ ⟨⟩
    obtain ⟨o', h, ho⟩ := ih hne .again
    exact ⟨o', .oneOrMore h, ho⟩
  | againNext _ hlt _ ih ih' =>
    rintro hne _ ⟨⟩
    obtain ⟨_, h, ⟨⟩⟩ := ih Verdict.matched_ne_broken .whole
    obtain ⟨o', h', ho'⟩ := ih' hne .again
    exact ⟨o', .againNext h hlt h', ho'⟩
  | againStop _ hstop ih =>
    rintro hne _ ⟨⟩
    obtain ⟨o', h, ho⟩ := ih (fun b hb => hne b (by rw [hb]; rfl)) .whole
    exact ⟨_, .againStop h (ho.consumes.trans hstop), ho.ending⟩
  | optional _ ih =>
    rintro hne _ ⟨⟩
    obtain ⟨o', h, ho⟩ := ih (fun b hb => hne b (by rw [hb]; rfl)) .whole
    exact ⟨_, .optional h, ho.optional⟩
  | not _ ih =>
    rintro hne _ ⟨⟩
    obtain ⟨o', h, ho⟩ := ih (fun b hb => hne b (by rw [hb]; rfl)) .whole
    exact ⟨_, .not h, ho.not⟩
  | ruleUnknown _ =>
    intro hne
    exact absurd rfl (hne _)
  | rule hrule _ ih =>
    rintro hne _ ⟨⟩
    -- the body is replaced over the new rules, and then the rule by its new body
    obtain ⟨o', h, ho⟩ := ih (fun b hb => hne b (by rw [hb]; rfl)) .whole
    have ho := ho.reduce hne
    obtain ⟨o'', h', ho'⟩ := hR _ _ _ _ _ hrule h ho.ne_broken
    exact ⟨o'', h', ho.trans ho'⟩
  | tally _ ih =>
    rintro hne _ ⟨⟩
    obtain ⟨o', h, ho⟩ := ih hne .whole
    exact ⟨o', .tally h, ho⟩
  | silent =>
    intro hne
    exact absurd rfl (hne _)

/-- What is derived alike over two rulebooks is parsed alike in their worlds. -/
theorem parseAt_alike {items : List V} {k : Nat} {w w' : World V} {o o' : Verdict Nat V}
    (hk : k ≤ items.length)
    (h : Derives (Input.items items).tape w.rulebook (.whole p) k o)
    (h' : Derives (Input.items items).tape w'.rulebook (.whole p) k o') (halike : o.Alike o') :
    ∃ out out',
      Terminates (fun fuel => parseAt fuel none p (valueCursor k (items.drop k)) w) (·.1 = out) ∧
      Terminates (fun fuel => parseAt fuel none p (valueCursor k (items.drop k)) w')
        (·.1 = out') ∧
      out.Alike out' := by
  obtain ⟨⟨out, w₁⟩, hreport, hrun⟩ := parseAt_reports hk h
  obtain ⟨⟨out', w₂⟩, hreport', hrun'⟩ := parseAt_reports hk h'
  refine ⟨out, out', ⟨_, rfl, hrun⟩, ⟨_, rfl, hrun'⟩, ?_⟩
  cases halike with
  | matched =>
    obtain ⟨s, rfl, hstart, hstop, hvalue⟩ := Outcome.exists_ok hreport
    obtain ⟨s', rfl, hstart', hstop', hvalue'⟩ := Outcome.exists_ok hreport'
    exact .matched (hstart'.trans hstart.symm) (hstop'.trans hstop.symm)
      (hvalue'.trans hvalue.symm)
  | refused =>
    obtain ⟨f, rfl⟩ := Outcome.exists_failed hreport
    obtain ⟨f', rfl⟩ := Outcome.exists_failed hreport'
    exact .failed

/-! ## Sequences -/

/-- The patterns match one after the other, from `x` to `y`, with the values `vs`. -/
inductive MatchesAll (T : Tape C V) (R : Rulebook V) :
    List (Pattern V) → C → List V → C → Prop where
  | nil {x : C} : MatchesAll T R [] x [] x
  | cons {p : Pattern V} {ps : List (Pattern V)} {x y z : C} {v : V} {vs : List V} :
      Derives T R (.whole p) x (.matched y v) → MatchesAll T R ps y vs z →
      MatchesAll T R (p :: ps) x (v :: vs) z

/-- The patterns match one after the other, up to one that is refused. -/
inductive RefusesOne (T : Tape C V) (R : Rulebook V) :
    List (Pattern V) → C → Refusal C V → Prop where
  | head {p : Pattern V} {ps : List (Pattern V)} {x : C} {r : Refusal C V} :
      Derives T R (.whole p) x (.refused r) → RefusesOne T R (p :: ps) x r
  | tail {p : Pattern V} {ps : List (Pattern V)} {x y : C} {v : V} {r : Refusal C V} :
      Derives T R (.whole p) x (.matched y v) → RefusesOne T R ps y r →
      RefusesOne T R (p :: ps) x r

namespace MatchesAll

theorem length_eq (h : MatchesAll T R ps x vs y) : vs.length = ps.length := by
  induction h with
  | nil => rfl
  | cons _ _ ih => rw [List.length_cons, List.length_cons, ih]

theorem append (h : MatchesAll T R ps x vs y) (h' : MatchesAll T R qs y us z) :
    MatchesAll T R (ps ++ qs) x (vs ++ us) z := by
  induction h with
  | nil => exact h'
  | cons hp _ ih => exact .cons hp (ih h')

theorem refuses (h : MatchesAll T R ps x vs y) (h' : RefusesOne T R qs y r) :
    RefusesOne T R (ps ++ qs) x r := by
  induction h with
  | nil => exact h'
  | cons hp _ ih => exact .tail hp (ih h')

theorem exists_append (h : MatchesAll T R (ps ++ qs) x vs z) :
    ∃ us y us', vs = us ++ us' ∧ MatchesAll T R ps x us y ∧ MatchesAll T R qs y us' z := by
  induction ps generalizing x vs with
  | nil => exact ⟨[], x, vs, rfl, .nil, h⟩
  | cons p ps ih =>
    obtain _ | ⟨hp, h⟩ := h
    obtain ⟨us, y, us', rfl, h, h'⟩ := ih h
    exact ⟨_ :: us, y, us', rfl, .cons hp h, h'⟩

theorem items (h : MatchesAll T R ps x vs y) (values : List V) :
    Derives T R (.items ps values) x (.matched y (MatchValue.list (values.reverse ++ vs))) := by
  induction h generalizing values with
  | nil =>
    rw [List.append_nil]
    exact .itemsDone
  | @cons p ps x y z v vs hp _ ih =>
    have hrest := ih (v :: values)
    rw [List.reverse_cons, List.append_assoc] at hrest
    exact .itemsNext hp hrest

theorem sequence (h : MatchesAll T R ps x vs y) :
    Derives T R (.whole (.sequence ps)) x (.matched y (MatchValue.list vs)) :=
  .sequence (h.items [])

end MatchesAll

namespace RefusesOne

theorem append (h : RefusesOne T R ps x r) (qs : List (Pattern V)) :
    RefusesOne T R (ps ++ qs) x r := by
  induction h with
  | head hp => exact .head hp
  | tail hp _ ih => exact .tail hp ih

theorem exists_append (h : RefusesOne T R (ps ++ qs) x r) :
    RefusesOne T R ps x r ∨ ∃ vs y, MatchesAll T R ps x vs y ∧ RefusesOne T R qs y r := by
  induction ps generalizing x with
  | nil => exact .inr ⟨[], x, .nil, h⟩
  | cons p ps ih =>
    rcases h with hp | ⟨hp, h⟩
    · exact .inl (.head hp)
    · rcases ih h with h | ⟨vs, y, h, h'⟩
      · exact .inl (.tail hp h)
      · exact .inr ⟨_ :: vs, y, .cons hp h, h'⟩

theorem items (h : RefusesOne T R ps x r) (values : List V) :
    Derives T R (.items ps values) x (.refused r) := by
  induction h generalizing values with
  | head hp => exact .itemsStop hp rfl
  | tail hp _ ih => exact .itemsNext hp (ih _)

theorem sequence (h : RefusesOne T R ps x r) :
    Derives T R (.whole (.sequence ps)) x (.refused r) :=
  .sequence (h.items [])

end RefusesOne

theorem Derives.items_cases (h : Derives T R (.items ps values) x o) (hne : ∀ b, o ≠ .broken b) :
    (∃ y vs, o = .matched y (MatchValue.list (values.reverse ++ vs)) ∧ MatchesAll T R ps x vs y) ∨
      ∃ r, o = .refused r ∧ RefusesOne T R ps x r := by
  induction ps generalizing x values with
  | nil =>
    cases h
    exact .inl ⟨x, [], by rw [List.append_nil], .nil⟩
  | cons p ps ih =>
    cases h with
    | @itemsNext _ _ _ _ y v _ hp h =>
      rcases ih h with ⟨z, vs, rfl, hps⟩ | ⟨r, rfl, hps⟩
      · refine .inl ⟨z, v :: vs, ?_, .cons hp hps⟩
        rw [List.reverse_cons, List.append_assoc]
        rfl
      · exact .inr ⟨r, rfl, .tail hp hps⟩
    | itemsStop hp hstop =>
      cases o with
      | matched y v => cases hstop
      | refused r => exact .inr ⟨r, rfl, .head hp⟩
      | broken b => exact absurd rfl (hne b)

/-- What comes of a sequence. -/
theorem Derives.sequence_cases (h : Derives T R (.whole (.sequence ps)) x o)
    (hne : ∀ b, o ≠ .broken b) :
    (∃ y vs, o = .matched y (MatchValue.list vs) ∧ MatchesAll T R ps x vs y) ∨
      ∃ r, o = .refused r ∧ RefusesOne T R ps x r := by
  cases h with
  | sequence h => exact h.items_cases hne

theorem Derives.exists_matchesAll (h : Derives T R (.whole (.sequence ps)) x (.matched y v)) :
    ∃ vs, v = MatchValue.list vs ∧ MatchesAll T R ps x vs y := by
  rcases h.sequence_cases Verdict.matched_ne_broken with ⟨_, vs, ⟨⟩, hall⟩ | ⟨_, ⟨⟩, -⟩
  exact ⟨vs, rfl, hall⟩

theorem Derives.refusesOne (h : Derives T R (.whole (.sequence ps)) x (.refused r)) :
    RefusesOne T R ps x r := by
  rcases h.sequence_cases Verdict.refused_ne_broken with ⟨_, _, ⟨⟩, -⟩ | ⟨_, ⟨⟩, hone⟩
  exact hone

/-- What comes of an option. -/
theorem Derives.optional_cases (h : Derives T R (.whole (.optional p)) x o)
    (hne : ∀ b, o ≠ .broken b) :
    (∃ y v, o = .matched y (MatchValue.list [v]) ∧ Derives T R (.whole p) x (.matched y v)) ∨
      ∃ r, o = .matched x (MatchValue.list []) ∧ Derives T R (.whole p) x (.refused r) := by
  cases h with
  | @optional _ _ o' hp =>
    cases o' with
    | matched y v => exact .inl ⟨y, v, rfl, hp⟩
    | refused r => exact .inr ⟨r, rfl, hp⟩
    | broken b => exact absurd rfl (hne b)

/-- An option is never refused. -/
theorem Derives.optional_not_refused : ¬ Derives T R (.whole (.optional p)) x (.refused r) := by
  intro h
  rcases h.optional_cases Verdict.refused_ne_broken with ⟨_, _, ⟨⟩, -⟩ | ⟨_, ⟨⟩, -⟩

/-- **What comes of a sequence with an optional tail.** It is refused where the items before the
tail are, and otherwise matches with the tail or, if that is refused, without. -/
theorem Derives.tail_cases
    (h : Derives T R (.whole (.sequence (ps ++ [.optional (.sequence qs)]))) x o)
    (hne : ∀ b, o ≠ .broken b) :
    (∃ r, o = .refused r ∧ RefusesOne T R ps x r) ∨
    (∃ vs y us z, o = .matched z
        (MatchValue.list (vs ++ [MatchValue.list [MatchValue.list us]])) ∧
      MatchesAll T R ps x vs y ∧ MatchesAll T R qs y us z) ∨
    ∃ vs y r, o = .matched y (MatchValue.list (vs ++ [MatchValue.list []])) ∧
      MatchesAll T R ps x vs y ∧ RefusesOne T R qs y r := by
  rcases h.sequence_cases hne with ⟨z, vs, rfl, hall⟩ | ⟨r, rfl, hone⟩
  · right
    obtain ⟨vs, y, us, rfl, hps, _ | ⟨hoption, ⟨⟩⟩⟩ := hall.exists_append
    rcases hoption.optional_cases Verdict.matched_ne_broken with ⟨z, v, ⟨⟩, htail⟩ | ⟨r, ⟨⟩, htail⟩
    · obtain ⟨us, rfl, hqs⟩ := htail.exists_matchesAll
      exact .inl ⟨vs, y, us, _, rfl, hps, hqs⟩
    · exact .inr ⟨vs, _, r, rfl, hps, htail.refusesOne⟩
  · left
    rcases hone.exists_append with hps | ⟨vs, y, -, hoption | ⟨-, ⟨⟩⟩⟩
    · exact ⟨r, rfl, hps⟩
    · exact absurd hoption Derives.optional_not_refused

/-! ## Choices -/

/-- All patterns are refused. -/
def RefusesAll (T : Tape C V) (R : Rulebook V) (ps : List (Pattern V)) (x : C) : Prop :=
  ∀ p ∈ ps, ∃ r, Derives T R (.whole p) x (.refused r)

theorem RefusesAll.nil : RefusesAll T R [] x :=
  List.forall_mem_nil _

theorem RefusesAll.cons (hp : ∃ r, Derives T R (.whole p) x (.refused r))
    (hps : RefusesAll T R ps x) : RefusesAll T R (p :: ps) x :=
  List.forall_mem_cons.mpr ⟨hp, hps⟩

theorem RefusesAll.append (hps : RefusesAll T R ps x) (hqs : RefusesAll T R qs x) :
    RefusesAll T R (ps ++ qs) x :=
  List.forall_mem_append.mpr ⟨hps, hqs⟩

/-- A choice between refused alternatives is refused. -/
theorem RefusesAll.alternatives (h : RefusesAll T R ps x) (failed : Option (Refusal C V)) :
    ∃ r, Derives T R (.alternatives ps failed) x (.refused r) := by
  induction ps generalizing failed with
  | nil => exact ⟨_, .alternativesDone⟩
  | cons p ps ih =>
    obtain ⟨⟨r, hr⟩, hps⟩ := List.forall_mem_cons.mp h
    obtain ⟨r', hr'⟩ := ih hps (some (T.mergeInto failed r))
    exact ⟨r', .alternativesNext hr hr'⟩

/-- A choice matches what the first alternative matches that is not refused. -/
theorem RefusesAll.choice_next (h : RefusesAll T R ps x)
    (hp : Derives T R (.whole p) x (.matched y v)) (qs : List (Pattern V)) :
    Derives T R (.whole (.choice (ps ++ p :: qs))) x (.matched y v) := by
  have hnext : ∀ failed, Derives T R (.alternatives (ps ++ p :: qs) failed) x (.matched y v) := by
    induction ps with
    | nil => exact fun _ => .alternativesStop hp rfl
    | cons q ps ih =>
      intro failed
      obtain ⟨⟨r, hr⟩, hps⟩ := List.forall_mem_cons.mp h
      exact .alternativesNext hr (ih hps _)
  exact .choice (hnext none)

theorem Derives.alternatives_cases {failed : Option (Refusal C V)}
    (h : Derives T R (.alternatives (ps ++ q :: qs) failed) x o) (hne : ∀ b, o ≠ .broken b) :
    (∃ p ∈ ps, ∃ y v, o = .matched y v ∧ Derives T R (.whole p) x o ∧
      ∀ qs failed, Derives T R (.alternatives (ps ++ qs) failed) x o) ∨
    RefusesAll T R ps x ∧ ((∃ y v, o = .matched y v ∧ Derives T R (.whole q) x o) ∨
      (∃ r, Derives T R (.whole q) x (.refused r)) ∧
        ∃ failed, Derives T R (.alternatives qs failed) x o) := by
  induction ps generalizing failed with
  | nil =>
    refine .inr ⟨.nil, ?_⟩
    cases h with
    | alternativesNext hr h => exact .inr ⟨⟨_, hr⟩, _, h⟩
    | alternativesStop hq hstop =>
      cases o with
      | matched y v => exact .inl ⟨y, v, rfl, hq⟩
      | refused r => cases hstop
      | broken b => exact absurd rfl (hne b)
  | cons p ps ih =>
    cases h with
    | alternativesNext hr h =>
      rcases ih h with ⟨p', hp', y, v, rfl, hv, hall⟩ | ⟨hps, h⟩
      · exact .inl ⟨p', List.mem_cons_of_mem p hp', y, v, rfl, hv,
          fun qs failed => .alternativesNext hr (hall qs _)⟩
      · exact .inr ⟨.cons ⟨_, hr⟩ hps, h⟩
    | alternativesStop hp hstop =>
      cases o with
      | matched y v =>
        exact .inl ⟨p, List.mem_cons_self, y, v, rfl, hp, fun _ _ => .alternativesStop hp rfl⟩
      | refused r => cases hstop
      | broken b => exact absurd rfl (hne b)

/-- **What comes of a choice**, as one of its alternatives sees it. An alternative before it
matches, whatever comes behind, or they are all refused; then it matches itself, or it is refused
and the alternatives behind it decide. -/
theorem Derives.choice_at_cases (h : Derives T R (.whole (.choice (ps ++ q :: qs))) x o)
    (hne : ∀ b, o ≠ .broken b) :
    (∃ p ∈ ps, ∃ y v, o = .matched y v ∧ Derives T R (.whole p) x o ∧
      ∀ qs, Derives T R (.whole (.choice (ps ++ qs))) x o) ∨
    RefusesAll T R ps x ∧ ((∃ y v, o = .matched y v ∧ Derives T R (.whole q) x o) ∨
      (∃ r, Derives T R (.whole q) x (.refused r)) ∧
        ∃ failed, Derives T R (.alternatives qs failed) x o) := by
  cases h with
  | choice h =>
    exact (h.alternatives_cases hne).imp_left fun ⟨p, hp, y, v, ho, hv, hall⟩ =>
      ⟨p, hp, y, v, ho, hv, fun qs => .choice (hall qs none)⟩

/-- **What comes of a choice.** One of its first alternatives matches, whatever comes behind them,
or they are all refused and the last one decides. -/
theorem Derives.choice_cases (h : Derives T R (.whole (.choice (ps ++ [q]))) x o)
    (hne : ∀ b, o ≠ .broken b) :
    (∃ p ∈ ps, ∃ y v, o = .matched y v ∧ Derives T R (.whole p) x o ∧
      ∀ qs, Derives T R (.whole (.choice (ps ++ qs))) x o) ∨
    RefusesAll T R ps x ∧ ∃ o', Derives T R (.whole q) x o' ∧ o'.Alike o := by
  apply (h.choice_at_cases hne).imp_right
  rintro ⟨hps, ⟨y, v, rfl, hq⟩ | ⟨⟨r, hr⟩, failed, hnone⟩⟩
  · exact ⟨hps, _, hq, .matched⟩
  · cases hnone
    exact ⟨hps, _, hr, .refused⟩

/-- Behind refused alternatives a choice comes to what the others come to. -/
theorem RefusesAll.choice_alike (h : RefusesAll T R ps x) {failed : Option (Refusal C V)}
    (hqs : Derives T R (.alternatives qs failed) x o) (hne : ∀ b, o ≠ .broken b) :
    ∃ o', Derives T R (.whole (.choice (ps ++ qs))) x o' ∧ o.Alike o' := by
  have hsame : R.Replaces T R :=
    fun _ _ _ _ _ hrule hbody hne => ⟨_, .rule hrule hbody, .refl hne⟩
  have hskip : ∀ failed, ∃ o',
      Derives T R (.alternatives (ps ++ qs) failed) x o' ∧ o.Alike o' := by
    induction ps with
    | nil => exact fun failed => hqs.replace hsame hne .alternatives
    | cons p ps ih =>
      intro failed
      obtain ⟨⟨r, hr⟩, hps⟩ := List.forall_mem_cons.mp h
      obtain ⟨o', ho', halike⟩ := ih hps (some (T.mergeInto failed r))
      exact ⟨o', .alternativesNext hr ho', halike⟩
  obtain ⟨o', ho', halike⟩ := hskip none
  exact ⟨o', .choice ho', halike⟩

/-- A choice between refused alternatives is refused. -/
theorem RefusesAll.choice (h : RefusesAll T R ps x) :
    ∃ r, Derives T R (.whole (.choice ps)) x (.refused r) := by
  obtain ⟨r, hr⟩ := h.alternatives none
  exact ⟨r, .choice hr⟩

/-- What matches is not refused. -/
theorem Derives.ne_refused (hT : ∀ x r r', T.next x r → T.next x r' → r' = r) {task : Task C V}
    (h : Derives T R task x (.matched y v)) : ¬ Derives T R task x (.refused r) := by
  intro h'
  cases h.agree (fun _ => rfl) (fun _ => rfl) hT _ h'

end Humus.Peg
