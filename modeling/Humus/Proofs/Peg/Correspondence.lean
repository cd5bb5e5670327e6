import Humus.Proofs.Peg.Derivation

/-!
# Corresponding inputs

Two inputs correspond when they hold the same tokens in the same order and agree on which of two
places comes first. A match depends on no more than that, as long as the transforms of its rules
do not: at corresponding places a pattern comes to corresponding verdicts.

The tokens need not be the same. It is enough that the places come in the same order, and that the
verdicts correspond on the parts that a pattern is built from: on what takes a token, and on those
rules that are not followed any further.

## Main definitions

* `Tape.Aligned T T' B`: the places of `T` and `T'` that `B` relates come in the same order
* `Tape.Corresponds T T' B`: the places that `B` relates hold the same tokens
* `Pattern.BuiltFrom S K p`: the pattern is built from rules of `S` and from patterns of `K`
* `Pattern.Within S p`: the pattern refers to rules of `S` only
* `Rulebook.Blind R S B`: the transforms of the rules of `S` cannot tell related places apart

## Main results

* `Derives.carry`: corresponding verdicts on what is built from parts with corresponding verdicts
* `Derives.transfer`: corresponding verdicts at corresponding places
* `Derives.mono`: an input that goes on in more ways has more derivations
-/

namespace Humus.Peg

variable {C C' V : Type}

/-! ## Related verdicts -/

/-- Both inputs break off, or go on at related places. -/
inductive GoesOn (B : C → C' → Prop) : Except Break C → Except Break C' → Prop where
  | ok {y y'} : B y y' → GoesOn B (.ok y) (.ok y')
  | error {b} : GoesOn B (.error b) (.error b)

/-- The same expectations at related places. -/
inductive Refusal.Rel (B : C → C' → Prop) : Refusal C V → Refusal C' V → Prop where
  | mk {x x' expected} : B x x' → Refusal.Rel B ⟨x, expected⟩ ⟨x', expected⟩

/-- The same verdict, up to related places. -/
inductive Verdict.Rel (B : C → C' → Prop) : Verdict C V → Verdict C' V → Prop where
  | matched {y y' v} : B y y' → Verdict.Rel B (.matched y v) (.matched y' v)
  | refused {r r'} : r.Rel B r' → Verdict.Rel B (.refused r) (.refused r')
  | broken {b} : Verdict.Rel B (.broken b) (.broken b)

/-- The same task, up to related places. -/
inductive Task.Rel (B : C → C' → Prop) : Task C V → Task C' V → Prop where
  | whole {p} : Task.Rel B (.whole p) (.whole p)
  | token {expected test} : Task.Rel B (.token expected test) (.token expected test)
  | items {rest values} : Task.Rel B (.items rest values) (.items rest values)
  | alternatives {rest} : Task.Rel B (.alternatives rest none) (.alternatives rest none)
  | alternativesSome {rest r r'} :
      r.Rel B r' → Task.Rel B (.alternatives rest (some r)) (.alternatives rest (some r'))
  | again {body needsOne values} :
      Task.Rel B (.again body needsOne values) (.again body needsOne values)

theorem Task.Rel.refl : (task : Task C V) → task.Rel Eq task
  | .whole _ => .whole
  | .token .. => .token
  | .items .. => .items
  | .alternatives _ none => .alternatives
  | .alternatives _ (some _) => .alternativesSome ⟨rfl⟩
  | .again .. => .again

/-- Related places come in the same order, and at the same end. -/
structure Tape.Aligned (T : Tape C V) (T' : Tape C' V) (B : C → C' → Prop) : Prop where
  token?_eq_none_iff {x x'} : B x x' → (T'.token? x' = none ↔ T.token? x = none)
  lt_iff {x x' y y'} : B x x' → B y y' → (T'.offset x' < T'.offset y' ↔ T.offset x < T.offset y)

/-- Related places hold the same token, the same comes behind them, and they come in the same
order. -/
structure Tape.Corresponds (T : Tape C V) (T' : Tape C' V) (B : C → C' → Prop) : Prop where
  token? {x x'} : B x x' → T'.token? x' = T.token? x
  lt_iff {x x' y y'} : B x x' → B y y' → (T'.offset x' < T'.offset y' ↔ T.offset x < T.offset y)
  next {x x' r} : B x x' → T.next x r → ∃ r', T'.next x' r' ∧ GoesOn B r r'

/-! ## The rules that a pattern reaches -/

mutual

/-- The pattern refers to rules of `S` only. -/
def Pattern.Within (S : RuleRef → Prop) : Pattern V → Prop
  | .rule ref => S ref
  | .sequence items | .choice items => Pattern.AllWithin S items
  | .zeroOrMore body | .oneOrMore body | .optional body | .not body | .tally _ body =>
    Pattern.Within S body
  | .terminal _ | .predicate .. | .any | .finish | .silent => True

/-- Several patterns refer to rules of `S` only. -/
def Pattern.AllWithin (S : RuleRef → Prop) : List (Pattern V) → Prop
  | [] => True
  | p :: ps => Pattern.Within S p ∧ Pattern.AllWithin S ps

end

/-- What is left of the task refers to rules of `S` only. -/
def Task.Within (S : RuleRef → Prop) : Task C V → Prop
  | .whole p => p.Within S
  | .token .. => True
  | .items rest _ | .alternatives rest _ => Pattern.AllWithin S rest
  | .again body _ _ => body.Within S

mutual

theorem Pattern.within_true : (p : Pattern V) → p.Within fun _ => True
  | .rule _ | .terminal _ | .predicate .. | .any | .finish | .silent => trivial
  | .sequence items | .choice items => Pattern.allWithin_true items
  | .zeroOrMore body | .oneOrMore body | .optional body | .not body | .tally _ body =>
    Pattern.within_true body

theorem Pattern.allWithin_true : (ps : List (Pattern V)) → Pattern.AllWithin (fun _ => True) ps
  | [] => trivial
  | p :: ps => ⟨Pattern.within_true p, Pattern.allWithin_true ps⟩

end

theorem Task.within_true : (task : Task C V) → task.Within fun _ => True
  | .whole p | .again p _ _ => p.within_true
  | .token .. => trivial
  | .items rest _ | .alternatives rest _ => Pattern.allWithin_true rest

mutual

/-- The pattern is built from rules of `S` and from patterns of `K`. Those are rules, or they take a
token. -/
def Pattern.BuiltFrom (S : RuleRef → Prop) (K : Pattern V → Prop) : Pattern V → Prop
  | .rule ref => S ref ∨ K (.rule ref)
  | .terminal v => K (.terminal v)
  | .predicate label test => K (.predicate label test)
  | .any => K .any
  | .sequence items | .choice items => Pattern.AllBuiltFrom S K items
  | .zeroOrMore body | .oneOrMore body | .optional body | .not body | .tally _ body =>
    Pattern.BuiltFrom S K body
  | .finish | .silent => True

/-- Several patterns are built from rules of `S` and from patterns of `K`. -/
def Pattern.AllBuiltFrom (S : RuleRef → Prop) (K : Pattern V → Prop) : List (Pattern V) → Prop
  | [] => True
  | p :: ps => Pattern.BuiltFrom S K p ∧ Pattern.AllBuiltFrom S K ps

end

/-- What is left of the task is built from rules of `S` and from patterns of `K`. -/
def Task.BuiltFrom (S : RuleRef → Prop) (K : Pattern V → Prop) : Task C V → Prop
  | .whole p => p.BuiltFrom S K
  | .token .. => False
  | .items rest _ | .alternatives rest _ => Pattern.AllBuiltFrom S K rest
  | .again body _ _ => body.BuiltFrom S K

/-- What a pattern expects that takes one token, and the test of the token. -/
def Pattern.test? [DecidableEq V] : Pattern V → Option (Expected V × (V → Bool))
  | .terminal v => some (.token v, (· = v))
  | .predicate label test => some (.label label, test)
  | .any => some (.anyToken, fun _ => true)
  | _ => none

mutual

/-- A pattern is built from the rules it refers to and from what takes a token. -/
theorem Pattern.Within.builtFrom [DecidableEq V] {S : RuleRef → Prop} :
    {p : Pattern V} → p.Within S → p.BuiltFrom S (·.test?.isSome)
  | .rule _, h => .inl h
  | .terminal _, _ | .predicate .., _ | .any, _ => rfl
  | .finish, _ | .silent, _ => trivial
  | .sequence items, h | .choice items, h =>
    (show Pattern.AllWithin S items from h).builtFrom
  | .zeroOrMore body, h | .oneOrMore body, h | .optional body, h | .not body, h
  | .tally _ body, h => (show body.Within S from h).builtFrom

theorem Pattern.AllWithin.builtFrom [DecidableEq V] {S : RuleRef → Prop} :
    {ps : List (Pattern V)} → Pattern.AllWithin S ps →
      Pattern.AllBuiltFrom S (·.test?.isSome) ps
  | [], _ => trivial
  | _ :: _, ⟨hp, hps⟩ => ⟨hp.builtFrom, hps.builtFrom⟩

end

/-- The bodies of rules of `S` refer to rules of `S` only. -/
def Rulebook.Closed (R : Rulebook V) (S : RuleRef → Prop) : Prop :=
  ∀ ref body transform, S ref → R ref = .ok (body, transform) → body.Within S

/-- The transforms of rules of `S` make the same of a value between related places. -/
def Rulebook.Blind (R : Rulebook V) (S : RuleRef → Prop) (T : Tape C V) (T' : Tape C' V)
    (B : C → C' → Prop) : Prop :=
  ∀ ref body f, S ref → R ref = .ok (body, some f) → ∀ x x' y y' v, B x x' → B y y' →
    f ref.name v ⟨T'.position x', T'.position y'⟩ = f ref.name v ⟨T.position x, T.position y⟩

namespace Tape.Aligned

variable {T : Tape C V} {T' : Tape C' V} {B : C → C' → Prop}

theorem offset_eq_iff (hB : T.Aligned T' B) {x x' y y'} (hx : B x x') (hy : B y y') :
    T'.offset x' = T'.offset y' ↔ T.offset x = T.offset y := by
  have h₁ := hB.lt_iff hx hy
  have h₂ := hB.lt_iff hy hx
  omega

theorem merge [DecidableEq V] (hB : T.Aligned T' B) {r₁ r₂ : Refusal C V}
    {r₁' r₂' : Refusal C' V} (h₁ : r₁.Rel B r₁') (h₂ : r₂.Rel B r₂') :
    (T.merge r₁ r₂).Rel B (T'.merge r₁' r₂') := by
  obtain ⟨h₁⟩ := h₁
  obtain ⟨h₂⟩ := h₂
  simp only [Tape.merge, hB.lt_iff h₁ h₂, hB.lt_iff h₂ h₁]
  split_ifs
  · exact ⟨h₂⟩
  · exact ⟨h₁⟩
  · exact ⟨h₁⟩

theorem relabel (hB : T.Aligned T' B) (rule : String) {x x'} (hx : B x x')
    {r : Refusal C V} {r' : Refusal C' V} (hr : r.Rel B r') :
    (T.relabel rule x r).Rel B (T'.relabel rule x' r') := by
  obtain ⟨hr⟩ := hr
  simp only [Tape.relabel, hB.offset_eq_iff hr hx]
  split_ifs <;> exact ⟨hr⟩

theorem consumes (hB : T.Aligned T' B) {x x'} (hx : B x x') {o : Verdict C V}
    {o' : Verdict C' V} (ho : o.Rel B o') : T'.consumes x' o' = T.consumes x o := by
  cases ho with
  | matched hy => simp only [Tape.consumes, hB.lt_iff hx hy]
  | refused _ | broken => rfl

/-- The verdicts of a rule at related places, from those of its body. -/
theorem reduce (hB : T.Aligned T' B) {R : Rulebook V} {S : RuleRef → Prop}
    (hblind : R.Blind S T T' B)
    {ref : RuleRef} {body : Pattern V} {transform : Option (Transform V)} (hS : S ref)
    (hR : R ref = .ok (body, transform)) {x x'} (hx : B x x') {o : Verdict C V}
    {o' : Verdict C' V} (ho : o.Rel B o') :
    (T.reduce ref.name transform x o).Rel B (T'.reduce ref.name transform x' o') := by
  cases ho with
  | @matched y y' v hy =>
    cases transform with
    | none => exact .matched hy
    | some f =>
      simp only [Tape.reduce, hblind ref body f hS hR x x' y y' v hx hy]
      split
      · exact .matched hy
      · exact .broken
  | refused hr => exact .refused (hB.relabel _ hx hr)
  | broken => exact .broken

end Tape.Aligned

theorem Tape.Corresponds.aligned {T : Tape C V} {T' : Tape C' V} {B : C → C' → Prop}
    (hB : T.Corresponds T' B) : T.Aligned T' B where
  token?_eq_none_iff hx := by rw [hB.token? hx]
  lt_iff := hB.lt_iff

section Related

variable {B : C → C' → Prop} {o : Verdict C V} {o' : Verdict C' V}

theorem Verdict.Rel.isMatched (ho : o.Rel B o') : o'.isMatched = o.isMatched := by
  cases ho <;> rfl

theorem Verdict.Rel.isRefused (ho : o.Rel B o') : o'.isRefused = o.isRefused := by
  cases ho <;> rfl

variable [MatchValue V]

theorem Verdict.Rel.optional {x x'} (hx : B x x') (ho : o.Rel B o') :
    (o.optional x).Rel B (o'.optional x') := by
  cases ho with
  | matched hy => exact .matched hy
  | refused _ => exact .matched hx
  | broken => exact .broken

theorem Verdict.Rel.not {x x'} (hx : B x x') (ho : o.Rel B o') :
    (o.not x).Rel B (o'.not x') := by
  cases ho with
  | matched _ => exact .refused ⟨hx⟩
  | refused _ => exact .matched hx
  | broken => exact .broken

theorem Verdict.Rel.ending {x x'} (hx : B x x') (needsOne : Bool) (values : List V)
    (ho : o.Rel B o') : (o.ending x needsOne values).Rel B (o'.ending x' needsOne values) := by
  cases ho with
  | matched hy => exact .matched hy
  | refused hr =>
    simp only [Verdict.ending]
    split_ifs
    · exact .refused hr
    · exact .matched hx
  | broken => exact .broken

end Related

/-! ## Transfer -/

variable [MatchValue V] [DecidableEq V] {T : Tape C V} {T' : Tape C' V} {B : C → C' → Prop}
  {R : Rulebook V} {S : RuleRef → Prop} {K : Pattern V → Prop}

/-- At related places the pattern comes to related verdicts. -/
def Pattern.Carries (p : Pattern V) (R : Rulebook V) (T : Tape C V) (T' : Tape C' V)
    (B : C → C' → Prop) : Prop :=
  ∀ x x' o, B x x' → Derives T R (.whole p) x o →
    ∃ o', Derives T' R (.whole p) x' o' ∧ o.Rel B o'

/-- A pattern that takes one token comes to what its test comes to. -/
theorem Derives.test?_iff {p : Pattern V} {expected : Expected V} {test : V → Bool}
    (hp : p.test? = some (expected, test)) {x : C} {o : Verdict C V} :
    Derives T R (.whole p) x o ↔ Derives T R (.token expected test) x o := by
  cases p with
  | terminal v => cases hp; exact ⟨fun | .terminal h => h, .terminal⟩
  | predicate label test => cases hp; exact ⟨fun | .predicate h => h, .predicate⟩
  | any => cases hp; exact ⟨fun | .any h => h, .any⟩
  | _ => cases hp

/-- The same token, behind which the input goes on alike, is taken alike. -/
theorem Derives.carry_token {expected : Expected V} {test : V → Bool} {x : C} {x' : C'}
    {o : Verdict C V} (htoken : T'.token? x' = T.token? x)
    (hnext : ∀ r, T.next x r → ∃ r', T'.next x' r' ∧ GoesOn B r r') (hx : B x x')
    (h : Derives T R (.token expected test) x o) :
    ∃ o', Derives T' R (.token expected test) x' o' ∧ o.Rel B o' := by
  cases h with
  | token hv ht hr =>
    obtain ⟨r', hr', hgo⟩ := hnext _ hr
    refine ⟨_, .token (htoken.trans hv) ht hr', ?_⟩
    cases hgo with
    | ok hy => exact .matched hy
    | error => exact .broken
  | tokenRefused hf => exact ⟨_, .tokenRefused (by rw [htoken]; exact hf), .refused ⟨hx⟩⟩

/-- **What is built from parts with corresponding verdicts has corresponding verdicts.** -/
theorem Derives.carry (hB : T.Aligned T' B)
    (hclosed : ∀ ref body transform, S ref → R ref = .ok (body, transform) → body.BuiltFrom S K)
    (hblind : R.Blind S T T' B) (hK : ∀ p, K p → p.Carries R T T' B) {task : Task C V} {x : C}
    {o : Verdict C V} (h : Derives T R task x o) {task' : Task C' V} {x' : C'}
    (htask : task.Rel B task') (hbuilt : task.BuiltFrom S K) (hx : B x x') :
    ∃ o', Derives T' R task' x' o' ∧ o.Rel B o' := by
  -- The rule that derives the verdict derives the related one, from the related premises. What the
  -- rule tests about the input, its end and the order of the offsets, is the same on both sides.
  induction h generalizing task' x' with
  | terminal h _ =>
    cases htask
    exact hK _ hbuilt _ _ _ hx (.terminal h)
  | predicate h _ =>
    cases htask
    exact hK _ hbuilt _ _ _ hx (.predicate h)
  | any h _ =>
    cases htask
    exact hK _ hbuilt _ _ _ hx (.any h)
  | token | tokenRefused => exact hbuilt.elim
  | finish hv =>
    cases htask
    exact ⟨_, .finish ((hB.token?_eq_none_iff hx).mpr hv), .matched hx⟩
  | finishRefused hv =>
    cases htask
    obtain ⟨v', hv'⟩ : ∃ v', T'.token? x' = some v' := by
      rw [← Option.ne_none_iff_exists', ne_eq, hB.token?_eq_none_iff hx, hv]
      exact Option.some_ne_none _
    exact ⟨_, .finishRefused hv', .refused ⟨hx⟩⟩
  | sequence _ ih =>
    cases htask
    obtain ⟨o', h', ho⟩ := ih .items hbuilt hx
    exact ⟨o', .sequence h', ho⟩
  | itemsDone =>
    cases htask
    exact ⟨_, .itemsDone, .matched hx⟩
  | itemsNext _ _ ih ih' =>
    cases htask
    obtain ⟨o₁, h₁, ho₁⟩ := ih .whole hbuilt.1 hx
    cases ho₁ with | matched hy =>
    -- the next items are tried at related places
    obtain ⟨o', h', ho⟩ := ih' .items hbuilt.2 hy
    exact ⟨o', .itemsNext h₁ h', ho⟩
  | itemsStop _ hm ih =>
    cases htask
    obtain ⟨o', h', ho⟩ := ih .whole hbuilt.1 hx
    exact ⟨o', .itemsStop h' (ho.isMatched.trans hm), ho⟩
  | choice _ ih =>
    cases htask
    obtain ⟨o', h', ho⟩ := ih .alternatives hbuilt hx
    exact ⟨o', .choice h', ho⟩
  | alternativesDone =>
    cases htask with
    | alternatives => exact ⟨_, .alternativesDone, .refused ⟨hx⟩⟩
    | alternativesSome hr => exact ⟨_, .alternativesDone, .refused hr⟩
  | alternativesNext _ _ ih ih' =>
    cases htask with
    -- the refusals before are none, or they are related and so is what they are merged into
    | alternatives =>
      obtain ⟨o₁, h₁, ho₁⟩ := ih .whole hbuilt.1 hx
      cases ho₁ with | refused hr =>
      obtain ⟨o', h', ho⟩ := ih' (.alternativesSome hr) hbuilt.2 hx
      exact ⟨o', .alternativesNext h₁ h', ho⟩
    | alternativesSome hr₀ =>
      obtain ⟨o₁, h₁, ho₁⟩ := ih .whole hbuilt.1 hx
      cases ho₁ with | refused hr =>
      obtain ⟨o', h', ho⟩ := ih' (.alternativesSome (hB.merge hr₀ hr)) hbuilt.2 hx
      exact ⟨o', .alternativesNext h₁ h', ho⟩
  | alternativesStop _ hm ih =>
    obtain ⟨o', h', ho⟩ := ih .whole hbuilt.1 hx
    cases htask <;> exact ⟨o', .alternativesStop h' (ho.isRefused.trans hm), ho⟩
  | zeroOrMore _ ih =>
    cases htask
    obtain ⟨o', h', ho⟩ := ih .again hbuilt hx
    exact ⟨o', .zeroOrMore h', ho⟩
  | oneOrMore _ ih =>
    cases htask
    obtain ⟨o', h', ho⟩ := ih .again hbuilt hx
    exact ⟨o', .oneOrMore h', ho⟩
  | againNext _ hlt _ ih ih' =>
    cases htask
    obtain ⟨o₁, h₁, ho₁⟩ := ih .whole hbuilt hx
    cases ho₁ with | matched hy =>
    obtain ⟨o', h', ho⟩ := ih' .again hbuilt hy
    exact ⟨o', .againNext h₁ ((hB.lt_iff hx hy).mpr hlt) h', ho⟩
  | againStop _ hc ih =>
    cases htask
    obtain ⟨o', h', ho⟩ := ih .whole hbuilt hx
    exact ⟨_, .againStop h' ((hB.consumes hx ho).trans hc), ho.ending hx _ _⟩
  | optional _ ih =>
    cases htask
    obtain ⟨o', h', ho⟩ := ih .whole hbuilt hx
    exact ⟨_, .optional h', ho.optional hx⟩
  | not _ ih =>
    cases htask
    obtain ⟨o', h', ho⟩ := ih .whole hbuilt hx
    exact ⟨_, .not h', ho.not hx⟩
  | ruleUnknown hR =>
    cases htask
    rcases hbuilt with - | hrule
    · exact ⟨_, .ruleUnknown hR, .broken⟩
    · exact hK _ hrule _ _ _ hx (.ruleUnknown hR)
  | rule hR h ih =>
    cases htask
    rcases hbuilt with hS | hrule
    -- The body is built from the parts too, and the transform cannot tell the places apart.
    · obtain ⟨o', h', ho⟩ := ih .whole (hclosed _ _ _ hS hR) hx
      exact ⟨_, .rule hR h', hB.reduce hblind hS hR hx ho⟩
    · exact hK _ hrule _ _ _ hx (.rule hR h)
  | tally _ ih =>
    cases htask
    obtain ⟨o', h', ho⟩ := ih .whole hbuilt hx
    exact ⟨o', .tally h', ho⟩
  | silent =>
    cases htask
    exact ⟨_, .silent, .broken⟩

/-- **Corresponding places, corresponding verdicts.** -/
theorem Derives.transfer (hB : T.Corresponds T' B) (hclosed : R.Closed S)
    (hblind : R.Blind S T T' B) {task : Task C V} {x : C} {o : Verdict C V}
    (h : Derives T R task x o) {task' : Task C' V} {x' : C'} (htask : task.Rel B task')
    (hwithin : task.Within S) (hx : B x x') : ∃ o', Derives T' R task' x' o' ∧ o.Rel B o' := by
  have htoken : ∀ {expected test x x' o}, B x x' → Derives T R (.token expected test) x o →
      ∃ o', Derives T' R (.token expected test) x' o' ∧ o.Rel B o' :=
    fun hx h => h.carry_token (hB.token? hx) (fun _ => hB.next hx) hx
  have hcarries : ∀ p : Pattern V, p.test?.isSome → p.Carries R T T' B := by
    intro p hp x x' o hx h
    obtain ⟨test, htest⟩ := Option.isSome_iff_exists.mp hp
    obtain ⟨o', h', ho⟩ := htoken hx ((Derives.test?_iff htest).mp h)
    exact ⟨o', (Derives.test?_iff htest).mpr h', ho⟩
  have hbodies : ∀ ref body transform, S ref → R ref = .ok (body, transform) →
      body.BuiltFrom S (·.test?.isSome) :=
    fun ref body transform hS hR => (hclosed ref body transform hS hR).builtFrom
  cases task with
  | token expected test =>
    cases htask
    exact htoken hx h
  | whole | again =>
    exact h.carry hB.aligned hbodies hblind hcarries htask (Pattern.Within.builtFrom hwithin) hx
  | items | alternatives =>
    exact h.carry hB.aligned hbodies hblind hcarries htask (Pattern.AllWithin.builtFrom hwithin) hx

/-- What is derived over an input is derived over one that goes on in more ways. -/
theorem Derives.mono {T T' : Tape C V} (htoken : ∀ x, T'.token? x = T.token? x)
    (hposition : ∀ x, T'.position x = T.position x) (hnext : ∀ x r, T.next x r → T'.next x r)
    {task : Task C V} {x : C} {o : Verdict C V} (h : Derives T R task x o) :
    Derives T' R task x o := by
  have hB : T.Corresponds T' Eq := by
    refine ⟨?_, ?_, ?_⟩
    · rintro x _ rfl
      exact htoken x
    · rintro x _ y _ rfl rfl
      simp only [Tape.offset, hposition]
    · rintro x _ r rfl hr
      refine ⟨r, hnext x r hr, ?_⟩
      cases r <;> constructor
      rfl
  have hblind : R.Blind (fun _ => True) T T' Eq := by
    rintro ref body f - - x _ y _ v rfl rfl
    rw [hposition, hposition]
  obtain ⟨o', h', ho⟩ := h.transfer hB (fun _ body _ _ _ => body.within_true) hblind
    (Task.Rel.refl task) task.within_true rfl
  cases ho with
  | matched hy => cases hy; exact h'
  | refused hr => obtain ⟨rfl⟩ := hr; exact h'
  | broken => exact h'

end Humus.Peg
