import Humus.Proofs.Peg.Order

/-!
# Repetitions

A repetition matches its body again and again, each time where the match before stopped. It ends
where its body is refused, or where the body consumes nothing: such a match is not counted, but it
is where the repetition stops. Only a repetition that needs one match counts its first in any case, and
goes on behind it as long as that match consumed something.

A match that consumes nothing stops where it was tried. What comes behind it would match again in
the same way, and again it would not be counted. Hence to need one match is to match once, and then
as often as it goes.

## Main definitions

* `Repeats T R p x vs r`: the matches of `p` from `x` on have the values `vs`, and end with `r`
* `Report.Flattens r r'`: the same report, but for a first value that is listed with the others

## Main results

* `Derives.again_iff`: what the rest of a repetition comes to
* `Derives.oneOrMore_iff`, `Derives.sequence_zeroOrMore_iff`: one match, and then those behind it
* `oneOrMore_flattens`: what is reported of the two
-/

namespace Humus.Peg

variable {C P V : Type} [MatchValue V]

/-- The same report, but for a first value that is listed with those behind it. -/
inductive Report.Flattens : Report P V → Report P V → Prop where
  | matched {start stop v vs} :
      Flattens (.matched start stop (MatchValue.list [v, MatchValue.list vs]))
        (.matched start stop (MatchValue.list (v :: vs)))
  | refused {position furthest expected} :
      Flattens (.refused position furthest expected) (.refused position furthest expected)
  | fault {g} : Flattens (.fault g) (.fault g)
  | incomplete : Flattens .incomplete .incomplete

variable [DecidableEq V]

/-! ## The matches of a body -/

section Matches

variable {T : Tape C V} {R : Rulebook V} {p : Pattern V} {x : C} {o : Verdict C V} {needsOne : Bool}
  {values : List V}

/-- The matches of `p` from `x` on that consume something have these values. They end at a place,
where `p` is refused or consumes nothing, or they break off. -/
inductive Repeats (T : Tape C V) (R : Rulebook V) (p : Pattern V) :
    C → List V → Except Break C → Prop where
  | refused {x r} : Derives T R (.whole p) x (.refused r) → Repeats T R p x [] (.ok x)
  | idle {x y v} : Derives T R (.whole p) x (.matched y v) → ¬ T.offset x < T.offset y →
      Repeats T R p x [] (.ok y)
  | broken {x b} : Derives T R (.whole p) x (.broken b) → Repeats T R p x [] (.error b)
  | next {x y v vs r} : Derives T R (.whole p) x (.matched y v) → T.offset x < T.offset y →
      Repeats T R p y vs r → Repeats T R p x (v :: vs) r

omit [DecidableEq V] in
/-- A match that consumes nothing is not counted, unless it is owed. -/
theorem Verdict.matched_ending (hlacks : lacksOne needsOne values = false) {y : C} {v : V} :
    (Verdict.matched y v).ending x needsOne values =
      .matched y (MatchValue.list values.reverse) := by
  simp only [Verdict.ending, hlacks, Bool.false_eq_true, if_false]

omit [DecidableEq V] in
theorem Verdict.refused_ending (hlacks : lacksOne needsOne values = false) {r : Refusal C V} :
    (Verdict.refused r).ending x needsOne values = .matched x (MatchValue.list values.reverse) := by
  simp only [Verdict.ending, hlacks, Bool.false_eq_true, if_false]

/-- **What the rest of a repetition comes to** that owes no match. -/
theorem Derives.again_iff (hlacks : lacksOne needsOne values = false) :
    Derives T R (.again p needsOne values) x o ↔
      ∃ vs r, Repeats T R p x vs r ∧ o = .taking (MatchValue.list (values.reverse ++ vs)) r := by
  constructor
  · intro h
    generalize htask : Task.again p needsOne values = task at h
    -- Induction on the derivation. With one more value the repetition owes no match either.
    induction h generalizing values with
    | againNext hp hlt _ _ ih =>
      cases htask
      obtain ⟨vs, r, hvs, rfl⟩ := @ih (_ :: _) (Bool.and_false _) rfl
      refine ⟨_ :: vs, r, .next hp hlt hvs, ?_⟩
      rw [List.reverse_cons, List.append_assoc, List.singleton_append]
    | @againStop _ _ _ x o hp hc _ =>
      cases htask
      cases o with
      | matched y v =>
        refine ⟨[], .ok y, .idle hp (of_decide_eq_false hc), ?_⟩
        rw [Verdict.matched_ending hlacks, List.append_nil, Verdict.taking]
      | refused r =>
        refine ⟨[], .ok x, .refused hp, ?_⟩
        rw [Verdict.refused_ending hlacks, List.append_nil, Verdict.taking]
      | broken b => exact ⟨[], .error b, .broken hp, rfl⟩
    | _ => cases htask
  · rintro ⟨vs, r, hvs, rfl⟩
    induction hvs generalizing values with
    | refused hp =>
      have hstop : Derives T R (.again p needsOne values) _ _ := .againStop hp rfl
      rwa [Verdict.refused_ending hlacks, ← List.append_nil values.reverse] at hstop
    | idle hp hlt =>
      have hstop : Derives T R (.again p needsOne values) _ _ :=
        .againStop hp (decide_eq_false hlt)
      rwa [Verdict.matched_ending hlacks, ← List.append_nil values.reverse] at hstop
    | broken hp => exact .againStop hp rfl
    | @next x y v vs r hp hlt _ ih =>
      have hrest := @ih (v :: values) (Bool.and_false _)
      rw [List.reverse_cons, List.append_assoc, List.singleton_append] at hrest
      exact .againNext hp hlt hrest

/-- **What a repetition comes to.** -/
theorem Derives.zeroOrMore_iff :
    Derives T R (.whole (.zeroOrMore p)) x o ↔
      ∃ vs r, Repeats T R p x vs r ∧ o = .taking (MatchValue.list vs) r := by
  refine Iff.trans ⟨?_, .zeroOrMore⟩ (@Derives.again_iff _ _ _ _ T R p x o false [] rfl)
  intro h
  cases h with
  | zeroOrMore h => exact h

/-- What one match of `p` at `x` comes to with the matches behind it: in a sequence, where the
values behind it are a value of their own, and in a repetition, where they are listed with the
first. -/
inductive OneThenMore (T : Tape C V) (R : Rulebook V) (p : Pattern V) (x : C) :
    Verdict C V → Verdict C V → Prop where
  | unmatched {o : Verdict C V} : Derives T R (.whole p) x o → o.isMatched = false →
      OneThenMore T R p x o o
  | matched {y v vs r} : Derives T R (.whole p) x (.matched y v) → Repeats T R p y vs r →
      OneThenMore T R p x (.taking (MatchValue.list [v, MatchValue.list vs]) r)
        (.taking (MatchValue.list (v :: vs)) r)

/-- **What a match and then a repetition come to.** -/
theorem Derives.sequence_zeroOrMore_iff :
    Derives T R (.whole (.sequence [p, .zeroOrMore p])) x o ↔ ∃ o', OneThenMore T R p x o o' := by
  constructor
  · intro h
    cases h with | sequence h =>
    cases h with
    | itemsStop hp hm => exact ⟨o, .unmatched hp hm⟩
    | itemsNext hp h =>
      -- the repetition breaks off, or it matches and the sequence is done
      cases h with
      | itemsStop hrepeat hm =>
        obtain ⟨vs, r, hvs, rfl⟩ := Derives.zeroOrMore_iff.mp hrepeat
        cases r with
        | ok z => cases hm
        | error b => exact ⟨_, .matched hp hvs⟩
      | itemsNext hrepeat hdone =>
        obtain ⟨vs, r, hvs, heq⟩ := Derives.zeroOrMore_iff.mp hrepeat
        cases r with
        | error b => cases heq
        | ok z =>
          cases heq
          cases hdone
          exact ⟨_, .matched hp hvs⟩
  · rintro ⟨o', h⟩
    cases h with
    | unmatched hp hm => exact .sequence (.itemsStop hp hm)
    | @matched y v vs r hp hvs =>
      have hrepeat := Derives.zeroOrMore_iff.mpr ⟨vs, r, hvs, rfl⟩
      cases r with
      | error b => exact .sequence (.itemsNext hp (.itemsStop hrepeat rfl))
      | ok z => exact .sequence (.itemsNext hp (.itemsNext hrepeat .itemsDone))

/-- **What a repetition comes to that needs one match**, if a match that consumes nothing stays
where it is. -/
theorem Derives.oneOrMore_iff
    (hahead : ∀ y v, Derives T R (.whole p) x (.matched y v) → y = x ∨ T.offset x < T.offset y)
    (hunique : ∀ o o', Derives T R (.whole p) x o → Derives T R (.whole p) x o' → o' = o) :
    Derives T R (.whole (.oneOrMore p)) x o ↔ ∃ o', OneThenMore T R p x o' o := by
  constructor
  · intro h
    cases h with | oneOrMore h =>
    cases h with
    | againNext hp _ hrest =>
      obtain ⟨vs, r, hvs, rfl⟩ := (Derives.again_iff (by rfl)).mp hrest
      exact ⟨_, .matched hp hvs⟩
    | @againStop _ _ _ _ o hp hc =>
      cases o with
      | matched y v =>
        -- The one match consumes nothing, so that none behind it is counted.
        have hlt : ¬ T.offset x < T.offset y := of_decide_eq_false hc
        obtain rfl : y = x := (hahead y v hp).resolve_right hlt
        exact ⟨_, .matched hp (.idle hp hlt)⟩
      | refused r => exact ⟨_, .unmatched hp rfl⟩
      | broken b => exact ⟨_, .unmatched hp rfl⟩
  · rintro ⟨o', h⟩
    cases h with
    | unmatched hp hm =>
      have hstop : Derives T R (.again p true []) x (o.ending x true []) := .againStop hp (by
        cases o <;> trivial)
      cases o with
      | matched y v => cases hm
      | refused r => exact .oneOrMore hstop
      | broken b => exact .oneOrMore hstop
    | @matched y v vs r hp hvs =>
      rcases hahead y v hp with rfl | hlt
      · -- What is tried behind the match is what was matched, without consuming anything.
        have hidle : ¬ T.offset y < T.offset y := lt_irrefl _
        have hstop : Derives T R (.again p true []) y _ := .againStop hp (decide_eq_false hidle)
        cases hvs with
        | refused hp' => cases hunique _ _ hp hp'
        | broken hp' => cases hunique _ _ hp hp'
        | idle hp' _ => cases hunique _ _ hp hp'; exact .oneOrMore hstop
        | next hp' hlt _ => cases hunique _ _ hp hp'; exact absurd hlt hidle
      · exact .oneOrMore (.againNext hp hlt
          ((Derives.again_iff (by rfl)).mpr ⟨vs, r, hvs, rfl⟩))

end Matches

/-! ## What is reported -/

omit [DecidableEq V] in
theorem Report.flattens_broken (b : Break) : (b.report : Report P V).Flattens b.report := by
  cases b with
  | fault g => exact .fault
  | silence => exact .incomplete

theorem OneThenMore.flattens {T : Tape C V} {R : Rulebook V} {p : Pattern V} {x : C}
    {o o' : Verdict C V} (h : OneThenMore T R p x o o') (place : C → P) :
    (o.report place x).Flattens (o'.report place x) := by
  cases h with
  | unmatched _ hm =>
    cases o with
    | matched y v => cases hm
    | refused r => exact .refused
    | broken b => exact Report.flattens_broken b
  | @matched y v vs r _ _ =>
    cases r with
    | ok y => exact .matched
    | error b => exact Report.flattens_broken b

/-! ## Repetitions over streams -/

variable {R : Rulebook V} {σ : Source V} {x : Place V} {p : Pattern V} {w₀ w : World V}
  {s : Stream V}

/-- At a place in order a match that consumes nothing stays where it is. -/
theorem Place.InOrder.oneOrMore_iff (hx : x.InOrder) {o : Verdict (Place V) V} :
    Derives (lazyTape R) R (.whole (.oneOrMore p)) x o ↔
      ∃ o', OneThenMore (lazyTape R) R p x o' o := by
  apply Derives.oneOrMore_iff
  · intro y v hp
    exact (hp.ahead hx trivial).eq_or_lt
  · intro o o' ho ho'
    exact ho.unique ho'

theorem Finds.oneOrMore_of_sequence (hσ : σ.InOrder) {f : Finding V}
    (hf : Finds R (.sequence [p, .zeroOrMore p]) σ f) :
    ∃ f', f.report.Flattens f'.report ∧ Finds R (.oneOrMore p) σ f' := by
  cases hf with
  | @unread b hb => exact ⟨.broken b, Report.flattens_broken b, .unread hb⟩
  | @read x o hx ho =>
    obtain ⟨o', hmore⟩ := Derives.sequence_zeroOrMore_iff.mp ho
    refine ⟨_, ?_, .read hx ((hx.inOrder hσ).oneOrMore_iff.mpr ⟨o, hmore⟩)⟩
    simp only [Verdict.report_finding]
    exact hmore.flattens Place.position

theorem Finds.sequence_of_oneOrMore (hσ : σ.InOrder) {f' : Finding V}
    (hf : Finds R (.oneOrMore p) σ f') :
    ∃ f, f.report.Flattens f'.report ∧ Finds R (.sequence [p, .zeroOrMore p]) σ f := by
  cases hf with
  | @unread b hb => exact ⟨.broken b, Report.flattens_broken b, .unread hb⟩
  | @read x o' hx ho =>
    obtain ⟨o, hmore⟩ := (hx.inOrder hσ).oneOrMore_iff.mp ho
    refine ⟨_, ?_, .read hx (Derives.sequence_zeroOrMore_iff.mpr ⟨o', hmore⟩)⟩
    simp only [Verdict.report_finding]
    exact hmore.flattens Place.position

/-- **One or more is one and then zero or more.** Over a stream in order a repetition that needs one
match reports what its body and a repetition of the body report, one behind the other: the same
failure or the same fault, or a match of the same span. Where the value of the sequence lists the
first value and the list of those behind it, the value of the repetition is a single list of them
all. Neither is answered unless the other is. -/
theorem oneOrMore_flattens (hbuilt : Built (fun _ => True) w₀ s w) (hs : s.InOrder w)
    (p : Pattern V) :
    (∀ r : Report Position V,
      (∃ fuel out w', parse fuel none (.sequence [p, .zeroOrMore p]) s w = some (out, w') ∧
        out.report = r) →
      ∃ r', r.Flattens r' ∧
        ∃ fuel out w', parse fuel none (.oneOrMore p) s w = some (out, w') ∧ out.report = r') ∧
    ∀ r' : Report Position V,
      (∃ fuel out w', parse fuel none (.oneOrMore p) s w = some (out, w') ∧ out.report = r') →
      ∃ r, r.Flattens r' ∧
        ∃ fuel out w', parse fuel none (.sequence [p, .zeroOrMore p]) s w = some (out, w') ∧
          out.report = r := by
  obtain ⟨chart, σ, hstanding⟩ := hbuilt.exists_standing
  have hσ := (hstanding.charted.source_inOrder_iff s hstanding.source).mp hs
  have hcharted := hstanding.rulebook ▸ hstanding.charted
  simp only [parse_report_iff_finds hcharted hstanding.source]
  constructor
  · rintro r ⟨f, hf, rfl⟩
    obtain ⟨f', hflat, hf'⟩ := hf.oneOrMore_of_sequence hσ
    exact ⟨_, hflat, f', hf', rfl⟩
  · rintro r' ⟨f', hf', rfl⟩
    obtain ⟨f, hflat, hf⟩ := hf'.sequence_of_oneOrMore hσ
    exact ⟨_, hflat, f, hf, rfl⟩

/-- An option is repeated as long as it consumes something. The match of nothing behind the letters
is not counted, since one has been counted already. -/
theorem oneOrMore_flattens_letters :
    ∃ fuel out w', parse fuel none (.oneOrMore (.optional (.terminal (.char 'a'))))
        (.chars ['a', 'a'] .start) wordWorld = some (out, w') ∧
      out.report = .matched .start ⟨2, 0, 2⟩ (.list [.list [.char 'a'], .list [.char 'a']]) := by
  obtain ⟨r', hflat, hreport⟩ := (oneOrMore_flattens (.chars : Built (fun _ => True) wordWorld
    (.chars ['a', 'a'] .start) wordWorld) (by simp only [Stream.InOrder])
    (.optional (.terminal (.char 'a')))).1
    (.matched .start ⟨2, 0, 2⟩ (.list [.list [.char 'a'], .list [.list [.char 'a']]]))
    ⟨200, _, _, rfl, rfl⟩
  cases hflat
  exact hreport

end Humus.Peg
