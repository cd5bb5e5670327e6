import Humus.Proofs.Peg.Building

/-!
# Answering sources

A derived source answers when its patterns answer wherever they are tried: at every place of the
source below they match or are refused, and neither meet a fault nor fall silent. Such a source reads
a place at each of its positions.

## Main definitions

* `Behind R σ x`: the place `x` is one of the places of the source `σ`
* `Pattern.Answers R p σ`: the pattern comes to a verdict at every place of the source
* `Source.Answers R σ`: so do the patterns of every layer of the source

## Main results

* `Source.Answers.exists_reads`: an answering source reads a place
* `Source.Answers.next`: what comes behind a token of an answering source answers
-/

namespace Humus.Peg

variable {V : Type} [MatchValue V] [DecidableEq V]

/-- The place is one of the places of the source. -/
inductive Behind (R : Rulebook V) (σ : Source V) : Place V → Prop where
  | first {x} : Reads R σ (.ok x) → Behind R σ x
  | next {x y} : Behind R σ x → (lazyTape R).next x (.ok y) → Behind R σ y

/-- The pattern matches or is refused at every place of the source. -/
def Pattern.Answers (R : Rulebook V) (p : Pattern V) (σ : Source V) : Prop :=
  ∀ x, Behind R σ x → ∃ o, Derives (lazyTape R) R (.whole p) x o ∧ ∀ b, o ≠ .broken b

mutual

/-- The layers below the place answer. -/
def Place.Answers (R : Rulebook V) : Place V → Prop
  | .token _ _ rest => Source.Answers R rest
  | .finish _ | .stalled .. => True

/-- The patterns of every layer of the source answer at the places below them. -/
def Source.Answers (R : Rulebook V) : Source V → Prop
  | .chars .. | .values .. => True
  | .fixed x => Place.Answers R x
  | .derived below skip token _ =>
    Source.Answers R below ∧ (∀ k, skip = some k → k.Answers R below) ∧ token.Answers R below
  | .silent => False

end

variable {R : Rulebook V} {σ : Source V} {x y z : Place V} {p : Pattern V} {o : Verdict (Place V) V}

/-- A match of a place of a source ends at a place of the source. -/
theorem Behind.derives (hx : Behind R σ x) (h : Derives (lazyTape R) R (.whole p) x o) :
    o.All (Behind R σ) :=
  h.all (fun _ _ hx hy => .next hx hy) trivial hx

theorem Behind.skipsTo (hx : Behind R σ x) {skip : Option (Pattern V)}
    (h : SkipsTo (lazyTape R) R skip x (.ok y)) : Behind R σ y :=
  h.all (fun _ _ hx hy => .next hx hy) hx

/-- What comes behind a token of a source is behind the source. -/
theorem Behind.of_rest {position : Position} {v : V} {rest : Source V}
    (hx : Behind R σ (.token position v rest)) (hy : Behind R rest y) : Behind R σ y := by
  induction hy with
  | first hread => exact .next hx hread
  | next _ hnext ih => exact .next ih hnext

/-- What comes behind a place of a source is behind the source. -/
theorem Behind.of_fixed (hx : Behind R σ x) (hy : Behind R (.fixed x) y) : Behind R σ y := by
  induction hy with
  | first hread =>
    cases hread.unique (reads_iff.mpr .fixed)
    exact hx
  | next _ hnext ih => exact .next ih hnext

theorem answers_charPlace (p : Position) (text : List Char) :
    (charPlace p text : Place V).Answers R := by
  cases text <;> trivial

theorem answers_valuePlace (index : Nat) (items : List V) : (valuePlace index items).Answers R := by
  cases items <;> trivial

theorem answers_endAt (x : Place V) (index : Nat) (r : Refusal (Place V) V) :
    (x.endAt index r).Answers R := by
  cases x <;> trivial

/-- A pattern that answers over a source answers behind each place of the source. -/
theorem Pattern.Answers.fixed (h : p.Answers R σ) (hy : Behind R σ y) : p.Answers R (.fixed y) :=
  fun x hx => h x (hy.of_fixed hx)

/-- What is read of an answering source answers. -/
theorem Reads.answering (h : Reads R σ (.ok z)) (hσ : σ.Answers R) : z.Answers R := by
  refine Reads.induct (P := fun σ r => ∀ z, r = .ok z → σ.Answers R → z.Answers R) ?_ h z rfl hσ
  intro σ r hr
  -- A match never leaves the places that answer.
  have hnext : ∀ x y, x.Answers R →
      (Tape.over fun σ r => Reads R σ r ∧ ∀ z, r = .ok z → σ.Answers R → z.Answers R).next x (.ok y) →
      y.Answers R := by
    intro x y hx h
    cases x with
    | token p v rest => exact h.2 y rfl hx
    | finish | stalled => exact h.elim
  cases hr with
  | chars => rintro z ⟨⟩ -; exact answers_charPlace ..
  | values => rintro z ⟨⟩ -; exact answers_valuePlace ..
  | fixed => rintro z ⟨⟩ hσ; exact hσ
  | silent | brokenBelow | brokenSkip => rintro z ⟨⟩
  | @read below skip token index x y o hx hs ho =>
    intro z hz hσ
    obtain ⟨hbelow, hskip, htoken⟩ := hσ
    have hy : y.Answers R := hs.all hnext (hx.2 x rfl hbelow)
    have hybehind : Behind R below y := Behind.skipsTo (.first hx.1) (hs.over_mono fun _ _ h => h.1)
    have hall := ho.all hnext trivial hy
    have hbehind := hybehind.derives (ho.over_mono fun _ _ h => h.1)
    cases o with
    | matched y' v =>
      cases hz
      split_ifs
      · -- the next position is read by the same patterns, over what is left of the source below
        exact ⟨hall, fun k hk => (hskip k hk).fixed hbehind, htoken.fixed hbehind⟩
      · trivial
    | refused r => cases hz; exact answers_endAt ..
    | broken b => cases hz

/-- **An answering source reads a place.** -/
theorem Source.Answers.exists_reads : (σ : Source V) → σ.Answers R → ∃ z, Reads R σ (.ok z)
  | .chars .., _ => ⟨_, reads_iff.mpr .chars⟩
  | .values .., _ => ⟨_, reads_iff.mpr .values⟩
  | .fixed _, _ => ⟨_, reads_iff.mpr .fixed⟩
  | .derived below skip token index, ⟨hbelow, hskip, htoken⟩ => by
    obtain ⟨x, hx⟩ := exists_reads below hbelow
    -- The skip pattern leads to a place of the source below, and there the token pattern answers.
    obtain ⟨y, hy⟩ : ∃ y, SkipsTo (lazyTape R) R skip x (.ok y) := by
      cases skip with
      | none => exact ⟨x, .none⟩
      | some k =>
        obtain ⟨o, ho, hbroken⟩ := hskip k rfl x (.first hx)
        cases o with
        | matched y v => exact ⟨y, .some ho⟩
        | refused r => exact ⟨x, .some ho⟩
        | broken b => exact absurd rfl (hbroken b)
    obtain ⟨o, ho, hbroken⟩ := htoken y (Behind.skipsTo (.first hx) hy)
    have hread : Reads R (.derived below skip token index) _ := reads_iff.mpr (.read hx hy ho)
    cases o with
    | matched | refused => exact ⟨_, hread⟩
    | broken b => exact absurd rfl (hbroken b)

/-- **What comes behind a token of an answering source answers.** -/
theorem Source.Answers.next {position : Position} {v : V} {rest : Source V} (hσ : σ.Answers R)
    (h : Reads R σ (.ok (.token position v rest))) : rest.Answers R :=
  h.answering hσ

/-! ## Patterns that look at one token -/

section OneToken

/-- What lies below a place of an answering source answers. -/
theorem Behind.answering (hx : Behind R σ x) (hσ : σ.Answers R) : x.Answers R := by
  induction hx with
  | first hread => exact hread.answering hσ
  | @next x y _ hnext ih =>
    cases x with
    | token p v rest => exact Reads.answering hnext ih
    | finish | stalled => exact hnext.elim

/-- A test of the next token comes to a verdict at every place of an answering source. -/
theorem Behind.exists_token (hx : Behind R σ x) (hσ : σ.Answers R) (expected : Expected V)
    (test : V → Bool) :
    ∃ o, Derives (lazyTape R) R (.token expected test) x o ∧ ∀ b, o ≠ .broken b := by
  have hanswers := hx.answering hσ
  cases x with
  | token p v rest =>
    by_cases htest : test v = true
    · -- what lies behind the token can be read
      obtain ⟨y, hread⟩ := Source.Answers.exists_reads rest hanswers
      exact ⟨_, .token (r := .ok y) rfl htest hread, by simp [Verdict.taking]⟩
    · have hrefused : (Place.token p v rest).token?.any test = false := Bool.eq_false_iff.mpr htest
      exact ⟨_, .tokenRefused hrefused, by simp⟩
  | finish | stalled => exact ⟨_, .tokenRefused rfl, by simp⟩

theorem Pattern.answers_terminal (hσ : σ.Answers R) (value : V) :
    (Pattern.terminal value).Answers R σ := by
  intro x hx
  obtain ⟨o, ho, hbroken⟩ := hx.exists_token hσ (.token value) (· = value)
  exact ⟨o, .terminal ho, hbroken⟩

theorem Pattern.answers_any (hσ : σ.Answers R) : Pattern.any.Answers R σ := by
  intro x hx
  obtain ⟨o, ho, hbroken⟩ := hx.exists_token hσ .anyToken fun _ => true
  exact ⟨o, .any ho, hbroken⟩

end OneToken

end Humus.Peg
