import Humus.Proofs.Peg.Building
import Humus.Proofs.Peg.Limit
import Humus.Proofs.Peg.Totality

/-!
# Streams without left recursion

A text and a list are finite, and so is every stream that is derived from a finite one: each of its
tokens takes up at least one token of the stream below, because a match that consumed nothing ends
the stream. Where no rule is left-recursive, a source of any depth reads a place or breaks off, and
every match and every walk over it comes to an end.

A match of a layer goes on only when the layer below it has read a place, so the number of layers is
the outer measure. The tokens that are left and the ranks of the rules are measures of one layer.

## Main definitions

* `Place.left`, `Source.left`: no more tokens than this are left

## Main results

* `Reads.left_le`: a derived source has no more tokens than the source below it
* `Rulebook.Descends.exists_reads`: every source reads a place or breaks off
* `Rulebook.Descends.stops`: parses and walks stop after finitely many deliveries
-/

namespace Humus.Peg

open Dispatch (Loop Reaches Terminates)

variable {V : Type}

mutual

/-- No more tokens than this are left at the place. -/
def Place.left : Place V → Nat
  | .token _ _ rest => Source.left rest + 1
  | .finish _ | .stalled .. => 0

/-- No more tokens than this are read of the source. -/
def Source.left : Source V → Nat
  | .chars text _ => text.length
  | .values items _ => items.length
  | .fixed x => Place.left x
  | .derived below .. => Source.left below
  | .silent => 0

end

variable [MatchValue V] [DecidableEq V] {R : Rulebook V} {S : RuleRef → Prop}
  {ok : Pattern V → Prop} {rank : RuleRef → Nat} {σ : Source V} {x y : Place V} {p : Pattern V}
  {chart : Chart V} {w₀ w : World V} {s : Stream V} {B : Nat → Prop} {d : Nat}

/-! ## Tokens that are left -/

omit [DecidableEq V] in
theorem left_charPlace (p : Position) (text : List Char) :
    (charPlace p text : Place V).left = text.length := by
  cases text <;> rfl

omit [MatchValue V] [DecidableEq V] in
theorem left_valuePlace (index : Nat) (items : List V) :
    (valuePlace index items).left = items.length := by
  cases items <;> rfl

omit [MatchValue V] [DecidableEq V] in
theorem left_endAt (x : Place V) (index : Nat) (r : Refusal (Place V) V) :
    (x.endAt index r).left = 0 := by
  cases x <;> rfl

/-- **A derived source has no more tokens than the source below it.** -/
theorem Reads.left_le (h : Reads R σ (.ok x)) : x.left ≤ σ.left := by
  refine Reads.induct (P := fun σ r => ∀ x, r = .ok x → x.left ≤ σ.left) ?_ h x rfl
  intro σ r hr
  have hnext : ∀ x y,
      (Tape.over fun σ r => Reads R σ r ∧ ∀ x, r = .ok x → x.left ≤ σ.left).next x (.ok y) →
      Place.left y < Place.left x := by
    intro x y h
    cases x with
    | token p v rest => exact Nat.lt_succ_of_le (h.2 y rfl)
    | finish | stalled => exact h.elim
  cases hr with
  | chars => rintro x ⟨⟩; exact (left_charPlace ..).le
  | values => rintro x ⟨⟩; exact (left_valuePlace ..).le
  | fixed => rintro x ⟨⟩; exact le_rfl
  | silent | brokenBelow | brokenSkip => rintro x ⟨⟩
  | @read below skip token index x y o hx hs ho =>
    have hx : x.left ≤ below.left := hx.2 x rfl
    have hy : y.left ≤ below.left :=
      hs.all (I := fun y => y.left ≤ below.left) (fun _ _ hle h => (hnext _ _ h).le.trans hle) hx
    cases o with
    | matched z v =>
      rintro w ⟨⟩
      split_ifs with hlt
      · -- The match got past `y`, so that it did not stop where it began.
        have hz : z.left < y.left := by
          apply (ho.moves hnext).resolve_left
          rintro rfl
          exact lt_irrefl _ hlt
        show z.left + 1 ≤ below.left
        omega
      · exact Nat.zero_le _
    | refused r => rintro w ⟨⟩; rw [left_endAt]; exact Nat.zero_le _
    | broken b => rintro w ⟨⟩

theorem left_lt_of_next (h : (lazyTape R).next x (.ok y)) : y.left < x.left := by
  cases x with
  | token p v rest => exact Nat.lt_succ_of_le (Reads.left_le h)
  | finish | stalled => exact h.elim

/-! ## Reading -/

/-- The places of a depth are a finite input, if all sources of that depth read a place or break
off. -/
theorem finite_lazyTape
    (h : ∀ σ : Source V, σ.Uses ok → σ.depth ≤ d → ∃ r, Reads R σ r) :
    (lazyTape R).Finite (fun x => x.Uses ok ∧ x.depth ≤ d) Place.left where
  exists_next {x v} hx hv := by
    cases x with
    | token p u rest => exact h rest hx.1 hx.2
    | finish | stalled => cases hv
  next hx hy := ⟨uses_of_next hx.1 hy, (depth_le_of_next hy).trans hx.2⟩
  lt := left_lt_of_next

section Descends

variable (hR : R.Descends S (Stays (lazyTape R) R) rank)
include hR

/-- **Every source reads a place or breaks off**, if no rule is left-recursive. -/
theorem Rulebook.Descends.exists_reads (hσ : σ.Uses (Pattern.Within S)) : ∃ r, Reads R σ r := by
  -- The patterns of a layer are matched over places of the layers below it alone.
  induction hn : σ.depth using Nat.strongRecOn generalizing σ with
  | ind n ih =>
    subst hn
    cases σ with
    | chars => exact ⟨_, reads_iff.mpr .chars⟩
    | values => exact ⟨_, reads_iff.mpr .values⟩
    | fixed => exact ⟨_, reads_iff.mpr .fixed⟩
    | silent => exact hσ.elim
    | derived below skip token index =>
      obtain ⟨hbelow, hskip, htoken⟩ := hσ
      have hlower : ∀ τ : Source V, τ.Uses (Pattern.Within S) → τ.depth ≤ below.depth →
          ∃ r, Reads R τ r := fun τ hτ hle => ih τ.depth (Nat.lt_succ_of_le hle) hτ rfl
      have hfinite := finite_lazyTape hlower
      have hmatch : ∀ {p : Pattern V} {x : Place V}, p.Within S →
          x.Uses (Pattern.Within S) ∧ x.depth ≤ below.depth →
          ∃ o, Derives (lazyTape R) R (.whole p) x o :=
        fun hp hx => hR.exists_derives (fun _ _ h => h) hfinite hp hx
      obtain ⟨r, hr⟩ := hlower below hbelow le_rfl
      cases r with
      | error b => exact ⟨_, reads_iff.mpr (.brokenBelow hr)⟩
      | ok x =>
        have hx := And.intro (hr.uses hbelow) hr.depth_le
        obtain ⟨r, hskips⟩ : ∃ r, SkipsTo (lazyTape R) R skip x r := by
          cases skip with
          | none => exact ⟨_, .none⟩
          | some k =>
            obtain ⟨o, ho⟩ := hmatch (hskip k rfl) hx
            exact ⟨_, .some ho⟩
        cases r with
        | error b => exact ⟨_, reads_iff.mpr (.brokenSkip hr hskips)⟩
        | ok y =>
          have hy := hskips.all (fun _ _ => hfinite.next) hx
          obtain ⟨o, ho⟩ := hmatch htoken hy
          exact ⟨_, reads_iff.mpr (.read hr hskips ho)⟩

/-- Every parse comes to a finding. -/
theorem Rulebook.Descends.exists_finds (hσ : σ.Uses (Pattern.Within S)) (hp : p.Within S) :
    ∃ f, Finds R p σ f := by
  obtain ⟨r, hr⟩ := hR.exists_reads hσ
  cases r with
  | error b => exact ⟨_, .unread hr⟩
  | ok x =>
    have hfinite := finite_lazyTape (R := R) (d := x.depth) fun τ hτ _ => hR.exists_reads hτ
    obtain ⟨o, ho⟩ := hR.exists_derives (fun _ _ h => h) hfinite hp ⟨hr.uses hσ, le_rfl⟩
    exact ⟨_, .read hr ho⟩

/-- The thread of a walk comes to an end, or it breaks off. -/
theorem Rulebook.Descends.walk_reaches (hσ : σ.Uses (Pattern.Within S))
    (hw : Poised R B d chart w) (hs : s.source? chart = some σ) (hd : σ.depth < d) :
    Reaches receive (fun _ _ => False) (fun _ _ => True) (.ask s .walker) w := by
  induction hn : σ.left using Nat.strongRecOn generalizing chart w s σ with
  | ind n ih =>
    subst hn
    obtain ⟨r, hr⟩ := hR.exists_reads hσ
    refine Reaches.bind (hr.fetchesTo hw hs hd) ?_ fun _ _ _ => trivial
    rintro m w₁ ⟨chart₁, y, c, hev, rfl, hc, rfl⟩
    cases c with
    | token p v rest =>
      -- fewer tokens are left behind the token that the walk notes
      obtain ⟨τ, hτ, rfl⟩ := Option.map_eq_some_iff.mp hc
      have hlt : τ.left < σ.left := hr.left_le
      have hw' : Poised R B d chart₁ { w₁ with walked := .token p v rest :: w₁.walked } :=
        ⟨(hw.evolve hev).rulebook, hev.charted, (hw.evolve hev).busy⟩
      exact .send rfl (ih τ.left hlt (hr.uses hσ) hw' hτ (hr.depth_le.trans_lt hd) rfl)
    | finish | stalled => exact .stop trivial

end Descends

/-- **Parses and walks stop** after finitely many deliveries, if no rule is left-recursive: every
rule is of a higher rank than the rules that may be tried where it begins, those before which the
sequences around them have only items that somewhere match without consuming a token. The stream is
a text, a list, or a tower of streams that are derived from one by patterns over such rules. -/
theorem Rulebook.Descends.stops
    (hR : w₀.rulebook.Descends S (Stays (lazyTape w₀.rulebook) w₀.rulebook) rank)
    (hs : Built (Pattern.Within S) w₀ s w) (hp : p.Within S) :
    (∃ d, (Loop.send (.fresh none) (.ask s (matcher p 0))).StopsAfter receive
      { w with answers := [] } d) ∧
    (∃ d, (Loop.send (.fresh none) (.ask s .walker)).StopsAfter receive
      { w with walked := [] } d) ∧
    Terminates (fun fuel => parse fuel none p s w) (fun _ => True) ∧
    Terminates (fun fuel => collect fuel none s w) fun _ => True := by
  obtain ⟨chart, σ, hstanding⟩ := hs.exists_standing
  -- the match finds something, and the walk reaches its end
  obtain ⟨f, hf⟩ := hR.exists_finds hstanding.uses hp
  obtain ⟨N, hN⟩ := Starts.exists_runMatch (.ask hstanding.source) (hstanding.poised [] w.walked)
    σ.depth.lt_succ_self hf
  obtain ⟨out, w', hparse⟩ := hN N le_rfl
  have hwalk := hR.walk_reaches hstanding.uses (hstanding.poised w.answers []) hstanding.source
    σ.depth.lt_succ_self
  obtain ⟨M, hM⟩ := Loop.exists_runFrom (fun _ _ h => h.elim) hwalk
    (Loop.holds_send_fresh none _) rfl 0
  obtain ⟨result, loop, w₁, hcollect, -⟩ := hM M le_rfl
  refine ⟨?_, ?_, ?_, ?_⟩
  · have hmap := parse_eq_map N none p s w
    rw [parse, hparse] at hmap
    obtain ⟨r, hr, -⟩ := Option.map_eq_some_iff.mp hmap.symm
    exact Loop.exists_stopsAfter hr
  · exact Loop.exists_stopsAfter hcollect
  · exact (runMatch_mono none _ w).terminates hparse trivial
  · have hrun : collect M none s w = some (walkResult (result, w₁)) := by
      rw [collect_eq_map]
      exact congrArg (Option.map fun r => walkResult (r.1, r.2.2)) hcollect
    exact (collect_mono none s w).terminates hrun trivial

/-- The rules of the grammar of words need no ranks: the one that refers to itself does so behind a
token. -/
theorem ranked_wordWorld :
    wordWorld.rulebook.Ranked (fun _ => True) (fun ref => ref.name = "rest") fun _ => 0 where
  closed _ body _ _ _ := body.within_true
  opens {ref body transform} _ h := by
    obtain ⟨rule, hrule, hbody, -⟩ := mem_wordGrammar h
    have hopens : ∀ r ∈ wordGrammar.rules, ∀ p, r.2.body = some p →
        p.Opens (Pattern.Nullable fun ref => ref.name = "rest") fun _ => 0 < 0 := by
      simp [wordGrammar, Pattern.Opens, Pattern.ChoiceOpens, Pattern.SequenceOpens,
        Pattern.Nullable]
    exact hopens _ hrule body hbody
  nullable {ref body transform} _ h := by
    obtain ⟨rule, hrule, hbody, -⟩ := mem_wordGrammar h
    have hnullable : ∀ r ∈ wordGrammar.rules, ∀ p, r.2.body = some p →
        p.Nullable (fun ref => ref.name = "rest") → r.1 = "rest" := by
      simp [wordGrammar, Pattern.Nullable]
    exact hnullable _ hrule body hbody

/-- Repetitions of what may match nothing, over the words of a text. -/
theorem stops_words :
    wordWorld.rulebook.Descends (fun _ => True)
      (Stays (lazyTape wordWorld.rulebook) wordWorld.rulebook) (fun _ => 0) ∧
    Built (Pattern.Within fun _ => True) wordWorld wordStream.1 wordStream.2 ∧
    ∃ d, (Loop.send (.fresh none) (.ask wordStream.1
      (matcher (.zeroOrMore (.zeroOrMore (.optional (.rule ⟨0, "rest"⟩)))) 0))).StopsAfter receive
        { wordStream.2 with answers := [] } d := by
  have hR := ranked_wordWorld.descends fun _ _ => left_lt_of_next (R := wordWorld.rulebook)
  have hbuilt : Built (Pattern.Within fun _ => True) wordWorld wordStream.1 wordStream.2 :=
    .derived .chars (fun k _ => k.within_true) (Pattern.within_true _)
  exact ⟨hR, hbuilt, (hR.stops hbuilt (Pattern.within_true _)).1⟩

end Humus.Peg
