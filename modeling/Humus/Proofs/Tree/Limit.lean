import Humus.Proofs.Peg.Limit
import Humus.Proofs.Tree.Totality

/-!
# Limited readings

A reading of a source is up to two runs of the event loop: a match of the whole, and behind a
failure a retry of one rule where the failure was noticed. Each run has the limit to itself. A match
of the whole that exceeds the limit is reported. A retry that exceeds it is not: the failure is then
left as it is, without its reason.

## Main definitions

* `CutsRetry limit p resume source f`: the limit allows the match of the whole, which fails with
  `f`, and cuts the retry off
* `LimitedTo limit p resume source whole limited`: what a reading comes to under a limit, given what
  it comes to without one
* `Limited limit p resume source run`: the reading `run` comes to such results

## Main results

* `readPattern_limited`: what matching a pattern over the tokens of a source comes to
* `limit_keeps_or_is_reported`: a limit keeps the result of a parse or is reported, unless it cuts
  the retry off
* `limit_hides_reason`: a limit under which an error is reported at another place
-/

namespace Humus

open Dispatch (FuelMonotone Terminates)
open Peg (Cursor Failure Pattern World)

/-- The match of the whole is within the limit and fails with `f`. The retry that would look for the
reason of the failure is cut off. -/
structure CutsRetry (limit : Nat) (p : Pattern Node) (resume source : String)
    (f : Failure Node) : Prop where
  /-- There is no retry at the end of the input. -/
  isEnd_eq : f.furthest.isEnd = false
  exists_cut : ∃ w,
    Terminates (fun fuel => Peg.parse fuel (some limit) p (tokenStream source frontEnd).1
      (tokenStream source frontEnd).2) (· = (.error (.failed f), w)) ∧
    Terminates (fun fuel => Peg.parseAt fuel (some limit) (Syntactic.call resume) f.furthest w)
      (·.1 = .error (.halted (.limit limit)))

/-- What a reading comes to under a limit, given what it comes to without one. -/
inductive LimitedTo {α : Type} (limit : Nat) (p : Pattern Node) (resume source : String) :
    (whole limited : Except ParseError α) → Prop where
  | same {r} : LimitedTo limit p resume source r r
  | halted {r} : LimitedTo limit p resume source r (.error (.halted (.limit limit)))
  /-- Both readings fail, and the one under the limit does so without the reason of its failure. -/
  | unrefined {e f} : CutsRetry limit p resume source f →
      LimitedTo limit p resume source (.error e) (.error (.syntactic f))

variable {limit : Nat} {p : Pattern Node} {resume source : String} {w : World Node}
  {f g : Failure Node}

/-! ## Fuel -/

theorem refine_mono (limit : Option Nat) (resume : String) (f : Failure Node) (w : World Node) :
    FuelMonotone fun fuel => refine fuel limit resume f w := by
  by_cases hend : f.furthest.isEnd = true
  · simp only [refine, hend]
    exact .const _
  · simp only [refine, hend]
    exact (Peg.runMatch_mono limit _ w).seq fun _ => .const _

theorem readPattern_mono (limit : Option Nat) (p : Pattern Node) (resume source : String) :
    FuelMonotone fun fuel => readPattern fuel limit p resume source := by
  refine (Peg.runMatch_mono limit _ _).seq fun r => ?_
  rcases r with ⟨(f | stop | _) | s, w⟩
  · exact (refine_mono limit resume f w).seq fun _ => .const _
  all_goals exact .const _

/-! ## Retries -/

/-- The retry behind a failure finds what it finds without a limit, or it is cut off and the failure
is left as it is. -/
theorem refine_limited (h : Terminates (fun fuel => refine fuel none resume f w) (· = g))
    (limit : Nat) :
    Terminates (fun fuel => refine fuel (some limit) resume f w) (· = g) ∨
      f.furthest.isEnd = false ∧
        Terminates (fun fuel => Peg.parseAt fuel (some limit) (Syntactic.call resume) f.furthest w)
          (·.1 = .error (.halted (.limit limit))) ∧
        Terminates (fun fuel => refine fuel (some limit) resume f w) (· = f) := by
  by_cases hend : f.furthest.isEnd = true
  · -- nothing is retried, so that there is nothing to limit
    left
    simp only [refine, hend] at h ⊢
    exact h
  · simp only [refine, hend] at h ⊢
    obtain ⟨_, rfl, N, hrun⟩ := h
    obtain ⟨r, hretry, hnext⟩ := (Peg.runMatch_mono none _ w).exists_of_bind (hrun N le_rfl)
    rcases Peg.runMatch_same_or_cut hretry limit with hsame | hcut
    · left
      apply hsame.bind
      rintro _ rfl
      exact .of_eq (fun _ => hnext) rfl
    · right
      refine ⟨by simp, hcut, hcut.bind ?_⟩
      rintro ⟨_, w'⟩ rfl
      exact .of_eq (fun _ => rfl) rfl

/-! ## Readings -/

theorem stall?_eq_none {c : Cursor Node} (h : c.isEnd = false) : c.stall? = none := by
  cases c with
  | token => rfl
  | finish | stalled => cases h

/-- **What matching a pattern over the tokens of a source comes to** under a limit. -/
theorem readPattern_limited {r : Except ParseError Node}
    (h : Terminates (fun fuel => readPattern fuel none p resume source) (· = r)) (limit : Nat) :
    Terminates (fun fuel => readPattern fuel (some limit) p resume source)
      (LimitedTo limit p resume source r) := by
  obtain ⟨r, rfl, N, hrun⟩ := h
  obtain ⟨⟨outcome, w⟩, hwhole, hnext⟩ :=
    (Peg.runMatch_mono none _ _).exists_of_bind (hrun N le_rfl)
  rcases Peg.runMatch_same_or_cut hwhole limit with hsame | hcut
  · apply hsame.bind
    rintro _ rfl
    rcases outcome with (f | stop | _) | s
    · -- the match of the whole fails within the limit, and the retry has a limit of its own
      obtain ⟨g, hrefine, hnext⟩ := (refine_mono none resume f w).exists_of_bind hnext
      rcases refine_limited hrefine limit with hsame' | ⟨hend, hcut, hkeeps⟩
      · apply hsame'.bind
        rintro _ rfl
        exact .of_eq (fun _ => hnext) .same
      · -- with the reason or without it, the reading fails
        obtain ⟨e, rfl⟩ : ∃ e, r = .error e := by
          split at hnext <;> exact ⟨_, (Option.some.inj hnext).symm⟩
        apply hkeeps.bind
        rintro _ rfl
        simp only [stall?_eq_none hend]
        exact .of_eq (fun _ => rfl) (.unrefined ⟨hend, w, hsame, hcut⟩)
    all_goals exact .of_eq (fun _ => hnext) .same
  · apply hcut.bind
    rintro ⟨_, w'⟩ rfl
    exact .of_eq (fun _ => rfl) .halted

/-! ## Syntax trees -/

section Trees

variable {α β : Type} {run : Nat → Option Nat → Option (Except ParseError α)}
  {next : Except ParseError α → Option (Except ParseError β)}

/-- What is made of a result, errors as they are, is limited as the result is. -/
theorem LimitedTo.bind {r r' : Except ParseError α} (h : LimitedTo limit p resume source r r')
    (hok : ∀ a, ∃ b, next (.ok a) = some b) (herror : ∀ e, next (.error e) = some (.error e)) :
    ∃ b b', next r = some b ∧ next r' = some b' ∧ LimitedTo limit p resume source b b' := by
  have htotal : ∀ r, ∃ b, next r = some b := by
    rintro (e | a)
    · exact ⟨_, herror e⟩
    · exact hok a
  obtain ⟨b, hb⟩ := htotal r
  cases h with
  | same => exact ⟨b, b, hb, hb, .same⟩
  | halted => exact ⟨b, _, hb, herror _, .halted⟩
  | unrefined hcut => exact ⟨_, _, herror _, herror _, .unrefined hcut⟩

/-- A run comes to a result without a limit, and with the limit to what that allows. -/
def Limited (limit : Nat) (p : Pattern Node) (resume source : String)
    (run : Nat → Option Nat → Option (Except ParseError α)) : Prop :=
  ∃ r, Terminates (fun fuel => run fuel none) (· = r) ∧
    Terminates (fun fuel => run fuel (some limit)) (LimitedTo limit p resume source r)

theorem Limited.bind (h : Limited limit p resume source run)
    (hok : ∀ a, ∃ b, next (.ok a) = some b) (herror : ∀ e, next (.error e) = some (.error e)) :
    Limited limit p resume source fun fuel limit => (run fuel limit).bind next := by
  obtain ⟨r, hrun, r', hlimited, hrun'⟩ := h
  obtain ⟨b, b', hb, hb', hnext⟩ := hlimited.bind hok herror
  refine ⟨b, hrun.bind ?_, Terminates.bind ⟨r', rfl, hrun'⟩ ?_⟩
  · rintro _ rfl
    exact .of_eq (fun _ => hb) rfl
  · rintro _ rfl
    exact .of_eq (fun _ => hb') hnext

end Trees

theorem limited_readPattern {P : Except ParseError Node → Prop}
    (h : Terminates (fun fuel => readPattern fuel none p resume source) P) (limit : Nat) :
    Limited limit p resume source fun fuel limit => readPattern fuel limit p resume source := by
  obtain ⟨r, -, hrun⟩ := h
  exact ⟨r, ⟨r, rfl, hrun⟩, readPattern_limited ⟨r, rfl, hrun⟩ limit⟩

theorem limited_readWhole (name : String) (hname : name ∈ Syntactic.rules.map Prod.fst)
    (source : String) (limit : Nat) :
    Limited limit (.sequence [Syntactic.call name, .finish]) name source
      fun fuel limit => readWhole fuel limit name source := by
  have hread := readPattern_terminates source (p := .sequence [Syntactic.call name, .finish]) rfl
    ⟨⟨rfl, hname⟩, trivial, trivial⟩ name hname
  exact (limited_readPattern hread limit).bind (fun _ => ⟨_, rfl⟩) fun _ => rfl

/-- **A limit keeps a result or is reported.** Each of the three parses of a source comes to a
result. Under a limit it comes to the same result, or it reports the limit, with one exception: a
parse that fails within the limit, and whose retry the limit cuts off, reports the failure without
the reason that the retry would have looked for. Without the limit such a parse fails as well. -/
theorem limit_keeps_or_is_reported (source : String) (limit : Nat) :
    Limited limit (.sequence [Syntactic.call "expr", .finish]) "expr" source
        (fun fuel limit => parseExpr fuel limit source) ∧
      Limited limit (.sequence [Syntactic.call "stmt", .finish]) "stmt" source
        (fun fuel limit => parseStmt fuel limit source) ∧
      Limited limit (Syntactic.call "humus") "stmt" source
        (fun fuel limit => parseProgram fuel limit source) := by
  refine ⟨?_, ?_, ?_⟩
  · refine (limited_readWhole "expr" (by decide) source limit).bind (fun n => ?_) fun _ => rfl
    cases n <;> exact ⟨_, rfl⟩
  · refine (limited_readWhole "stmt" (by decide) source limit).bind (fun n => ?_) fun _ => rfl
    cases n <;> exact ⟨_, rfl⟩
  · have hread := readPattern_terminates source (p := Syntactic.call "humus") rfl ⟨rfl, by decide⟩
      "stmt" (by decide)
    refine (limited_readPattern hread limit).bind (fun n => ?_) fun _ => rfl
    cases n <;> exact ⟨_, rfl⟩

/-! ## A reason that is hidden -/

/-- Where a syntax error is noticed. -/
def noticedAt? {α : Type} : Except ParseError α → Option Position
  | .error (.syntactic f) => some f.furthest.position
  | _ => none

theorem parseExpr_mono (limit : Option Nat) (source : String) :
    FuelMonotone fun fuel => parseExpr fuel limit source :=
  ((readPattern_mono limit _ "expr" source).bind _).bind _

/-- An operand is missing at the end of the source. Under a limit that only the retry exceeds, the
error is noticed at the second token instead, and the limit is not reported. -/
theorem limit_hides_reason :
    Terminates (fun fuel => parseExpr fuel none "x NEW NEW") (noticedAt? · = some ⟨3, 0, 9⟩) ∧
      Terminates (fun fuel => parseExpr fuel (some 300) "x NEW NEW")
        (noticedAt? · = some ⟨1, 0, 2⟩) ∧
      ∀ r, Terminates (fun fuel => parseExpr fuel none "x NEW NEW") (· = r) →
        ¬ Terminates (fun fuel => parseExpr fuel (some 300) "x NEW NEW")
          fun r' => r' = r ∨ r' = .error (.halted (.limit 300)) := by
  have hwhole : (parseExpr 400 none "x NEW NEW").map noticedAt? = some (some ⟨3, 0, 9⟩) := by
    decide +kernel
  have hcut : (parseExpr 400 (some 300) "x NEW NEW").map noticedAt? = some (some ⟨1, 0, 2⟩) := by
    decide +kernel
  -- a result with so much fuel is the result with more of it
  obtain ⟨r, hr, hr₃⟩ := Option.map_eq_some_iff.mp hwhole
  obtain ⟨r', hr', hr₁⟩ := Option.map_eq_some_iff.mp hcut
  have hwhole : Terminates _ (noticedAt? · = some ⟨3, 0, 9⟩) :=
    (parseExpr_mono none _).terminates hr hr₃
  have hcut : Terminates _ (noticedAt? · = some ⟨1, 0, 2⟩) :=
    (parseExpr_mono (some 300) _).terminates hr' hr₁
  refine ⟨hwhole, hcut, fun r hr hlimited => ?_⟩
  obtain ⟨_, rfl, hr₃⟩ := hr.exists_and hwhole
  obtain ⟨r', hcases, hr₁⟩ := hlimited.exists_and hcut
  rcases hcases with rfl | rfl
  · rw [hr₁] at hr₃
    exact absurd hr₃ (by decide)
  · cases hr₁

end Humus
