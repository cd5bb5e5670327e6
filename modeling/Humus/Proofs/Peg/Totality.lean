import Humus.Proofs.Dispatch.Fuel
import Humus.Proofs.Peg.Collecting
import Humus.Proofs.Peg.Reference
import Humus.Proofs.Peg.Shapes
import Humus.Proofs.Peg.Termination

/-!
# Total grammars

A grammar whose rules are sound and not left-recursive is total: over every finite list of readable
tokens its patterns match or are refused. A stream that is derived by total grammars from a finite
stream is finite, and parses of it terminate in turn.

## Main definitions

* `Rulebook.Total R S N rank tok Γ`: the rules of `S` are sound and not left-recursive
* `Settles T R p P`: at every place `p` matches, with a value that satisfies `P`, or is refused

## Main results

* `Rulebook.Total.settles`: patterns over total rules settle
* `Walks.exists_derived`: a stream that is derived from a finite stream is finite
* `Starts.terminates`, `Walks.terminates_collect`: parses and walks terminate
* `Rulebook.Total.parse_terminates`: a parse of a text or of a list matches or fails
-/

namespace Humus.Peg

open Dispatch (FuelMonotone Terminates Loop)

variable {V : Type} [MatchValue V] [DecidableEq V]

/-- The rules of `S` are sound and not left-recursive. -/
structure Rulebook.Total (R : Rulebook V) (S N : RuleRef → Prop) (rank : RuleRef → Nat)
    (tok : V → Prop) (Γ : RuleRef → V → Prop) : Prop extends R.Ranked S N rank where
  sound : R.Sound S tok Γ

/-- At every place the pattern matches, with a value that satisfies `P`, or is refused. -/
def Settles (T : Tape Nat V) (R : Rulebook V) (p : Pattern V) (P : V → Prop) : Prop :=
  ∀ i, ∃ o, Derives T R (.whole p) i o ∧ o.Satisfies P ∧ o.Stops fun j => i ≤ j

variable {R : Rulebook V} {S N : RuleRef → Prop} {rank : RuleRef → Nat} {tok : V → Prop}
  {Γ : RuleRef → V → Prop}

/-! ## Lists of tokens -/

section Tokens

variable {tokens : List V}

omit [MatchValue V] [DecidableEq V] in
theorem finite_ofTokens (tokens : List V) (position : Nat → Position) :
    (Tape.ofTokens tokens position).Finite (fun _ => True) fun i => tokens.length - i where
  exists_next {i v} _ h := ⟨.ok (i + 1), (List.getElem?_eq_some_iff.mp h).1, rfl⟩
  next _ _ := trivial
  lt := by
    rintro i j ⟨hlt, hj⟩
    cases hj
    omega

omit [MatchValue V] [DecidableEq V] in
theorem readable_ofTokens (htokens : ∀ v ∈ tokens, tok v) (position : Nat → Position) :
    (Tape.ofTokens tokens position).Readable tok where
  token h := htokens _ (List.mem_of_getElem? h)
  next h := ⟨_, h.2⟩

/-- **Patterns over total rules settle.** -/
theorem Rulebook.Total.settles (hR : R.Total S N rank tok Γ) (htokens : ∀ v ∈ tokens, tok v)
    (position : Nat → Position) {p : Pattern V} (hnative : p.isForeign = false)
    (hp : p.Within S) : Settles (Tape.ofTokens tokens position) R p (p.Yields tok Γ) := by
  intro i
  have hfinite := finite_ofTokens tokens position
  have hstays : ∀ p : Pattern V, p.Within S → Stays (Tape.ofTokens tokens position) R p →
      p.Nullable N := fun p hp h => hR.nullable_of_stays (fun _ _ => hfinite.lt) hp h
  obtain ⟨o, ho⟩ := hR.toDescends.exists_derives hstays hfinite hp (x := i) trivial
  refine ⟨o, ho, ho.yields hR.sound (readable_ofTokens htokens position) hnative hp, ?_⟩
  refine (ho.stays_or_advances hR.toRanked (fun _ _ => hfinite.lt) hp).imp fun j hj => ?_
  rcases hj with ⟨rfl, -⟩ | hlt
  · exact le_rfl
  · omega

end Tokens

/-! ## Derived sources -/

/-- The places of a walk as an input. -/
def Tape.ofPlaces (xs : List (Place V)) : Tape Nat V :=
  .ofTokens (xs.filterMap Place.token?) fun i => (xs[i]?.map Place.position).getD .start

variable {σ below : Source V} {xs : List (Place V)} {x : Place V} {i : Nat} {p token : Pattern V}
  {skip : Option (Pattern V)} {P Q : V → Prop}

theorem Walks.derives_of_places (h : Walks R σ xs) (hx : xs[i]? = some x) {o : Verdict Nat V}
    (ho : Derives (Tape.ofPlaces xs) R (.whole p) i o) :
    ∃ o', Derives (lazyTape R) R (.whole p) x o' ∧ o.Rel (fun i x => xs[i]? = some x) o' :=
  h.derives_of_tokens (fun i x hx => by rw [hx, Option.map_some, Option.getD_some]) hx ho

/-- The skip pattern of a derived source leads from place to place. -/
theorem Walks.exists_skipsTo (h : Walks R σ xs)
    (hskip : ∀ p ∈ skip, Settles (Tape.ofPlaces xs) R p P) (hx : xs[i]? = some x) :
    ∃ j y, i ≤ j ∧ xs[j]? = some y ∧ SkipsTo (lazyTape R) R skip x (.ok y) := by
  cases skip with
  | none => exact ⟨i, x, le_rfl, hx, .none⟩
  | some p =>
    obtain ⟨o, ho, hsat, hstops⟩ := hskip p rfl i
    obtain ⟨o', ho', hrel⟩ := h.derives_of_places hx ho
    cases hrel with
    | @matched j y v hy => exact ⟨j, y, hstops, hy, .some ho'⟩
    | refused _ => exact ⟨i, x, le_rfl, hx, .some ho'⟩
    | broken => exact hsat.elim

/-- **A source that is derived from a finite source is finite**, if its patterns settle, and its
tokens are values of its token pattern. -/
theorem Walks.exists_derived (h : Walks R σ xs)
    (hskip : ∀ p ∈ skip, Settles (Tape.ofPlaces xs) R p P)
    (htoken : Settles (Tape.ofPlaces xs) R token Q) (hx : xs[i]? = some x)
    (hbelow : Reads R below (.ok x)) (index : Nat) :
    ∃ ys, Walks R (.derived below skip token index) ys ∧ ∀ v ∈ ys.filterMap Place.token?, Q v := by
  -- Every token of the derived source takes up at least one place of the source below.
  induction hn : xs.length - i using Nat.strongRecOn generalizing i x below index with
  | ind n ih =>
    subst hn
    obtain ⟨j, y, hij, hy, hskips⟩ := h.exists_skipsTo hskip hx
    obtain ⟨o, ho, hsat, hstops⟩ := htoken j
    obtain ⟨o', ho', hrel⟩ := h.derives_of_places hy ho
    have hreads : Reads R (.derived below skip token index) (readFrom skip token index y o') :=
      reads_iff.mpr (.read hbelow hskips ho')
    cases hrel with
    | @matched k z v hz =>
      by_cases hlt : y.offset < z.offset
      · -- The token stands on at least one place, and the next one is looked for behind it.
        have hjk : j < k := by
          have hle : j ≤ k := hstops
          rcases hle.lt_or_eq with hlt' | rfl
          · exact hlt'
          · rw [hy] at hz
            cases hz
            omega
        have hk : k < xs.length := (List.getElem?_eq_some_iff.mp hz).1
        have hfixed : Reads R (.fixed z) (.ok z) := reads_iff.mpr .fixed
        obtain ⟨ys, hys, htokens⟩ := ih _ (by omega) hz hfixed (index + 1) rfl
        rw [readFrom, if_pos hlt] at hreads
        refine ⟨_, .next hreads hys, ?_⟩
        rw [List.filterMap_cons_some (Place.token?_token ..)]
        exact List.forall_mem_cons.mpr ⟨hsat, htokens⟩
      · -- a token that consumed nothing ends the source
        rw [readFrom, if_neg hlt] at hreads
        refine ⟨_, .stop hreads rfl, fun v hv => ?_⟩
        exact absurd hv List.not_mem_nil
    | @refused r r' _ =>
      -- what is refused is an end or a stall, and no token
      have hend := y.token?_endAt index r'
      refine ⟨_, .stop hreads hend, fun v hv => ?_⟩
      rw [List.filterMap_cons_none hend] at hv
      exact absurd hv List.not_mem_nil
    | broken => exact hsat.elim

/-! ## Findings -/

/-- The finding is a match with a value that satisfies `P`, or a refusal at one of the places. -/
def Finding.Satisfies (P : V → Prop) (xs : List (Place V)) : Finding V → Prop
  | .matched _ _ v => P v
  | .refused _ r => r.furthest ∈ xs
  | .broken _ => False

/-- A pattern that settles over a finite source is found to match or to be refused. -/
theorem Walks.exists_finds (h : Walks R σ xs) (hp : Settles (Tape.ofPlaces xs) R p P)
    (hx : xs[i]? = some x) (hbelow : Reads R below (.ok x)) :
    ∃ f, Finds R p below f ∧ f.Satisfies P xs := by
  obtain ⟨o, ho, hsat, -⟩ := hp i
  obtain ⟨o', ho', hrel⟩ := h.derives_of_places hx ho
  refine ⟨_, .read hbelow ho', ?_⟩
  cases hrel with
  | matched _ => exact hsat
  | refused hr =>
    obtain ⟨hr⟩ := hr
    exact List.mem_of_getElem? hr
  | broken => exact hsat.elim

/-! ## Runs -/

variable {B : Nat → Prop} {chart : Chart V} {w : World V} {d : Nat} {first : Delivery V}

theorem runMatch_mono (limit : Option Nat) (first : Delivery V) (w : World V) :
    FuelMonotone fun fuel => runMatch fuel limit first w :=
  (Loop.runFrom_mono receive 0 _ _).bind _

theorem collect_mono (limit : Option Nat) (s : Stream V) (w : World V) :
    FuelMonotone fun fuel => collect fuel limit s w :=
  (Loop.runFrom_mono receive 0 _ _).bind _

/-- **The run of a match terminates**, where there is a finding. -/
theorem Starts.terminates (h : Starts chart p 0 first below)
    (hw : Poised R B d chart { w with answers := [] }) (hd : below.depth < d) {f : Finding V}
    (hf : Finds R p below f) :
    Terminates (fun fuel => runMatch fuel none first w) fun r => ∃ chart', Says chart' r.1 f ∧
      ((∀ b, f ≠ .broken b) → Evolves R B chart { w with answers := [] } chart' r.2) := by
  obtain ⟨N, hN⟩ := h.exists_runMatch hw hd hf
  obtain ⟨out, w', hrun⟩ := hN N le_rfl
  refine (runMatch_mono none first w).terminates hrun ?_
  rcases h.runMatch_says hw hd hrun with ⟨k, hk, -⟩ | ⟨chart', f', hf', hsays, hev⟩
  · cases hk
  · obtain rfl := hf.unique hf'
    exact ⟨chart', hsays, hev⟩

/-- **A walk over a finite source terminates.** -/
theorem Walks.terminates_collect (h : Walks R σ xs) (hw : Poised R B d chart w.unwalked)
    {s : Stream V} (hs : s.source? chart = some σ) (hd : σ.depth < d) :
    Terminates (fun fuel => collect fuel none s w) fun r => ∃ cs chart', r.1 = .ok cs ∧
      List.Forall₂ (fun c x => Cursor.place? chart' c = some x) cs xs ∧
      Evolves R B chart w.unwalked chart' r.2 := by
  obtain ⟨N, hN⟩ := h.exists_collect hw hs hd
  obtain ⟨result, w', hrun⟩ := hN N le_rfl
  refine (collect_mono none s w).terminates hrun ?_
  rcases collect_ends hw hs hd hrun with
    ⟨k, hk, -⟩ | ⟨_, -, hbroken⟩ | ⟨_, -, hbroken, -⟩ | ⟨cs, ys, chart', hcs, hys, hplaces, hev⟩
  · cases hk
  · exact absurd h (hbroken xs)
  · exact absurd h (hbroken xs)
  · obtain rfl := h.unique hys
    exact ⟨cs, chart', hcs, hplaces, hev⟩

omit [MatchValue V] [DecidableEq V] in
/-- What an outcome says that matches, or is refused at one of the places. -/
theorem Says.satisfies {out : Outcome V} {f : Finding V} (h : Says chart out f)
    (hf : f.Satisfies P xs) :
    (∃ s, out = .ok s ∧ P s.value) ∨
      ∃ g, out = .error (.failed g) ∧ ∃ x ∈ xs, g.furthest.place? chart = some x := by
  cases h with
  | matched _ _ => exact .inl ⟨_, rfl, hf⟩
  | refused _ hr => exact .inr ⟨_, rfl, _, hf, hr.furthest⟩
  | fault | silence => exact hf.elim

omit [MatchValue V] [DecidableEq V] in
theorem Finding.Satisfies.ne_broken {f : Finding V} (h : f.Satisfies P xs) (b : Break) :
    f ≠ .broken b := by
  rintro rfl
  exact h

/-- **A parse of a text or of a list matches or fails**, if the grammar is total over its tokens. -/
theorem Rulebook.Total.parse_terminates (hR : w.rulebook.Total S N rank tok Γ) (input : Input V)
    (htokens : ∀ v ∈ input.tokens, tok v) (hnative : p.isForeign = false) (hp : p.Within S) :
    Terminates (fun fuel => parse fuel none p input.stream w) fun r =>
      (∃ s, r.1 = .ok s ∧ p.Yields tok Γ s.value) ∨ ∃ g, r.1 = .error (.failed g) := by
  obtain ⟨σ, xs, hs, hwalks, heq, -⟩ := input.exists_walks w.rulebook fun _ => none
  have hsettles : Settles (Tape.ofPlaces xs) w.rulebook p (p.Yields tok Γ) :=
    hR.settles (by rwa [heq]) _ hnative hp
  obtain ⟨x, hx, hreads⟩ := hwalks.exists_head
  obtain ⟨f, hf, hsat⟩ := hwalks.exists_finds hsettles hx hreads
  have hw : Poised w.rulebook (fun _ => False) (σ.depth + 1) (fun _ => none)
      { w with answers := [] } := ⟨rfl, .empty, fun _ h => h.elim⟩
  have hstarts : Starts (fun _ => none) p 0 (.ask input.stream (matcher p 0)) σ := .ask hs
  refine (hstarts.terminates hw (Nat.lt_succ_self _) hf).imp fun r hr => ?_
  obtain ⟨chart', hsays, -⟩ := hr
  rcases hsays.satisfies hsat with h | ⟨g, hg, -⟩
  · exact .inl h
  · exact .inr ⟨g, hg⟩

end Humus.Peg
