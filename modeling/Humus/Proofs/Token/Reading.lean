import Humus.Proofs.Peg.Layering
import Humus.Proofs.Peg.Stalls
import Humus.Proofs.Tree.Totality

/-!
# The tokens of a source

What tokenizing a source comes to is written on the places of its token source. The places before
the last one are its tokens. The last one is the end of the text, or the stall where no token can
be read.

## Main definitions

* `tokenAt? x`: the token at a place, with its position
* `Lexes xs x r`: what the places `xs`, of which `x` is the last, make of a source

## Main results

* `exists_lexes`: tokenizing comes to what the places of the token source say
-/

namespace Humus

open Dispatch (Terminates)
open Peg (Chart Cursor Place Rulebook Source Walks)

/-- The token at a place, with its position. -/
def tokenAt? : Place Node → Option PlacedToken
  | .token p (.token t) _ => some ⟨t, p⟩
  | _ => none

theorem exists_eq_of_tokenAt? {x : Place Node} {placed : PlacedToken}
    (h : tokenAt? x = some placed) : ∃ rest, x = .token placed.position (.token placed.token) rest := by
  match x, h with
  | .token p (.token t) rest, rfl => exact ⟨rest, rfl⟩

theorem tokenAt?_eq_none {x : Place Node} (h : x.token? = none) : tokenAt? x = none := by
  cases x with
  | token => cases h
  | finish | stalled => rfl

/-- What the places of a source, of which `x` is the last, make of it. -/
inductive Lexes (xs : List (Place Node)) : Place Node → Except LexError (List PlacedToken) → Prop
    where
  | finish {p} : Lexes xs (.finish p) (.ok (xs.filterMap tokenAt?))
  | stalled {p f} : Lexes xs (.stalled p f.stall) (.error (.stalled f))

/-! ## Tokens -/

variable {source : String} {xs : List (Place Node)} {x : Place Node}

/-- What the cursors of a source say is what its places say. -/
theorem lexes_tokensOf {R : Rulebook Node} {σ : Source Node} (h : Walks R σ xs)
    (htokens : ∀ v ∈ xs.filterMap Place.token?, ∃ t, v = .token t) {chart : Chart Node}
    {cs : List (Cursor Node)}
    (hplaces : List.Forall₂ (fun c x => Cursor.place? chart c = some x) cs xs) :
    ∃ x, xs.getLast? = some x ∧ Lexes xs x (tokensOf cs) := by
  induction h generalizing cs with
  | @stop σ x _ hend =>
    obtain - | @⟨c, _, cs, _, hc, - | -⟩ := hplaces
    refine ⟨x, rfl, ?_⟩
    cases c with
    | token p v rest =>
      obtain ⟨τ, -, rfl⟩ := Option.map_eq_some_iff.mp hc
      cases hend
    | finish p => cases hc; exact .finish
    | stalled p f => cases hc; exact .stalled
  | @next σ p v rest xs _ _ ih =>
    obtain - | @⟨c, _, cs, _, hc, hcs⟩ := hplaces
    rw [List.filterMap_cons_some (Place.token?_token ..)] at htokens
    obtain ⟨⟨t, rfl⟩, hrest⟩ := List.forall_mem_cons.mp htokens
    obtain ⟨x, hx, hlexes⟩ := ih hrest hcs
    refine ⟨x, by rw [List.getLast?_cons, hx]; rfl, ?_⟩
    cases c with
    | token p' v' rest' =>
      obtain ⟨τ, -, he⟩ := Option.map_eq_some_iff.mp hc
      cases he
      rw [tokensOf]
      -- the token is put in front of those of the places behind it
      generalize tokensOf cs = r at hlexes
      cases hlexes with
      | finish => exact .finish
      | stalled => exact .stalled
    | finish | stalled => cases hc

/-- All cursors of the tokens of a source. -/
abbrev collectTokens (fuel : Nat) (source : String) :=
  Peg.collect fuel none (tokenStream source frontEnd).1 (tokenStream source frontEnd).2

/-- The cursors of the tokens of a source are collected. -/
theorem exists_collect_tokenStream (hwalks : Walks frontEnd.rulebook (tokenSource source) xs) :
    Terminates (fun fuel => collectTokens fuel source) fun r => ∃ cs chart, r.1 = .ok cs ∧
      List.Forall₂ (fun c x => Cursor.place? chart c = some x) cs xs := by
  obtain ⟨chart, hw, hs⟩ := exists_chart_tokenStream source
  refine (hwalks.terminates_collect hw hs (Nat.lt_succ_self _)).imp ?_
  rintro r ⟨cs, chart', hcs, hplaces, -⟩
  exact ⟨cs, chart', hcs, hplaces⟩

/-- **Tokenizing comes to what the places of the token source say.** -/
theorem tokenize_lexes (hwalks : Walks frontEnd.rulebook (tokenSource source) xs) :
    Terminates (fun fuel => tokenize fuel none source) fun r =>
      ∃ x, xs.getLast? = some x ∧ Lexes xs x r := by
  obtain ⟨ys, hys, htokens⟩ := exists_walks_tokenSource source
  obtain rfl := hwalks.unique hys
  refine (exists_collect_tokenStream hwalks).bind ?_
  rintro ⟨result, w'⟩ ⟨cs, chart, rfl, hplaces⟩
  exact .of_eq (fun fuel => rfl) (lexes_tokensOf hwalks htokens hplaces)

/-- A source whose last place is an end has the tokens at the others, and one whose last place is a
stall has an error. -/
theorem tokenize_of_getLast? (hwalks : Walks frontEnd.rulebook (tokenSource source) xs)
    (hx : xs.getLast? = some x) :
    Terminates (fun fuel => tokenize fuel none source) (Lexes xs x) := by
  refine (tokenize_lexes hwalks).imp ?_
  rintro r ⟨y, hy, hlexes⟩
  rw [hx] at hy
  cases hy
  exact hlexes

/-- Each place but the last one is a token. -/
theorem length_filterMap_tokenAt? (hwalks : Walks frontEnd.rulebook (tokenSource source) xs) :
    xs.length = (xs.filterMap tokenAt?).length + 1 := by
  obtain ⟨ys, hys, htokens⟩ := exists_walks_tokenSource source
  obtain rfl := hwalks.unique hys
  rw [hwalks.length_eq]
  clear hwalks hys
  congr 1
  induction ys with
  | nil => rfl
  | cons x ys ih =>
    cases x with
    | token p v rest =>
      rw [List.filterMap_cons_some (Place.token?_token ..)] at htokens ⊢
      obtain ⟨⟨t, rfl⟩, hrest⟩ := List.forall_mem_cons.mp htokens
      rw [List.length_cons, ih hrest]
      rfl
    | finish | stalled => exact ih htokens

end Humus
