import Humus.Proofs.Peg.Walk

/-!
# Parses of texts and lists

The inputs at the bottom of every tower of streams are texts and lists of tokens. Over them a parse
comes to exactly what the pattern is derived to come to, by recursion on patterns and rules and
without any message: success, failure or fault.

## Main definitions

* `Input V`: a text or a list of tokens
* `Input.stream`, `Input.tape`: the input as a stream, and as an input of derivations

## Main results

* `parse_iff_derives`: what is reported of a parse is derived, and what is derived is reported
-/

namespace Humus.Peg

variable {V : Type}

/-- A text or a list of tokens. -/
inductive Input (V : Type) where
  | text (s : String)
  | items (items : List V)

variable [MatchValue V]

namespace Input

/-- The input as a stream. -/
def stream : Input V → Stream V
  | text s => .ofString s
  | items l => .ofList l

/-- The tokens of the input. -/
def tokens : Input V → List V
  | text s => s.toList.map MatchValue.ofChar
  | items l => l

/-- Where token `i` stands. -/
def position : Input V → Nat → Position
  | text s, i => (s.toList.take i).foldl Position.after .start
  | items _, i => ⟨i, 0, i⟩

/-- The input as derivations see it. -/
def tape (input : Input V) : Tape Nat V :=
  .ofTokens input.tokens input.position

end Input

/-! ## The places of texts and lists -/

/-- The places of a text. -/
def charPlaces (p : Position) : List Char → List (Place V)
  | [] => [.finish p]
  | c :: text => .token p (MatchValue.ofChar c) (.chars text (p.after c)) ::
      charPlaces (p.after c) text

/-- The places of a list of tokens. -/
def valuePlaces (index : Nat) : List V → List (Place V)
  | [] => [.finish ⟨index, 0, index⟩]
  | v :: items => .token ⟨index, 0, index⟩ v (.values items (index + 1)) ::
      valuePlaces (index + 1) items

section Places

variable (p : Position) (text : List Char) (index : Nat) (items : List V)

theorem walks_chars [DecidableEq V] (R : Rulebook V) :
    Walks R (.chars text p) (charPlaces p text) := by
  induction text generalizing p with
  | nil => exact .stop (reads_iff.mpr .chars) rfl
  | cons c text ih => exact .next (reads_iff.mpr .chars) (ih (p.after c))

theorem walks_values [DecidableEq V] (R : Rulebook V) :
    Walks R (.values items index) (valuePlaces index items) := by
  induction items generalizing index with
  | nil => exact .stop (reads_iff.mpr .values) rfl
  | cons v items ih => exact .next (reads_iff.mpr .values) (ih (index + 1))

theorem filterMap_charPlaces :
    (charPlaces p text).filterMap Place.token? = text.map (MatchValue.ofChar (V := V)) := by
  induction text generalizing p with
  | nil => rfl
  | cons c text ih =>
    rw [charPlaces, List.filterMap_cons_some (Place.token?_token ..), ih, List.map_cons]

omit [MatchValue V] in
theorem filterMap_valuePlaces : (valuePlaces index items).filterMap Place.token? = items := by
  induction items generalizing index with
  | nil => rfl
  | cons v items ih =>
    rw [valuePlaces, List.filterMap_cons_some (Place.token?_token ..), ih]

variable {p text index items}

theorem position_of_charPlaces {i : Nat} {x : Place V} (h : (charPlaces p text)[i]? = some x) :
    (text.take i).foldl Position.after p = x.position := by
  induction text generalizing p i with
  | nil =>
    cases i with
    | zero => cases h; rfl
    | succ i => cases h
  | cons c text ih =>
    cases i with
    | zero => cases h; rfl
    | succ i => exact ih h

/-- The places of a text are the heads of what is left of it. -/
theorem exists_of_mem_charPlaces {x : Place V} (h : x ∈ charPlaces p text) :
    ∃ eaten left, text = eaten ++ left ∧ x = charPlace (eaten.foldl Position.after p) left := by
  induction text generalizing p with
  | nil =>
    obtain rfl := List.mem_singleton.mp h
    exact ⟨[], [], rfl, rfl⟩
  | cons c text ih =>
    rcases List.mem_cons.mp h with rfl | h
    · exact ⟨[], c :: text, rfl, rfl⟩
    · obtain ⟨eaten, left, rfl, rfl⟩ := ih h
      exact ⟨c :: eaten, left, rfl, rfl⟩

omit [MatchValue V] in
theorem position_of_valuePlaces {i : Nat} {x : Place V}
    (h : (valuePlaces index items)[i]? = some x) :
    (⟨index + i, 0, index + i⟩ : Position) = x.position := by
  induction items generalizing index i with
  | nil =>
    cases i with
    | zero => cases h; rfl
    | succ i => cases h
  | cons v items ih =>
    cases i with
    | zero => cases h; rfl
    | succ i =>
      have hx := ih h
      rwa [show index + 1 + i = index + (i + 1) by omega] at hx

end Places

variable [DecidableEq V]

/-- The first places of an input and the places behind them. -/
theorem Input.exists_walks (input : Input V) (R : Rulebook V) (chart : Chart V) :
    ∃ σ xs, input.stream.source? chart = some σ ∧ Walks R σ xs ∧
      xs.filterMap Place.token? = input.tokens ∧
      ∀ i x, xs[i]? = some x → input.position i = x.position := by
  cases input with
  | text s =>
    exact ⟨_, _, rfl, walks_chars .start s.toList R, filterMap_charPlaces .start s.toList,
      fun i x h => position_of_charPlaces h⟩
  | items l =>
    refine ⟨_, _, rfl, walks_values 0 l R, filterMap_valuePlaces 0 l, fun i x h => ?_⟩
    have hx := position_of_valuePlaces h
    rwa [Nat.zero_add] at hx

/-! ## Refinement -/

/-- **A parse comes to what is derived.** With any rules and any pattern, a parse of a text or of a
list of tokens that is not limited ends with a success at these positions and with this value, with
a failure at these positions and with these expectations, or with this fault, if and only if the
same is derived by recursion on patterns and rules. -/
theorem parse_iff_derives (input : Input V) (p : Pattern V) (w : World V)
    (r : Report Position V) :
    (∃ fuel out w', parse fuel none p input.stream w = some (out, w') ∧ out.report = r) ↔
      ∃ o, Derives input.tape w.rulebook (.whole p) 0 o ∧ o.report input.position 0 = r := by
  obtain ⟨σ, xs, hs, hwalks, htokens, hposition⟩ :=
    input.exists_walks w.rulebook fun _ => none
  have hcharted : Charted w.rulebook (fun _ => False) (fun _ => none) w.cells := by
    intro id σ h
    cases h
  have hiff := hwalks.parse_report_iff hcharted hs hposition p r
  rw [htokens] at hiff
  exact hiff

end Humus.Peg
