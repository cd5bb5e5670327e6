import Humus.Proofs.Peg.Correspondence
import Mathlib.Order.FixedPoints

/-!
# Sources

A source is a stream written out: what it is made of, down to the text or the list at the bottom
of the tower, and nothing of what has been computed. A place is a cursor written out in the same
way. What a source reads is derived, as matches are, so that a derived source says what an
unremembered stream would compute.

A derived source is read by matches over the source below it, whose places are read in turn. The
recursion goes through `Derives`, so reading is the least relation closed under one step of it.

## Main definitions

* `Place V`, `Source V`: cursors and streams, written out
* `Step R N σ r`: one step of reading, where `N` says what is read below
* `Reads R σ r`: with the rules `R`, the source `σ` reads the place `r`, or breaks off
* `lazyTape R`: the places of all sources, as an input

## Main results

* `reads_iff`, `Reads.induct`: reading is the least relation closed under a step
* `Reads.unique`: a source reads one place
* `Reads.exists_tried`: what a derived source reads comes from one try of its token
* `Reads.depth_le`: what is read stands on no more layers than its source
-/

namespace Humus.Peg

/-- What is known of the failure that ended a derived stream early. -/
structure Stall (V : Type) where
  position : Position
  furthest : Position
  /-- The token that was refused, `none` at an end. -/
  found : Option V
  expected : List (Expected V)

mutual

/-- A cursor, written out. -/
inductive Place (V : Type) where
  | token (position : Position) (value : V) (rest : Source V)
  | finish (position : Position)
  | stalled (position : Position) (stall : Stall V)

/-- A stream, written out. -/
inductive Source (V : Type) where
  | chars (text : List Char) (position : Position)
  | values (items : List V) (index : Nat)
  | fixed (place : Place V)
  /-- Token `index` of the matches of `token` over `below`. -/
  | derived (below : Source V) (skip : Option (Pattern V)) (token : Pattern V) (index : Nat)
  | silent

end

variable {C V : Type}

namespace Place

/-- Where the place is. -/
def position : Place V → Position
  | .token p _ _ | .finish p | .stalled p _ => p

/-- How many tokens come before the place. -/
def offset (x : Place V) : Nat :=
  x.position.offset

/-- The token at the place, `none` at the end. -/
def token? : Place V → Option V
  | .token _ value _ => some value
  | _ => none

@[simp] theorem token?_token (p : Position) (value : V) (rest : Source V) :
    (Place.token p value rest).token? = some value := rfl

/-- The position of token `index` of a derived source that is found at the place. -/
def positionAt (x : Place V) (index : Nat) : Position :=
  ⟨index, x.position.row, x.position.col⟩

/-- The end of a derived source whose token `index` is refused at the place. -/
def endAt (x : Place V) (index : Nat) (r : Refusal (Place V) V) : Place V :=
  match x with
  | .stalled _ stall => .stalled (x.positionAt index) stall
  | .finish _ => .finish (x.positionAt index)
  | .token .. =>
    .stalled (x.positionAt index)
      ⟨x.position, r.furthest.position, r.furthest.token?, r.expected⟩

/-- No token is at the end of a source. -/
@[simp] theorem token?_endAt (x : Place V) (index : Nat) (r : Refusal (Place V) V) :
    (x.endAt index r).token? = none := by
  cases x <;> rfl

end Place

mutual

/-- How many layers of derived sources a place stands on. -/
def Place.depth : Place V → Nat
  | .token _ _ rest => rest.depth
  | .finish _ | .stalled .. => 0

/-- How many layers of derived sources there are. -/
def Source.depth : Source V → Nat
  | .derived below .. => below.depth + 1
  | .fixed x => x.depth
  | .chars .. | .values .. | .silent => 0

end

/-- The place at the head of a text. -/
def charPlace [MatchValue V] (position : Position) : List Char → Place V
  | [] => .finish position
  | c :: text => .token position (MatchValue.ofChar c) (.chars text (position.after c))

/-- The place at the head of a list of tokens. -/
def valuePlace (index : Nat) : List V → Place V
  | [] => .finish ⟨index, 0, index⟩
  | value :: items => .token ⟨index, 0, index⟩ value (.values items (index + 1))

/-- The places as an input, where `N` says what the source behind a token reads. -/
def Tape.over (N : Source V → Except Break (Place V) → Prop) : Tape (Place V) V where
  token? := Place.token?
  position := Place.position
  next
    | .token _ _ rest, r => N rest r
    | _, _ => False

/-- Where a skip pattern that was tried at `x` leads to. -/
def Verdict.skipped (x : C) : Verdict C V → Except Break C
  | .matched y _ => .ok y
  | .refused _ => .ok x
  | .broken b => .error b

/-- What a derived source reads that tried its token pattern at `x`. A match that consumed nothing
ends the source. -/
def readFrom (skip : Option (Pattern V)) (token : Pattern V) (index : Nat) (x : Place V) :
    Verdict (Place V) V → Except Break (Place V)
  | .matched y v =>
    .ok (if x.offset < y.offset then
      .token (x.positionAt index) v (.derived (.fixed y) skip token (index + 1))
    else .finish (x.positionAt index))
  | .refused r => .ok (x.endAt index r)
  | .broken b => .error b

variable [MatchValue V] [DecidableEq V]

/-- Where the token of a derived source is looked for, behind what its skip pattern matches. -/
inductive SkipsTo (T : Tape C V) (R : Rulebook V) : Option (Pattern V) → C → Except Break C → Prop
    where
  | none {x} : SkipsTo T R none x (.ok x)
  | some {p x o} : Derives T R (.whole p) x o → SkipsTo T R (some p) x (o.skipped x)

/-- One step of reading, where `N` says what is read below and behind tokens. -/
inductive Step (R : Rulebook V) (N : Source V → Except Break (Place V) → Prop) :
    Source V → Except Break (Place V) → Prop where
  | chars {text p} : Step R N (.chars text p) (.ok (charPlace p text))
  | values {items index} : Step R N (.values items index) (.ok (valuePlace index items))
  | fixed {x} : Step R N (.fixed x) (.ok x)
  | silent : Step R N .silent (.error .silence)
  | brokenBelow {below skip token index b} :
      N below (.error b) → Step R N (.derived below skip token index) (.error b)
  | brokenSkip {below skip token index x b} :
      N below (.ok x) → SkipsTo (Tape.over N) R skip x (.error b) →
      Step R N (.derived below skip token index) (.error b)
  | read {below skip token index x y o} :
      N below (.ok x) → SkipsTo (Tape.over N) R skip x (.ok y) →
      Derives (Tape.over N) R (.whole token) y o →
      Step R N (.derived below skip token index) (readFrom skip token index y o)

/-! ## Reading -/

variable {R : Rulebook V}

/-- What holds of a place and of the places behind it holds of the place that is skipped to. -/
theorem SkipsTo.all {T : Tape C V} {I : C → Prop} (hI : ∀ x y, I x → T.next x (.ok y) → I y)
    {skip : Option (Pattern V)} {x y : C} (h : SkipsTo T R skip x (.ok y)) (hx : I x) : I y := by
  generalize he : Except.ok y = r at h
  cases h with
  | none => cases he; exact hx
  | @some p _ o ho =>
    have hall := ho.all hI trivial hx
    cases o with
    | matched z v => cases he; exact hall
    | refused r => cases he; exact hx
    | broken b => cases he

section Over

variable {N N' : Source V → Except Break (Place V) → Prop}

omit [MatchValue V] [DecidableEq V] in
theorem Tape.over_mono (h : ∀ σ r, N σ r → N' σ r) (x : Place V) (r : Except Break (Place V))
    (hr : (Tape.over N).next x r) : (Tape.over N').next x r := by
  cases x with
  | token p v rest => exact h rest r hr
  | finish | stalled => exact hr

theorem Derives.over_mono (h : ∀ σ r, N σ r → N' σ r) {task : Task (Place V) V} {x : Place V}
    {o : Verdict (Place V) V} (ho : Derives (Tape.over N) R task x o) :
    Derives (Tape.over N') R task x o := by
  have htoken : ∀ x, (Tape.over N').token? x = (Tape.over N).token? x := fun _ => rfl
  have hposition : ∀ x, (Tape.over N').position x = (Tape.over N).position x := fun _ => rfl
  exact ho.mono htoken hposition (Tape.over_mono h)

theorem SkipsTo.over_mono (h : ∀ σ r, N σ r → N' σ r) {skip : Option (Pattern V)} {x : Place V}
    {r : Except Break (Place V)} (hr : SkipsTo (Tape.over N) R skip x r) :
    SkipsTo (Tape.over N') R skip x r := by
  cases hr with
  | none => exact .none
  | some ho => exact .some (ho.over_mono h)

theorem Step.mono (h : ∀ σ r, N σ r → N' σ r) {σ : Source V} {r : Except Break (Place V)}
    (hr : Step R N σ r) : Step R N' σ r := by
  cases hr with
  | chars => exact .chars
  | values => exact .values
  | fixed => exact .fixed
  | silent => exact .silent
  | brokenBelow hb => exact .brokenBelow (h _ _ hb)
  | brokenSkip hx hs => exact .brokenSkip (h _ _ hx) (hs.over_mono h)
  | read hx hs ho => exact .read (h _ _ hx) (hs.over_mono h) (ho.over_mono h)

variable (h : ∀ σ r r', N σ r → N' σ r' → r' = r)
include h

omit [MatchValue V] [DecidableEq V] in
theorem Tape.over_agree {x : Place V} {r r' : Except Break (Place V)}
    (hr : (Tape.over N).next x r) (hr' : (Tape.over N').next x r') : r' = r := by
  cases x with
  | token p v rest => exact h rest r r' hr hr'
  | finish | stalled => exact hr.elim

theorem Derives.over_agree {task : Task (Place V) V} {x : Place V} {o o' : Verdict (Place V) V}
    (ho : Derives (Tape.over N) R task x o) (ho' : Derives (Tape.over N') R task x o') :
    o' = o := by
  have htoken : ∀ x, (Tape.over N').token? x = (Tape.over N).token? x := fun _ => rfl
  have hposition : ∀ x, (Tape.over N').position x = (Tape.over N).position x := fun _ => rfl
  exact ho.agree htoken hposition (fun _ _ _ => Tape.over_agree h) o' ho'

theorem SkipsTo.over_agree {skip : Option (Pattern V)} {x : Place V}
    {r r' : Except Break (Place V)} (hr : SkipsTo (Tape.over N) R skip x r)
    (hr' : SkipsTo (Tape.over N') R skip x r') : r' = r := by
  cases hr with
  | none => cases hr'; rfl
  | some ho =>
    cases hr' with
    | some ho' => rw [ho.over_agree h ho']

/-- Where `N` and `N'` read the same, a step of reading comes to the same. -/
theorem Step.agree {σ : Source V} {r r' : Except Break (Place V)} (hr : Step R N σ r)
    (hr' : Step R N' σ r') : r' = r := by
  cases hr with
  | chars | values | fixed | silent => cases hr'; rfl
  | brokenBelow hb =>
    cases hr' with
    | brokenBelow hb' => exact h _ _ _ hb hb'
    | brokenSkip hx' _ | read hx' _ _ => cases h _ _ _ hb hx'
  | brokenSkip hx hs =>
    cases hr' with
    | brokenBelow hb' => cases h _ _ _ hx hb'
    | brokenSkip hx' hs' =>
      cases h _ _ _ hx hx'
      cases hs.over_agree h hs'
      rfl
    | read hx' hs' _ =>
      cases h _ _ _ hx hx'
      cases hs.over_agree h hs'
  | read hx hs ho =>
    cases hr' with
    | brokenBelow hb' => cases h _ _ _ hx hb'
    | brokenSkip hx' hs' =>
      cases h _ _ _ hx hx'
      cases hs.over_agree h hs'
    | read hx' hs' ho' =>
      cases h _ _ _ hx hx'
      cases hs.over_agree h hs'
      rw [ho.over_agree h ho']

end Over

/-- A step of reading, as a monotone map. -/
def stepHom (R : Rulebook V) :
    (Source V → Except Break (Place V) → Prop) →o (Source V → Except Break (Place V) → Prop) where
  toFun := Step R
  monotone' _ _ h _ _ := Step.mono h

/-- With the rules `R`, the source reads a place, or breaks off: the least relation closed under a
step. -/
def Reads (R : Rulebook V) : Source V → Except Break (Place V) → Prop :=
  (stepHom R).lfp

/-- The places of all sources, as an input. -/
def lazyTape (R : Rulebook V) : Tape (Place V) V :=
  Tape.over (Reads R)

theorem reads_iff {σ : Source V} {r : Except Break (Place V)} :
    Reads R σ r ↔ Step R (Reads R) σ r := by
  have h : Step R (Reads R) = Reads R := (stepHom R).map_lfp
  rw [h]

theorem Reads.induct {P : Source V → Except Break (Place V) → Prop}
    (h : ∀ σ r, Step R (fun σ r => Reads R σ r ∧ P σ r) σ r → P σ r) {σ : Source V}
    {r : Except Break (Place V)} (hr : Reads R σ r) : P σ r := by
  refine ((stepHom R).lfp_le (a := fun σ r => Reads R σ r ∧ P σ r) ?_ σ r hr).2
  intro σ r hstep
  exact ⟨reads_iff.mpr (hstep.mono fun _ _ h => h.1), h σ r hstep⟩

/-! ## One place is read -/

/-- **A source reads one place.** -/
theorem Reads.unique {σ : Source V} {r r' : Except Break (Place V)} (h : Reads R σ r)
    (h' : Reads R σ r') : r' = r := by
  refine Reads.induct (P := fun σ r => ∀ r', Reads R σ r' → r' = r) ?_ h r' h'
  intro σ r hr r' hr'
  exact hr.agree (fun _ _ _ h₁ h₂ => h₁.2 _ h₂) (reads_iff.mp hr')

/-- Over the places of all sources a match comes to one verdict. -/
theorem Derives.unique {task : Task (Place V) V} {x : Place V} {o o' : Verdict (Place V) V}
    (h : Derives (lazyTape R) R task x o) (h' : Derives (lazyTape R) R task x o') : o' = o := by
  have hunique : ∀ σ r r', Reads R σ r → Reads R σ r' → r' = r := fun _ _ _ => Reads.unique
  exact Derives.over_agree hunique h h'

/-! ## What a derived source reads -/

section Derived

variable {below : Source V} {skip : Option (Pattern V)} {token : Pattern V} {index : Nat}
  {x z : Place V} {o : Verdict (Place V) V}

/-- What a derived source reads comes from one try of its token. -/
theorem Reads.exists_tried (h : Reads R (.derived below skip token index) (.ok z)) :
    ∃ x y o, Reads R below (.ok x) ∧ SkipsTo (lazyTape R) R skip x (.ok y) ∧
      Derives (lazyTape R) R (.whole token) y o ∧ readFrom skip token index y o = .ok z := by
  rw [reads_iff] at h
  generalize hr : Except.ok z = r at h
  cases h with
  | brokenBelow | brokenSkip => cases hr
  | read hx hs ho => exact ⟨_, _, _, hx, hs, ho, rfl⟩

omit [MatchValue V] [DecidableEq V] in
theorem offset_of_readFrom (h : readFrom skip token index x o = .ok z) : z.offset = index := by
  cases o with
  | matched y v =>
    cases h
    split_ifs <;> rfl
  | refused r =>
    cases h
    cases x <;> rfl
  | broken b => cases h

/-- A derived source reads its token at the offset that counts the tokens before. -/
theorem Reads.offset_eq (h : Reads R (.derived below skip token index) (.ok z)) :
    z.offset = index := by
  obtain ⟨_, _, _, -, -, -, hz⟩ := h.exists_tried
  exact offset_of_readFrom hz

/-- Behind a token of a derived source the same patterns are tried. -/
theorem Reads.rest_of_derived {p : Position} {v : V} {rest : Source V}
    (h : Reads R (.derived below skip token index) (.ok (.token p v rest))) :
    ∃ y, rest = .derived (.fixed y) skip token (index + 1) := by
  obtain ⟨_, x, o, -, -, -, hz⟩ := h.exists_tried
  cases o with
  | matched y u =>
    simp only [readFrom] at hz
    split_ifs at hz
    · cases hz
      exact ⟨y, rfl⟩
    · cases hz
  | refused r => cases x <;> cases hz
  | broken b => cases hz

end Derived

/-! ## Layers -/

omit [DecidableEq V] in
@[simp] theorem depth_charPlace (p : Position) (text : List Char) :
    (charPlace p text : Place V).depth = 0 := by
  cases text <;> simp [charPlace, Place.depth, Source.depth]

omit [MatchValue V] [DecidableEq V] in
@[simp] theorem depth_valuePlace (index : Nat) (items : List V) :
    (valuePlace index items).depth = 0 := by
  cases items <;> simp [valuePlace, Place.depth, Source.depth]

omit [MatchValue V] [DecidableEq V] in
@[simp] theorem depth_endAt (x : Place V) (index : Nat) (r : Refusal (Place V) V) :
    (x.endAt index r).depth = 0 := by
  cases x <;> simp [Place.endAt, Place.depth]

/-- **What is read stands on no more layers than its source.** -/
theorem Reads.depth_le {σ : Source V} {x : Place V} (h : Reads R σ (.ok x)) :
    x.depth ≤ σ.depth := by
  refine Reads.induct (P := fun σ r => ∀ x, r = .ok x → x.depth ≤ σ.depth) ?_ h x rfl
  intro σ r hr
  -- A match never leaves the places of a depth, nor those below it.
  have hnext : ∀ d x y, Place.depth x ≤ d →
      (Tape.over fun σ r => Reads R σ r ∧ ∀ x, r = .ok x → x.depth ≤ σ.depth).next x (.ok y) →
      Place.depth y ≤ d := by
    intro d x y hx h
    cases x with
    | token p v rest => exact (h.2 y rfl).trans hx
    | finish | stalled => exact h.elim
  cases hr with
  | chars => rintro x ⟨⟩; simp
  | values => rintro x ⟨⟩; simp
  | fixed => rintro x ⟨⟩; simp [Source.depth]
  | silent | brokenBelow | brokenSkip => rintro x ⟨⟩
  | @read below skip token index x y o hx hs ho =>
    have hx := hx.2 x rfl
    have hy : y.depth ≤ below.depth := hs.all (hnext below.depth) hx
    have ho := ho.all (hnext below.depth) trivial hy
    cases o with
    | matched z v =>
      rintro w ⟨⟩
      split_ifs
      · simp only [Place.depth, Source.depth]
        exact Nat.add_le_add_right ho 1
      · simp [Place.depth]
    | refused r => rintro w ⟨⟩; simp
    | broken b => rintro w ⟨⟩

theorem depth_le_of_next {x y : Place V} (h : (lazyTape R).next x (.ok y)) :
    y.depth ≤ x.depth := by
  cases x with
  | token p v rest => exact Reads.depth_le h
  | finish | stalled => exact h.elim

/-- A match stays on its layer. -/
theorem Derives.depth_le {p : Pattern V} {x : Place V} {o : Verdict (Place V) V}
    (h : Derives (lazyTape R) R (.whole p) x o) {d : Nat} (hx : x.depth ≤ d) :
    o.All fun y => y.depth ≤ d :=
  h.all (fun _ _ hx hy => (depth_le_of_next hy).trans hx) trivial hx

theorem SkipsTo.depth_le {skip : Option (Pattern V)} {x y : Place V}
    (h : SkipsTo (lazyTape R) R skip x (.ok y)) : y.depth ≤ x.depth :=
  h.all (I := fun z => z.depth ≤ x.depth) (fun _ _ hx hy => (depth_le_of_next hy).trans hx) le_rfl

end Humus.Peg
