import Humus.Proofs.Peg.Scanning
import Humus.Proofs.Peg.Stalls
import Mathlib.Data.List.Induction
import Mathlib.Data.List.Nodup

/-!
# Places in order

The offset of a cursor counts the tokens before it. A stream keeps to this by itself, whether it is a
text, a list or derived; only the cursors that are made by hand have to be asked for it. Over such
streams a match never leads back: it stops, or is refused, at the place where it was tried or at a
later one, and two refusals that got equally far got to the same place.

## Main definitions

* `Cursor.InOrder w c`, `Stream.InOrder w s`: behind every token stands the next offset
* `Place.InOrder x`, `Source.InOrder σ`: the same of what is written out
* `Place.Ahead x y`: the place `y` is `x`, or a later one

## Main results

* `Charted.source_inOrder_iff`: a stream is in order if its source is
* `Built.inOrder_collected`: so is what walks give
* `Derives.ahead`: a match never leads back
* `Derives.nodup`: a refusal names nothing twice
-/

namespace Humus.Peg

variable {V : Type}

/-! ## Offsets -/

/-- How many tokens come before the first cursor of the stream. A silent stream has none. -/
def Stream.offset? (w : World V) : Stream V → Option Nat
  | .chars _ p => some p.offset
  | .values _ index => some index
  | .fixed c => some c.offset
  | .derived id => w.cells[id]?.map Cell.index
  | .silent => none

/-- How many tokens come before the first place of the source. -/
def Source.offset? : Source V → Option Nat
  | .chars _ p => some p.offset
  | .values _ index => some index
  | .fixed x => some x.offset
  | .derived _ _ _ index => some index
  | .silent => none

mutual

/-- Behind every token that the cursor holds stands the next offset. -/
def Cursor.InOrder (w : World V) : Cursor V → Prop
  | .token p _ rest => rest.InOrder w ∧ ∀ n, rest.offset? w = some n → n = p.offset + 1
  | .finish _ | .stalled .. => True

/-- Behind every token that the stream holds stands the next offset. -/
def Stream.InOrder (w : World V) : Stream V → Prop
  | .fixed c => c.InOrder w
  | .chars .. | .values .. | .derived _ | .silent => True

end

mutual

/-- Behind every token that the place holds stands the next offset. -/
def Place.InOrder : Place V → Prop
  | .token p _ rest => rest.InOrder ∧ ∀ n, rest.offset? = some n → n = p.offset + 1
  | .finish _ | .stalled .. => True

/-- Behind every token that the source holds stands the next offset. -/
def Source.InOrder : Source V → Prop
  | .fixed x => x.InOrder
  | .chars .. | .values .. | .derived .. | .silent => True

end

/-- The place `y` is in order, and it is `x` or a later one. -/
structure Place.Ahead (x y : Place V) : Prop where
  inOrder : y.InOrder
  eq_or_lt : y = x ∨ x.offset < y.offset

theorem Place.Ahead.offset_le {x y : Place V} (h : x.Ahead y) : x.offset ≤ y.offset := by
  rcases h.eq_or_lt with rfl | hlt
  · exact le_rfl
  · exact hlt.le

variable [MatchValue V] [DecidableEq V] {R : Rulebook V} {B : Nat → Prop} {chart : Chart V}
  {w₀ w w' : World V} {s : Stream V} {σ : Source V} {x y : Place V} {ok : Pattern V → Prop}

/-! ## Streams and sources -/

/-- A stream begins at the offset of its source. -/
theorem Charted.offset?_eq (h : Charted R B chart w.cells) (hs : s.source? chart = some σ) :
    s.offset? w = σ.offset? := by
  cases s with
  | chars | values | silent => cases hs; rfl
  | fixed c =>
    obtain ⟨x, hx, rfl⟩ := Option.map_eq_some_iff.mp hs
    exact congrArg some (Cursor.offset_of_place? hx).symm
  | derived id =>
    obtain ⟨cell, hcell, hfits⟩ := h id σ hs
    obtain ⟨β, -, rfl⟩ := hfits.base
    show (w.cells[id]?).map Cell.index = some cell.index
    rw [hcell, Option.map_some]

mutual

theorem Charted.place_inOrder_iff (h : Charted R B chart w.cells) :
    ∀ (c : Cursor V) {x : Place V}, c.place? chart = some x → (c.InOrder w ↔ x.InOrder)
  | .token p v rest, x, hx => by
    obtain ⟨σ, hσ, rfl⟩ := Option.map_eq_some_iff.mp hx
    simp only [Cursor.InOrder, Place.InOrder, Charted.source_inOrder_iff h rest hσ,
      h.offset?_eq hσ]
  | .finish _, x, hx | .stalled _ _, x, hx => by
    cases hx
    simp only [Cursor.InOrder, Place.InOrder]

/-- A stream is in order if its source is. -/
theorem Charted.source_inOrder_iff (h : Charted R B chart w.cells) :
    ∀ (s : Stream V) {σ : Source V}, s.source? chart = some σ → (s.InOrder w ↔ σ.InOrder)
  | .fixed c, σ, hσ => by
    obtain ⟨x, hx, rfl⟩ := Option.map_eq_some_iff.mp hσ
    simp only [Stream.InOrder, Source.InOrder, Charted.place_inOrder_iff h c hx]
  | .chars .., σ, hσ | .values .., σ, hσ | .silent, σ, hσ => by
    cases hσ
    simp only [Stream.InOrder, Source.InOrder]
  | .derived id, σ, hσ => by
    obtain ⟨cell, -, hfits⟩ := h id σ hσ
    obtain ⟨β, -, rfl⟩ := hfits.base
    simp only [Stream.InOrder, Source.InOrder]

end

/-! ## Reading in order -/

/-- What a source reads stands at the offset of the source. -/
theorem Reads.offset?_eq (h : Reads R σ (.ok x)) : σ.offset? = some x.offset := by
  cases σ with
  | derived below skip token index => exact congrArg some h.offset_eq.symm
  | chars text p =>
    cases reads_iff.mp h
    cases text <;> rfl
  | values items index =>
    cases reads_iff.mp h
    cases items <;> rfl
  | fixed z =>
    cases reads_iff.mp h
    rfl
  | silent => cases reads_iff.mp h

/-- What is read of a source in order is in order. -/
theorem Reads.inOrder (h : Reads R σ (.ok x)) (hσ : σ.InOrder) : x.InOrder := by
  cases σ with
  | derived below skip token index =>
    obtain ⟨_, y, o, -, -, -, hz⟩ := h.exists_tried
    cases o with
    | matched z v =>
      cases hz
      split_ifs
      · exact ⟨trivial, fun n hn => (Option.some.inj hn).symm⟩
      · trivial
    | refused r =>
      cases hz
      cases y <;> trivial
    | broken b => cases hz
  | chars text p =>
    cases reads_iff.mp h
    cases text with
    | nil => trivial
    | cons c text => exact ⟨trivial, fun n hn => (Option.some.inj hn).symm.trans (Position.offset_after p c)⟩
  | values items index =>
    cases reads_iff.mp h
    cases items with
    | nil => trivial
    | cons v items => exact ⟨trivial, fun n hn => (Option.some.inj hn).symm⟩
  | fixed z =>
    cases reads_iff.mp h
    exact hσ
  | silent => cases reads_iff.mp h

/-- Behind a token stands the next place. -/
theorem Place.InOrder.next (hx : x.InOrder) (h : (lazyTape R).next x (.ok y)) :
    y.InOrder ∧ y.offset = x.offset + 1 := by
  cases x with
  | token p v rest =>
    have hread : Reads R rest (.ok y) := h
    exact ⟨hread.inOrder hx.1, hx.2 _ hread.offset?_eq⟩
  | finish | stalled => exact h.elim

/-- **A match never leads back.** -/
theorem Derives.ahead {task : Task (Place V) V} {o : Verdict (Place V) V} (hx : x.InOrder)
    (h : Derives (lazyTape R) R task x o) (htask : task.All x.Ahead) : o.All x.Ahead := by
  have hnext : ∀ y z, x.Ahead y → (lazyTape R).next y (.ok z) → x.Ahead z := by
    intro y z hy hz
    obtain ⟨hinOrder, hoffset⟩ := hy.inOrder.next hz
    exact ⟨hinOrder, .inr (by have := hy.offset_le; omega)⟩
  exact h.all hnext htask ⟨hx, .inl rfl⟩

/-- The places of a walk are in order. -/
theorem Walks.inOrder {xs : List (Place V)} (h : Walks R σ xs) (hσ : σ.InOrder) :
    ∀ x ∈ xs, x.InOrder := by
  induction h with
  | stop hx _ =>
    intro y hy
    cases List.mem_singleton.mp hy
    exact hx.inOrder hσ
  | next hx _ ih =>
    have hplace := hx.inOrder hσ
    intro y hy
    rcases List.mem_cons.mp hy with rfl | hy
    · exact hplace
    · exact ih hplace.1 y hy

/-- No place of a walk stands behind the last. -/
theorem Walks.offset_le {xs : List (Place V)} {last : Place V} (h : Walks R σ xs)
    (hσ : σ.InOrder) (hlast : xs.getLast? = some last) : ∀ x ∈ xs, x.offset ≤ last.offset := by
  induction h with
  | stop hx _ =>
    intro y hy
    rw [List.mem_singleton.mp hy]
    exact (congrArg Place.offset (Option.some.inj hlast)).le
  | @next σ p v rest xs hx hrest ih =>
    have hplace := hx.inOrder hσ
    obtain ⟨z, hz, hread⟩ := hrest.exists_head
    have htail := ih hplace.1 (by
      cases xs with
      | nil => cases hrest
      | cons => rwa [List.getLast?_cons_cons] at hlast)
    intro y hy
    rcases List.mem_cons.mp hy with rfl | hy
    · -- the place behind the token is one of the walk
      have hle := htail z (List.mem_of_getElem? hz)
      have hnext := hplace.next (R := R) hread
      omega
    · exact htail y hy

/-! ## What was built -/

/-- A cursor that a walk gives of a stream in order is in order. -/
theorem Built.inOrder_collected (h : Built ok w₀ s w) (hs : s.InOrder w) {fuel : Nat}
    {limit : Option Nat} {cs : List (Cursor V)} {last c : Cursor V}
    (hrun : collect fuel limit s w = some (.ok (cs ++ [last]), w')) (hlast : last.isEnd = true)
    (hc : c ∈ cs ++ [last]) : (Stream.fixed c).InOrder w' := by
  obtain ⟨chart, σ, hstanding⟩ := h.exists_standing
  have hσ := (hstanding.charted.source_inOrder_iff s hstanding.source).mp hs
  obtain ⟨xs, chart', hwalks, hplaces, hev⟩ :=
    collect_walks (hstanding.poised w.answers []) hstanding.source σ.depth.lt_succ_self hrun hlast
  obtain ⟨x, hx, hcx⟩ := exists_mem_of_forall₂ hplaces hc
  exact (hev.charted.place_inOrder_iff c hcx).mpr (hwalks.inOrder hσ x hx)

/-! ## Refusals -/

section Refusals

omit [MatchValue V]

theorem Failure.mem_union {ours theirs : List (Expected V)} {e : Expected V} :
    e ∈ Failure.union ours theirs ↔ e ∈ ours ∨ e ∈ theirs := by
  unfold Failure.union
  induction theirs generalizing ours with
  | nil => simp
  | cons a theirs ih =>
    rw [List.foldl_cons, ih, List.mem_cons]
    split_ifs with hmem
    · constructor
      · rintro (h | h)
        · exact .inl h
        · exact .inr (.inr h)
      · rintro (h | rfl | h)
        · exact .inl h
        · exact .inl hmem
        · exact .inr h
    · rw [List.mem_append, List.mem_singleton, or_assoc]

theorem Failure.union_concat (ours theirs : List (Expected V)) (e : Expected V) :
    Failure.union ours (theirs ++ [e]) =
      if e ∈ Failure.union ours theirs then Failure.union ours theirs
      else Failure.union ours theirs ++ [e] := by
  unfold Failure.union
  rw [List.foldl_append, List.foldl_cons, List.foldl_nil]

theorem Failure.nodup_union {ours : List (Expected V)} (h : ours.Nodup)
    (theirs : List (Expected V)) : (Failure.union ours theirs).Nodup := by
  induction theirs using List.reverseRecOn with
  | nil => exact h
  | append_singleton theirs e ih =>
    rw [Failure.union_concat]
    split_ifs with hmem
    · exact ih
    · exact List.nodup_append.mpr ⟨ih, List.nodup_singleton e, by
        rintro a ha b hb rfl
        exact hmem (List.mem_singleton.mp hb ▸ ha)⟩

variable {C : Type} {T : Tape C V}

/-- A refusal names nothing twice. -/
def Verdict.Nodup : Verdict C V → Prop
  | .refused r => r.expected.Nodup
  | _ => True

/-- What is known of the alternatives before names nothing twice. -/
def Task.Nodup : Task C V → Prop
  | .alternatives _ (some r) => r.expected.Nodup
  | _ => True

theorem Tape.nodup_merge {r r' : Refusal C V} (h : r.expected.Nodup) (h' : r'.expected.Nodup) :
    (T.merge r r').expected.Nodup := by
  unfold Tape.merge
  split_ifs
  · exact h'
  · exact h
  · exact Failure.nodup_union h _

end Refusals

variable {C : Type} {T : Tape C V}

omit [DecidableEq V] in
theorem Verdict.Nodup.ending {o : Verdict C V} (h : o.Nodup) (x : C) (needsOne : Bool)
    (values : List V) : (o.ending x needsOne values).Nodup := by
  cases o with
  | matched | broken => trivial
  | refused r =>
    simp only [Verdict.ending]
    split_ifs
    · exact h
    · trivial

omit [MatchValue V] [DecidableEq V] in
theorem Verdict.Nodup.reduce {o : Verdict C V} (h : o.Nodup) (name : String)
    (transform : Option (Transform V)) (x : C) : (T.reduce name transform x o).Nodup := by
  cases o with
  | matched y v =>
    simp only [Tape.reduce]
    split
    · trivial
    · split <;> trivial
  | refused r =>
    simp only [Tape.reduce, Tape.relabel]
    split_ifs
    · exact List.nodup_singleton _
    · exact h
  | broken b => trivial

/-- **A refusal names nothing twice.** -/
theorem Derives.nodup {task : Task C V} {x : C} {o : Verdict C V} (h : Derives T R task x o)
    (htask : task.Nodup) : o.Nodup := by
  -- Lists of expectations begin with one entry or none, and grow by the merges of a choice only.
  induction h with
  | terminal _ ih | predicate _ ih | any _ ih | sequence _ ih | choice _ ih | zeroOrMore _ ih
  | oneOrMore _ ih | tally _ ih | itemsStop _ _ ih | alternativesStop _ _ ih => exact ih trivial
  | @token _ _ _ _ r => cases r <;> trivial
  | tokenRefused | finishRefused => exact List.nodup_singleton _
  | finish | itemsDone | ruleUnknown | silent => trivial
  | itemsNext _ _ _ ih' | againNext _ _ _ _ ih' => exact ih' trivial
  | @alternativesDone failed x =>
    cases failed with
    | none => exact List.nodup_nil
    | some f => exact htask
  | @alternativesNext p ps failed x r o _ _ ih ih' =>
    have hr : r.expected.Nodup := ih trivial
    refine ih' ?_
    cases failed with
    | none => exact hr
    | some f => exact Tape.nodup_merge htask hr
  | againStop _ _ ih => exact (ih trivial).ending _ _ _
  | @optional p x o _ ih => cases o <;> trivial
  | @not p x o _ ih =>
    cases o with
    | matched => exact List.nodup_nil
    | refused | broken => trivial
  | rule _ _ ih => exact (ih trivial).reduce _ _ _

end Humus.Peg
