import Humus.Proofs.Peg.Answering
import Humus.Proofs.Peg.Totality
import Mathlib.Data.List.Forall2

/-!
# Stalls

A derived source that comes to text it cannot read stalls there. A source that is derived over it
looks for its tokens at the places of the source below. Where it has come to the stall, its token
pattern can only be refused or match without consuming anything.

If the pattern is refused, the upper source ends in the same stall, so that whoever reads it is told
of the text that could not be read. If the pattern matches, the upper source comes to a clean end,
and the stall is lost. In a tower whose token patterns match nothing but at a clean end, no stall is
lost at any height.

## Main definitions

* `Tries R below skip token index i x`: token `i` of a derived source is tried at the place `x`
* `Pattern.Consumes R p σ`: the pattern consumes whatever it matches, except at a clean end
* `Source.Above R σ τ`: the source `τ` stands on `σ`, by layers that consume what they match
* `CollectsTo w s c`: the cursors of the stream `s` were collected up to `c`

## Main results

* `Walks.getLast?_of_mem`: only the last place of a walk is an end
* `Source.Above.unfinished`: over a source without a clean end there is no clean end
* `stall_carried_upward`: what becomes of a stall, in the layer above it and in a tower
-/

namespace Humus.Peg

open Dispatch (Terminates)

variable {V : Type}

/-! ## Ends and stalls -/

/-- The stall that ended a derived source early. -/
def Place.stall? : Place V → Option (Stall V)
  | .stalled _ stall => some stall
  | _ => none

theorem Cursor.stall?_of_place? {chart : Chart V} {c : Cursor V} {x : Place V}
    (h : c.place? chart = some x) : x.stall? = c.stall?.map Failure.stall := by
  cases c with
  | token p v rest =>
    obtain ⟨σ, -, rfl⟩ := Option.map_eq_some_iff.mp h
    rfl
  | finish | stalled => cases h; rfl

theorem Place.token?_of_stall? {x : Place V} {stall : Stall V} (h : x.stall? = some stall) :
    x.token? = none := by
  cases x with
  | stalled => rfl
  | token | finish => cases h

/-- A place that is no stall is an end only if the input ends there. -/
theorem Place.exists_finish {x : Place V} (hend : x.token? = none) (hstall : x.stall? = none) :
    ∃ p, x = .finish p := by
  cases x with
  | token => cases hend
  | finish p => exact ⟨p, rfl⟩
  | stalled => cases hstall

/-- Every place that was collected has a cursor. -/
theorem exists_getElem?_cursor {chart : Chart V} {cs : List (Cursor V)} {xs : List (Place V)}
    (h : List.Forall₂ (fun c x => Cursor.place? chart c = some x) cs xs) {i : Nat} {x : Place V}
    (hx : xs[i]? = some x) : ∃ c, cs[i]? = some c ∧ c.place? chart = some x := by
  induction h generalizing i with
  | nil => cases hx
  | @cons c y cs ys hy _ ih =>
    cases i with
    | zero => cases hx; exact ⟨c, rfl, hy⟩
    | succ i => exact ih hx

/-- The last place that was collected has the last cursor. -/
theorem exists_concat_of_forall₂ {α β : Type} {P : α → β → Prop} {as : List α} {bs : List β} {b : β}
    (h : List.Forall₂ P as (bs ++ [b])) :
    ∃ as' a, as = as' ++ [a] ∧ as'.length = bs.length ∧ P a b := by
  have hlast := List.forall₂_drop_append as bs [b] h
  have hlength := (List.forall₂_take_append as bs [b] h).length_eq
  obtain ⟨a, hdrop⟩ := List.length_eq_one_iff.mp hlast.length_eq
  rw [hdrop] at hlast
  refine ⟨as.take bs.length, a, ?_, hlength, (List.forall₂_cons.mp hlast).1⟩
  rw [← hdrop, List.take_append_drop]

variable [MatchValue V] [DecidableEq V]

section Walks

variable {R : Rulebook V} {σ : Source V} {xs : List (Place V)} {x y : Place V}

/-- **Only the last place of a walk is an end.** -/
theorem Walks.getLast?_of_mem (h : Walks R σ xs) (hx : x ∈ xs) (hend : x.token? = none) :
    xs.getLast? = some x := by
  induction h with
  | stop _ _ =>
    rw [List.mem_singleton.mp hx]
    rfl
  | @next σ p v rest xs _ hxs ih =>
    rcases List.mem_cons.mp hx with rfl | hx
    · cases hend
    · rw [List.getLast?_cons, ih hx]
      rfl

/-- The place behind a place of a walk is a place of the walk. -/
theorem Walks.mem_of_next (h : Walks R σ xs) (hx : x ∈ xs) (hy : (lazyTape R).next x (.ok y)) :
    y ∈ xs := by
  obtain ⟨i, hi⟩ := List.getElem?_of_mem hx
  cases x with
  | token p v rest =>
    obtain ⟨z, hz, hnext⟩ := h.exists_next hi rfl
    cases Reads.unique hnext hy
    exact List.mem_of_getElem? hz
  | finish | stalled => exact hy.elim

/-- A match from a place of a walk stops, or is refused, at a place of the walk. -/
theorem Walks.all_mem (h : Walks R σ xs) (hx : x ∈ xs) {p : Pattern V} {o : Verdict (Place V) V}
    (ho : Derives (lazyTape R) R (.whole p) x o) : o.All (· ∈ xs) :=
  ho.all (fun _ _ => h.mem_of_next) trivial hx

/-- The places of a source are those of its walk. -/
theorem Walks.mem_iff_behind (h : Walks R σ xs) : x ∈ xs ↔ Behind R σ x := by
  constructor
  · intro hx
    induction h with
    | stop hread _ =>
      rw [List.mem_singleton.mp hx]
      exact .first hread
    | next hread _ ih =>
      rcases List.mem_cons.mp hx with rfl | hx
      · exact .first hread
      · exact (Behind.first hread).of_rest (ih hx)
  · intro hx
    induction hx with
    | first hread =>
      obtain ⟨y, hy, hread'⟩ := h.exists_head
      cases hread.unique hread'
      exact List.mem_of_getElem? hy
    | next _ hnext ih => exact h.mem_of_next ih hnext

end Walks

/-! ## Where the tokens of a derived source are tried -/

/-- Token `i` of a derived source is tried at a place of the source below: its first token has the
number `index`, and it is tried behind what is skipped from the first place on. The next one is
tried behind what is skipped behind the token before. -/
inductive Tries (R : Rulebook V) (below : Source V) (skip : Option (Pattern V)) (token : Pattern V)
    (index : Nat) : Nat → Place V → Prop where
  | first {x y} : Reads R below (.ok x) → SkipsTo (lazyTape R) R skip x (.ok y) →
      Tries R below skip token index index y
  | next {i x y z v} : Tries R below skip token index i x →
      Derives (lazyTape R) R (.whole token) x (.matched y v) → x.offset < y.offset →
      SkipsTo (lazyTape R) R skip y (.ok z) → Tries R below skip token index (i + 1) z

section Derived

variable {R : Rulebook V} {below : Source V} {skip : Option (Pattern V)} {token : Pattern V}
  {index i : Nat} {x y z : Place V} {o : Verdict (Place V) V}

/-- Tokens are tried at places of the source below. -/
theorem Tries.behind (h : Tries R below skip token index i x) : Behind R below x := by
  induction h with
  | first hx hs => exact (Behind.first hx).skipsTo hs
  | next _ ho _ hs ih =>
    have hstop := ih.derives ho
    exact Behind.skipsTo hstop hs

/-- **Every place of a derived source comes from a try** of one of its tokens. -/
theorem Behind.exists_tries (h : Behind R (.derived below skip token index) z) :
    ∃ i x o, Tries R below skip token index i x ∧ Derives (lazyTape R) R (.whole token) x o ∧
      readFrom skip token i x o = .ok z := by
  induction h with
  | first hread =>
    obtain ⟨x, y, o, hx, hs, ho, hz⟩ := hread.exists_tried
    exact ⟨index, y, o, .first hx hs, ho, hz⟩
  | next _ hnext ih =>
    obtain ⟨i, x, o, htries, ho, hz⟩ := ih
    -- Something comes behind the place, so that it is a token: the try matched and got on.
    cases o with
    | matched y v =>
      cases hz
      split_ifs at hnext with hlt
      · obtain ⟨y', x', o', hy', hs', ho', hz'⟩ := Reads.exists_tried hnext
        cases hy'.unique (reads_iff.mpr .fixed)
        exact ⟨i + 1, x', o', .next htries ho hlt hs', ho', hz'⟩
      · exact hnext.elim
    | refused r =>
      cases hz
      cases x <;> exact hnext.elim
    | broken b => cases hz

/-- The tokens before the one that is tried are the first places of every walk over the source. -/
theorem Tries.exists_before (h : Tries R below skip token index i y) :
    ∃ below' x before, Reads R below' (.ok x) ∧ SkipsTo (lazyTape R) R skip x (.ok y) ∧
      index + before.length = i ∧ ∀ ys, Walks R (.derived below' skip token i) ys →
        Walks R (.derived below skip token index) (before ++ ys) := by
  induction h with
  | first hx hs => exact ⟨below, _, [], hx, hs, rfl, fun ys hys => hys⟩
  | @next i x y z v _ ho hlt hs ih =>
    obtain ⟨below', x', before, hx', hs', hlength, hwalks⟩ := ih
    -- the token that ends at `y` is one place more
    have hread : Reads R (.derived below' skip token i) (readFrom skip token i x (.matched y v)) :=
      reads_iff.mpr (.read hx' hs' ho)
    rw [readFrom, if_pos hlt] at hread
    set z' : Place V := .token (x.positionAt i) v (.derived (.fixed y) skip token (i + 1))
    refine ⟨.fixed y, y, before ++ [z'], reads_iff.mpr .fixed, hs, ?_, ?_⟩
    · rw [List.length_append, List.length_singleton]
      omega
    · intro ys hys
      rw [List.append_assoc]
      apply hwalks
      exact .next hread hys

/-- A derived source ends where a try comes to an end. -/
theorem Tries.exists_walks (h : Tries R below skip token index i y)
    (ho : Derives (lazyTape R) R (.whole token) y o) (hz : readFrom skip token i y o = .ok z)
    (hend : z.token? = none) :
    ∃ before, index + before.length = i ∧
      Walks R (.derived below skip token index) (before ++ [z]) := by
  obtain ⟨below', x, before, hx, hs, hlength, hwalks⟩ := h.exists_before
  have hread : Reads R (.derived below' skip token i) (.ok z) := hz ▸ reads_iff.mpr (.read hx hs ho)
  exact ⟨before, hlength, hwalks _ (.stop hread hend)⟩

/-- No match gets away from a stall. -/
theorem Derives.eq_of_stalled {p : Pattern V} {q : Position} {stall : Stall V} {v : V}
    (h : Derives (lazyTape R) R (.whole p) (.stalled q stall) (.matched y v)) :
    y = .stalled q stall := by
  have hnext : ∀ x y : Place V, x = .stalled q stall → (lazyTape R).next x (.ok y) →
      y = .stalled q stall := by
    rintro x y rfl hy
    exact hy.elim
  exact h.all hnext trivial rfl

/-- A source that has come to a stall of the source below comes to an end there. It is the stall if
the token is refused, and only then. -/
theorem exists_readFrom_stalled {q : Position} {stall : Stall V}
    (ho : Derives (lazyTape R) R (.whole token) (.stalled q stall) o)
    (hbroken : ∀ b, o ≠ .broken b) :
    ∃ z, readFrom skip token i (.stalled q stall) o = .ok z ∧
      z.position = (Place.stalled q stall).positionAt i ∧ z.token? = none ∧
      (z.stall? = some stall ↔ ∃ r, o = .refused r) := by
  cases o with
  | matched y v =>
    -- nothing is consumed at a stall, so that the stream ends
    obtain rfl := ho.eq_of_stalled
    refine ⟨.finish _, ?_, rfl, rfl, ?_⟩
    · rw [readFrom, if_neg (lt_irrefl _)]
      rfl
    · constructor
      · rintro ⟨⟩
      · rintro ⟨r, ⟨⟩⟩
  | refused r => exact ⟨.stalled _ stall, rfl, rfl, rfl, iff_of_true rfl ⟨r, rfl⟩⟩
  | broken b => exact absurd rfl (hbroken b)

end Derived

/-! ## Towers -/

/-- Whatever the pattern matches at a place of the source takes up a token, except at a clean
end. -/
def Pattern.Consumes (R : Rulebook V) (p : Pattern V) (σ : Source V) : Prop :=
  ∀ x y v, Behind R σ x → Derives (lazyTape R) R (.whole p) x (.matched y v) →
    x.offset < y.offset ∨ ∃ q, x = .finish q

/-- The source `τ` stands on the source `σ`, or on one that begins at a place of it, by layers whose
token patterns consume what they match. -/
inductive Source.Above (R : Rulebook V) (σ : Source V) : Source V → Prop where
  | refl : Above R σ σ
  | fixed {τ x} : Above R σ τ → Behind R τ x → Above R σ (.fixed x)
  | layer {τ skip token index} : Above R σ τ → token.Consumes R τ →
      Above R σ (.derived τ skip token index)

/-- No place of the source is a clean end. -/
def Source.Unfinished (R : Rulebook V) (σ : Source V) : Prop :=
  ∀ p, ¬ Behind R σ (.finish p)

variable {R : Rulebook V} {σ τ : Source V} {xs : List (Place V)} {x : Place V}

/-- A layer whose token pattern consumes what it matches adds no clean end. -/
theorem Source.Unfinished.derived {skip : Option (Pattern V)} {token : Pattern V} {index : Nat}
    (h : σ.Unfinished R) (htoken : token.Consumes R σ) :
    (Source.derived σ skip token index).Unfinished R := by
  intro p hp
  obtain ⟨i, x, o, htries, ho, hz⟩ := hp.exists_tries
  cases o with
  | matched y v =>
    rcases htoken x y v htries.behind ho with hlt | ⟨q, rfl⟩
    · -- what consumed something is a token
      rw [readFrom, if_pos hlt] at hz
      cases hz
    · exact h q htries.behind
  | refused r =>
    cases x with
    | finish q => exact h q htries.behind
    | token | stalled => cases hz
  | broken b => cases hz

/-- **Over a source without a clean end there is no clean end.** -/
theorem Source.Above.unfinished (h : Source.Above R σ τ) (hσ : σ.Unfinished R) :
    τ.Unfinished R := by
  induction h with
  | refl => exact hσ
  | fixed _ hx ih => exact fun p hp => ih p (hx.of_fixed hp)
  | layer _ htoken ih => exact ih.derived htoken

/-- A source that is known to stall has no clean end. -/
theorem Walks.unfinished (h : Walks R σ (xs ++ [x])) (hstall : x.stall?.isSome) :
    σ.Unfinished R := by
  intro p hp
  have hlast := h.getLast?_of_mem (h.mem_iff_behind.mpr hp) rfl
  rw [List.getLast?_concat] at hlast
  cases hlast
  cases hstall

/-! ## Streams -/

section Streams

variable {ok : Pattern V → Prop} {w₀ w w' : World V} {chart chart' : Chart V} {s u : Stream V}
  {c last : Cursor V}

/-- The cursors of the stream were collected, and the last one was `c`. -/
def CollectsTo (w : World V) (s : Stream V) (c : Cursor V) : Prop :=
  ∃ fuel limit cs w', collect fuel limit s w = some (.ok (cs ++ [c]), w')

/-- The last cursor of a stream is the last place of its source. -/
theorem Standing.exists_walks_concat (hs : Standing ok w₀ w chart s σ) (h : CollectsTo w s c)
    (hend : c.isEnd = true) :
    ∃ xs x, Walks w₀.rulebook σ (xs ++ [x]) ∧ x.token? = none ∧
      x.stall? = c.stall?.map Failure.stall := by
  obtain ⟨fuel, limit, cs, w', hcollect⟩ := h
  obtain ⟨xs, chart', hwalks, hplaces, -⟩ :=
    collect_walks (hs.poised _ _) hs.source σ.depth.lt_succ_self hcollect hend
  obtain ⟨xs', x, rfl, -, hx⟩ := exists_concat_of_forall₂ hplaces.flip
  refine ⟨xs', x, hwalks, ?_, Cursor.stall?_of_place? hx⟩
  rw [Cursor.token?_of_place? hx]
  cases c with
  | token => cases hend
  | finish | stalled => rfl

/-- **What becomes of a stall.** Where a derived stream tries a token at a stall of the stream
below, and comes to a verdict, it ends. It carries the same stall if its token pattern is refused
there, and only then.

So in a tower whose token patterns consume what they match, over a stream that stalls, no stream
comes to a clean end. -/
theorem stall_carried_upward {below : Source V} {skip : Option (Pattern V)} {token : Pattern V}
    {index : Nat} (hu : Standing ok w₀ w chart u (.derived below skip token index)) :
    (∀ i q stall o, Tries w₀.rulebook below skip token index i (.stalled q stall) →
      Derives (lazyTape w₀.rulebook) w₀.rulebook (.whole token) (.stalled q stall) o →
      (∀ b, o ≠ .broken b) →
      Terminates (fun fuel => collect fuel none u w) fun r => ∃ cs c, r.1 = .ok (cs ++ [c]) ∧
        index + cs.length = i ∧ c.position = ⟨i, q.row, q.col⟩ ∧ c.isEnd = true ∧
        (c.stall?.map Failure.stall = some stall ↔ ∃ r, o = .refused r)) ∧
    ∀ σ chart' s w' last c, Standing ok w₀ w' chart' s σ →
      Source.Above w₀.rulebook σ (.derived below skip token index) →
      CollectsTo w' s last → last.stall?.isSome → CollectsTo w u c → c.isEnd = true →
      c.stall?.isSome := by
  refine ⟨?_, ?_⟩
  · intro i q stall o htries ho hbroken
    obtain ⟨z, hz, hposition, hend, hstall⟩ := exists_readFrom_stalled ho hbroken
    obtain ⟨before, hlength, hwalks⟩ := htries.exists_walks ho hz hend
    refine (hwalks.terminates_collect (hu.poised _ _) hu.source
      (Nat.lt_succ_self _)).imp fun r hr => ?_
    obtain ⟨cs, chart', hcs, hplaces, -⟩ := hr
    obtain ⟨cs', c, rfl, hlength', hc⟩ := exists_concat_of_forall₂ hplaces
    refine ⟨cs', c, hcs, by omega, ?_, ?_, ?_⟩
    · rw [← Cursor.position_of_place? hc, hposition]
      rfl
    · rw [Cursor.isEnd_eq, ← Cursor.token?_of_place? hc, hend]
      rfl
    · rw [← Cursor.stall?_of_place? hc, hstall]
  · intro σ chart' s w' last c hs habove hlast hstall hc hend
    -- The stream that stalls has no clean end, and no stream above it has one.
    have hlast' : last.isEnd = true := by
      cases last with
      | token => cases hstall
      | finish | stalled => rfl
    obtain ⟨xs, x, hwalks, -, hx⟩ := hs.exists_walks_concat hlast hlast'
    have hunfinished := habove.unfinished (hwalks.unfinished (by simpa [hx] using hstall))
    obtain ⟨ys, y, hwalks', hy, hystall⟩ := hu.exists_walks_concat hc hend
    have hbehind := hwalks'.mem_iff_behind.mp (List.mem_concat_self ..)
    cases hcstall : c.stall? with
    | some f => rfl
    | none =>
      rw [hcstall] at hystall
      obtain ⟨p, rfl⟩ := Place.exists_finish hy hystall
      exact absurd hbehind (hunfinished p)

end Streams

/-! ## A digit among letters -/

/-- The letters of a text that is no letter. -/
def digitStream : Stream Value × World Value :=
  wordWorld.derive (.chars ['1'] .start) none (.predicate "letter" isLetter)

/-- Whatever is read behind the letters, one token at a time. -/
def anyStream : Stream Value × World Value :=
  digitStream.2.derive digitStream.1 none .any

/-- No text can be read of the digit. -/
theorem standing_digitStream :
    ∃ chart σ, Standing (fun _ => True) wordWorld digitStream.2 chart digitStream.1 σ ∧
      Reads wordWorld.rulebook σ (.ok (.stalled ⟨0, 0, 0⟩ ⟨.start, .start, some (.char '1'),
        [.label "letter"]⟩)) := by
  have hchars : Standing (fun _ => True) wordWorld wordWorld (fun _ => none)
      (.chars ['1'] .start) (.chars ['1'] .start) :=
    ⟨rfl, .empty, rfl, trivial, settled_self _⟩
  obtain ⟨chart, hs⟩ : ∃ chart, Standing (fun _ => True) wordWorld digitStream.2 chart
      digitStream.1 (.derived (.chars ['1'] .start) none (.predicate "letter" isLetter) 0) :=
    hchars.derive (fun _ _ => trivial) trivial
  have hrefused : Derives (lazyTape wordWorld.rulebook) wordWorld.rulebook
      (.whole (.predicate "letter" isLetter)) (charPlace .start ['1'])
      (.refused ⟨charPlace .start ['1'], [.label "letter"]⟩) :=
    .predicate (.tokenRefused rfl)
  exact ⟨chart, _, hs, reads_iff.mpr (.read (reads_iff.mpr .chars) .none hrefused)⟩

/-- A test for any token is refused where the digit was, so that the stall is carried upward. -/
theorem stall_carried_upward_digit :
    (Terminates (fun fuel => collect fuel none anyStream.1 anyStream.2) fun r =>
      ∃ c, r.1 = .ok [c] ∧ c.stall?.map Failure.stall =
        some ⟨.start, .start, some (.char '1'), [.label "letter"]⟩) ∧
    ∃ c, CollectsTo anyStream.2 anyStream.1 c ∧ c.isEnd = true ∧ c.stall?.isSome = true := by
  obtain ⟨chart, σ, hs, hread⟩ := standing_digitStream
  obtain ⟨chart', hu⟩ : ∃ chart', Standing (fun _ => True) wordWorld anyStream.2 chart' anyStream.1
      (.derived σ none .any 0) := hs.derive (fun _ _ => trivial) trivial
  obtain ⟨hpositions, htower⟩ := stall_carried_upward hu
  constructor
  · refine (hpositions 0 _ _ _ (.first hread .none) (.any (.tokenRefused rfl))
      (fun b h => by cases h)).imp fun r hr => ?_
    obtain ⟨cs, c, hcs, hlength, -, -, hstall⟩ := hr
    obtain rfl : cs = [] := List.eq_nil_of_length_eq_zero (by omega)
    exact ⟨c, hcs, hstall.mpr ⟨_, rfl⟩⟩
  · -- There is no token to be matched, so that what is matched is consumed.
    have hconsumes : Pattern.any.Consumes wordWorld.rulebook σ := by
      intro x y v hx ho
      have hend : x.token? = none := by
        have hmem := (Walks.stop hread rfl).mem_iff_behind.mpr hx
        rw [List.mem_singleton.mp hmem]
        rfl
      cases ho with
      | any ho =>
        generalize hm : Verdict.matched y v = o at ho
        cases ho with
        | token hv => exact absurd (hend.symm.trans hv) nofun
        | tokenRefused => cases hm
    have hlow : ∃ last, CollectsTo digitStream.2 digitStream.1 last ∧ last.stall?.isSome = true :=
      ⟨_, ⟨100, none, [], _, rfl⟩, rfl⟩
    have hhigh : ∃ c, CollectsTo anyStream.2 anyStream.1 c ∧ c.isEnd = true :=
      ⟨_, ⟨100, none, [], _, rfl⟩, rfl⟩
    obtain ⟨last, hlast, hstall⟩ := hlow
    obtain ⟨c, hc, hend⟩ := hhigh
    exact ⟨c, hc, hend, htower _ _ _ _ last c hs (.layer .refl hconsumes) hlast hstall hc hend⟩

/-- An option matches nothing at the digit, so that the stream above the stall comes to a clean
end. -/
theorem stall_dropped_by_option :
    ∃ q f p, CollectsTo digitStream.2 digitStream.1 (.stalled q f) ∧
      CollectsTo (digitStream.2.derive digitStream.1 none (.optional .any)).2
        (digitStream.2.derive digitStream.1 none (.optional .any)).1 (.finish p) :=
  ⟨_, _, _, ⟨100, none, [], _, rfl⟩, ⟨100, none, [], _, rfl⟩⟩

end Humus.Peg
