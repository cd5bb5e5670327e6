import Humus.Proofs.Peg.Building

/-!
# Families of streams

Several streams that live in one world and may share cells: some are built on others, some begin
where a match of another ended. One chart writes all of them out.

A fresh copy of the streams is given by the world in which nobody has asked for a position yet. The
copies stand for the same sources.

## Main definitions

* `Family ok w₀ ss w`: the streams `ss` were built, and perhaps read, in a world that began as `w₀`
* `Gathered ok w₀ ss w chart`: the chart writes out all the streams, and none of its cells is busy
* `World.unread w`: the world before anybody asked for a position of a derived stream

## Main results

* `Family.exists_gathered`: the streams of a family can be written out together
* `Gathered.parse_finds`: what a parse over a fresh copy comes to is found
-/

namespace Humus.Peg

variable {V : Type}

/-- The stream takes no cell and has no stream behind it. -/
inductive Stream.IsPlain : Stream V → Prop where
  | chars {text p} : IsPlain (.chars text p)
  | values {items index} : IsPlain (.values items index)
  | finish {p} : IsPlain (.fixed (.finish p))
  | stalled {p f} : IsPlain (.fixed (.stalled p f))

/-- Nobody has asked for a position of a derived stream. -/
def World.unread (w : World V) : World V :=
  { w with cells := w.cells.map ({ · with memo := .idle }) }

variable [MatchValue V] [DecidableEq V]

/-- The streams `ss` were built, in a world that began as `w₀`, from texts, lists and cursors, and
by patterns of `ok` on one another. Other streams may have been built meanwhile, and matches and
walks may have read these streams and come to their end. What they came to belongs to the family. -/
inductive Family (ok : Pattern V → Prop) (w₀ : World V) : List (Stream V) → World V → Prop where
  | none : Family ok w₀ [] w₀
  | plain {ss w s} : Family ok w₀ ss w → s.IsPlain → Family ok w₀ (s :: ss) w
  | token {ss w s p v} : Family ok w₀ ss w → s ∈ ss → Family ok w₀ (.fixed (.token p v s) :: ss) w
  | derived {ss w s skip token} : Family ok w₀ ss w → s ∈ ss → (∀ k, skip = some k → ok k) →
      ok token → Family ok w₀ ((w.derive s skip token).1 :: ss) (w.derive s skip token).2
  | aside {ss w s skip token} : Family ok w₀ ss w → Family ok w₀ ss (w.derive s skip token).2
  | matched {ss w s p fuel limit r w'} : Family ok w₀ ss w → s ∈ ss →
      parse fuel limit p s w = some (.ok r, w') →
      Family ok w₀ (.fixed r.start :: .fixed r.stop :: ss) w'
  | refused {ss w s p fuel limit f w'} : Family ok w₀ ss w → s ∈ ss →
      parse fuel limit p s w = some (.error (.failed f), w') →
      Family ok w₀ (.fixed f.position :: .fixed f.furthest :: ss) w'
  | collected {ss w s fuel limit cs last w'} : Family ok w₀ ss w → s ∈ ss →
      collect fuel limit s w = some (.ok (cs ++ [last]), w') → last.isEnd = true →
      Family ok w₀ ((cs ++ [last]).map .fixed ++ ss) w'

/-- The chart writes out all the streams, and none of its cells is busy. -/
structure Gathered (ok : Pattern V → Prop) (w₀ : World V) (ss : List (Stream V)) (w : World V)
    (chart : Chart V) : Prop where
  rulebook : w.rulebook = w₀.rulebook
  charted : Charted w₀.rulebook (fun _ => False) chart w.cells
  sources : ∀ s ∈ ss, ∃ σ, s.source? chart = some σ ∧ σ.Uses ok

variable {ok : Pattern V → Prop} {w₀ w w' : World V} {chart chart' : Chart V}
  {ss S : List (Stream V)} {s : Stream V} {σ : Source V} {p : Pattern V} {x : Place V}
  {c : Cursor V} {fuel : Nat} {limit : Option Nat}

omit [MatchValue V] [DecidableEq V] in
theorem Stream.IsPlain.exists_source (h : s.IsPlain) (ok : Pattern V → Prop) (chart : Chart V) :
    ∃ σ, s.source? chart = some σ ∧ σ.Uses ok := by
  cases h with
  | chars => exact ⟨_, rfl, trivial⟩
  | values => exact ⟨_, rfl, trivial⟩
  | finish => exact ⟨_, rfl, trivial⟩
  | stalled => exact ⟨_, rfl, trivial⟩

omit [MatchValue V] [DecidableEq V] in
theorem exists_source_fixed (hc : c.place? chart = some x) (hx : x.Uses ok) :
    ∃ σ, (Stream.fixed c).source? chart = some σ ∧ σ.Uses ok :=
  ⟨.fixed x, by simp only [Stream.source?, hc, Option.map_some], hx⟩

namespace Gathered

/-- What is read later belongs to the family. -/
theorem extend (h : Gathered ok w₀ ss w chart) (hrulebook : w'.rulebook = w.rulebook)
    (hcharted : Charted w₀.rulebook (fun _ => False) chart' w'.cells) (hle : chart.Le chart')
    (hnew : ∀ s ∈ S, ∃ σ, s.source? chart' = some σ ∧ σ.Uses ok) :
    Gathered ok w₀ (S ++ ss) w' chart' where
  rulebook := hrulebook.trans h.rulebook
  charted := hcharted
  sources s hs := by
    rcases List.mem_append.mp hs with hs | hs
    · exact hnew s hs
    · obtain ⟨σ, hσ, huses⟩ := h.sources s hs
      exact ⟨σ, s.source?_mono hle hσ, huses⟩

theorem poised (h : Gathered ok w₀ ss w chart) (σ : Source V) :
    Poised w₀.rulebook (fun _ => False) (σ.depth + 1) chart { w with answers := [] } :=
  ⟨h.rulebook, h.charted, fun _ h => h.elim⟩

/-- A parse over a stream of the family finds something, and what it finds can be written out. -/
theorem parse_finds (h : Gathered ok w₀ ss w chart) (hs : s.source? chart = some σ)
    {out : Outcome V} (hrun : parse fuel none p s w = some (out, w')) :
    ∃ chart' f, Finds w₀.rulebook p σ f ∧ Says chart' out f := by
  rcases Starts.runMatch_says (.ask hs) (h.poised σ) σ.depth.lt_succ_self hrun with
    ⟨_, h, -⟩ | ⟨chart', f, hf, hsays, -⟩
  · cases h
  · exact ⟨chart', f, hf, hsays⟩

/-- What is reported of a parse over a stream of the family is found. -/
theorem parse_report_iff (h : Gathered ok w₀ ss w chart) (hs : s.source? chart = some σ)
    (p : Pattern V) (r : Report Position V) :
    (∃ fuel out w', parse fuel none p s w = some (out, w') ∧ out.report = r) ↔
      ∃ f, Finds w₀.rulebook p σ f ∧ f.report = r := by
  have hcharted := h.charted
  rw [← h.rulebook] at hcharted ⊢
  exact parse_report_iff_finds hcharted hs p r

/-- What a parse comes to belongs to the family. -/
theorem parsed (h : Gathered ok w₀ ss w chart) (hmem : s ∈ ss) {out : Outcome V}
    (hrun : parse fuel limit p s w = some (out, w')) (hout : ∀ stop, out ≠ .error (.halted stop))
    (hcomplete : out ≠ .error .incomplete) :
    ∃ chart' f, f.All (Place.Uses ok) ∧ Says chart' out f ∧ chart.Le chart' ∧
      w'.rulebook = w.rulebook ∧ Charted w₀.rulebook (fun _ => False) chart' w'.cells := by
  obtain ⟨σ, hs, huses⟩ := h.sources s hmem
  rcases Starts.runMatch_says (.ask hs) (h.poised σ) σ.depth.lt_succ_self hrun with
    ⟨k, -, rfl⟩ | ⟨chart', f, hf, hsays, hev⟩
  · exact absurd rfl (hout _)
  · have hbroken : ∀ b, f ≠ .broken b := by
      rintro b rfl
      cases hsays with
      | fault => exact hout _ rfl
      | silence => exact hcomplete rfl
    have hev := hev hbroken
    exact ⟨chart', f, hf.uses huses, hsays, hev.le, hev.rulebook, hev.charted⟩

/-- What a walk gives belongs to the family. -/
theorem collected (h : Gathered ok w₀ ss w chart) (hmem : s ∈ ss) {cs : List (Cursor V)}
    {last : Cursor V} (hrun : collect fuel limit s w = some (.ok (cs ++ [last]), w'))
    (hlast : last.isEnd = true) :
    ∃ chart', Gathered ok w₀ ((cs ++ [last]).map .fixed ++ ss) w' chart' := by
  obtain ⟨σ, hs, huses⟩ := h.sources s hmem
  have hw : Poised w₀.rulebook (fun _ => False) (σ.depth + 1) chart w.unwalked :=
    ⟨h.rulebook, h.charted, fun _ h => h.elim⟩
  obtain ⟨xs, chart', hwalks, hplaces, hev⟩ :=
    collect_walks hw hs σ.depth.lt_succ_self hrun hlast
  refine ⟨chart', h.extend hev.rulebook hev.charted hev.le fun s hs => ?_⟩
  obtain ⟨c, hc, rfl⟩ := List.mem_map.mp hs
  obtain ⟨x, hx, hcx⟩ := exists_mem_of_forall₂ hplaces hc
  exact exists_source_fixed hcx (hwalks.uses huses x hx)

end Gathered

/-- **The streams of a family can be written out together.** -/
theorem Family.exists_gathered (h : Family ok w₀ ss w) : ∃ chart, Gathered ok w₀ ss w chart := by
  induction h with
  | none =>
    refine ⟨fun _ => .none, rfl, .empty, fun s hs => ?_⟩
    cases hs
  | plain _ hplain ih =>
    obtain ⟨chart, h⟩ := ih
    refine ⟨chart, h.extend (S := [_]) rfl h.charted (.refl chart) fun s hs => ?_⟩
    rw [List.mem_singleton.mp hs]
    exact hplain.exists_source ok chart
  | @token ss w s p v _ hmem ih =>
    obtain ⟨chart, h⟩ := ih
    obtain ⟨σ, hσ, huses⟩ := h.sources s hmem
    refine ⟨chart, h.extend (S := [_]) rfl h.charted (.refl chart) fun s' hs' => ?_⟩
    rw [List.mem_singleton.mp hs']
    exact exists_source_fixed (x := .token p v σ)
      (by simp only [Cursor.place?, hσ, Option.map_some]) huses
  | @derived ss w s skip token _ hmem hskip htoken ih =>
    obtain ⟨chart, h⟩ := ih
    obtain ⟨σ, hσ, huses⟩ := h.sources s hmem
    obtain ⟨chart', hle, hcharted, hsource⟩ := w.exists_source_derive skip token h.charted hσ
    refine ⟨chart', h.extend (S := [_]) rfl hcharted hle fun s' hs' => ?_⟩
    rw [List.mem_singleton.mp hs']
    exact ⟨_, hsource, huses, hskip, htoken⟩
  | aside _ ih =>
    obtain ⟨chart, h⟩ := ih
    exact ⟨chart, h.rulebook, h.charted.push_aside _, h.sources⟩
  | @matched ss w s p fuel limit r w' _ hmem hrun ih =>
    obtain ⟨chart, h⟩ := ih
    obtain ⟨chart', f, huses, hsays, hle, hrulebook, hcharted⟩ :=
      h.parsed hmem hrun (by simp) (by simp)
    refine ⟨chart', h.extend (S := [_, _]) hrulebook hcharted hle fun s' hs' => ?_⟩
    cases hsays with
    | matched hx hy =>
      simp only [List.mem_cons, List.not_mem_nil, or_false] at hs'
      rcases hs' with rfl | rfl
      · exact exists_source_fixed hx huses.1
      · exact exists_source_fixed hy huses.2
  | @refused ss w s p fuel limit f w' _ hmem hrun ih =>
    obtain ⟨chart, h⟩ := ih
    obtain ⟨chart', f, huses, hsays, hle, hrulebook, hcharted⟩ :=
      h.parsed hmem hrun (by simp) (by simp)
    refine ⟨chart', h.extend (S := [_, _]) hrulebook hcharted hle fun s' hs' => ?_⟩
    cases hsays with
    | refused hx hr =>
      simp only [List.mem_cons, List.not_mem_nil, or_false] at hs'
      rcases hs' with rfl | rfl
      · exact exists_source_fixed hx huses.1
      · exact exists_source_fixed hr.furthest huses.2
  | collected _ hmem hrun hlast ih =>
    obtain ⟨chart, h⟩ := ih
    exact h.collected hmem hrun hlast

/-! ## Fresh copies -/

/-- In a world that nobody has asked yet, the streams stand for the same sources. -/
theorem Gathered.unread (h : Gathered ok w₀ ss w chart) : Gathered ok w₀ ss w.unread chart where
  rulebook := h.rulebook
  charted id σ hid := by
    obtain ⟨cell, hcell, hfits⟩ := h.charted id σ hid
    refine ⟨{ cell with memo := .idle }, ?_, hfits.base, trivial⟩
    rw [World.unread, Array.getElem?_map, hcell]
    rfl
  sources := h.sources

end Humus.Peg
