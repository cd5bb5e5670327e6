import Humus.Proofs.Peg.Building
import Humus.Proofs.Peg.Reference

/-!
# Layers

A grammar cannot tell whether its tokens come from a stream that derives them as they are asked
for, or from a list of the same tokens. Their rows and columns differ, so that the transforms of the
rules must not look at them.

## Main definitions

* `Rulebook.OffsetsOnly R S`: the transforms of the rules of `S` look at offsets only

## Main results

* `Walks.offset_eq`: the offsets of a derived source count its tokens
* `layers_transparent`: parses of a derived stream and of the list of its tokens
-/

namespace Humus.Peg

variable {V : Type}

/-- The transforms of the rules of `S` do not look at rows and columns. -/
def Rulebook.OffsetsOnly (R : Rulebook V) (S : RuleRef → Prop) : Prop :=
  ∀ ref body f, S ref → R ref = .ok (body, some f) → ∀ v a b a' b',
    Position.offset a = Position.offset a' → Position.offset b = Position.offset b' →
      f ref.name v ⟨a, b⟩ = f ref.name v ⟨a', b'⟩

variable [MatchValue V] [DecidableEq V] {R : Rulebook V} {S : RuleRef → Prop} {below : Source V}
  {skip : Option (Pattern V)} {token q : Pattern V} {index : Nat} {xs : List (Place V)}

/-! ## Offsets -/

/-- **The offsets of a derived source count its tokens.** -/
theorem Walks.offset_eq (h : Walks R (.derived below skip token index) xs) {i : Nat} {x : Place V}
    (hx : xs[i]? = some x) : x.offset = index + i := by
  generalize hσ : Source.derived below skip token index = σ at h
  induction h generalizing below index i with
  | stop hread _ =>
    subst hσ
    cases i with
    | zero => cases hx; exact hread.offset_eq
    | succ i => cases hx
  | @next σ p v rest xs hread _ ih =>
    subst hσ
    cases i with
    | zero => cases hx; exact hread.offset_eq
    | succ i =>
      obtain ⟨y, rfl⟩ := hread.rest_of_derived
      rw [ih hx rfl]
      omega

/-- Behind the last token there is one more place. -/
theorem Walks.length_eq {σ : Source V} (h : Walks R σ xs) :
    xs.length = (xs.filterMap Place.token?).length + 1 := by
  induction h with
  | stop _ hend => rw [List.filterMap_cons_none hend]; rfl
  | next _ _ ih =>
    rw [List.filterMap_cons_some (Place.token?_token ..), List.length_cons, List.length_cons, ih]

/-- The places of a derived source stand at the offsets that count them. -/
theorem Walks.exists_position (h : Walks R (.derived below skip token 0) xs) :
    ∃ position : Nat → Position, (∀ i x, xs[i]? = some x → position i = x.position) ∧
      ∀ i, i ≤ (xs.filterMap Place.token?).length → (position i).offset = i := by
  -- behind the last place any position will do
  set position : Nat → Position := fun i => (xs[i]?.map Place.position).getD .start
  have hposition : ∀ i x, xs[i]? = some x → position i = x.position := by
    intro i x hx
    simp only [position, hx, Option.map_some, Option.getD_some]
  refine ⟨position, hposition, ?_⟩
  intro i hi
  have hlt : i < xs.length := by
    rw [h.length_eq]
    exact Nat.lt_succ_of_le hi
  have hx := List.getElem?_eq_getElem hlt
  have hoffset := h.offset_eq hx
  rw [Nat.zero_add] at hoffset
  rw [hposition i _ hx]
  exact hoffset

/-- Over tokens at the same offsets a pattern comes to the same, up to rows and columns, if its
transforms do not look at them. -/
theorem Derives.of_offsets {tokens : List V} {position position' : Nat → Position}
    (hposition : ∀ i, i ≤ tokens.length → (position' i).offset = (position i).offset)
    (hwithin : q.Within S) (hclosed : R.Closed S) (hblind : R.OffsetsOnly S)
    {o : Verdict Nat V} (h : Derives (Tape.ofTokens tokens position) R (.whole q) 0 o) :
    ∃ o', Derives (Tape.ofTokens tokens position') R (.whole q) 0 o' ∧
      (o'.report position' 0).map Position.offset = (o.report position 0).map Position.offset := by
  -- Places are related to themselves, as far as the tokens go.
  have hB : (Tape.ofTokens tokens position).Corresponds (Tape.ofTokens tokens position')
      fun i j => i = j ∧ i ≤ tokens.length := by
    refine ⟨?_, ?_, ?_⟩
    · rintro i _ ⟨rfl, -⟩
      rfl
    · rintro i _ j _ ⟨rfl, hi⟩ ⟨rfl, hj⟩
      simp only [Tape.offset, Tape.ofTokens, hposition i hi, hposition j hj]
    · rintro i _ r ⟨rfl, hi⟩ ⟨hlt, rfl⟩
      exact ⟨.ok (i + 1), ⟨hlt, rfl⟩, .ok ⟨rfl, hlt⟩⟩
  have hblind' : R.Blind S (Tape.ofTokens tokens position) (Tape.ofTokens tokens position')
      fun i j => i = j ∧ i ≤ tokens.length := by
    rintro ref body f hS hR i _ j _ v ⟨rfl, hi⟩ ⟨rfl, hj⟩
    exact hblind ref body f hS hR v _ _ _ _ (hposition i hi) (hposition j hj)
  obtain ⟨o', ho', hrel⟩ := h.transfer hB hclosed hblind' .whole hwithin ⟨rfl, Nat.zero_le _⟩
  refine ⟨o', ho', ?_⟩
  rw [Verdict.report_map, Verdict.report_map]
  refine hrel.report ⟨rfl, Nat.zero_le _⟩ ?_
  rintro i _ ⟨rfl, hi⟩
  exact hposition i hi

/-! ## Derived streams -/

/-- The cursors that were collected of a derived stream stand for the places of its source. A copy
of the stream has the same source, whether it is made before the walk or after it. -/
theorem Standing.exists_walks {ok : Pattern V → Prop} {w₀ w w' : World V} {source : Stream V}
    {chart : Chart V} {fuel : Nat} {limit : Option Nat} {cs : List (Cursor V)} {last : Cursor V}
    (hs : Standing ok w₀ w chart source below)
    (hcollect : collect fuel limit (w.derive source skip token).1 (w.derive source skip token).2 =
      some (.ok (cs ++ [last]), w')) (hlast : last.isEnd = true) :
    ∃ xs, Walks w.rulebook (.derived below skip token 0) xs ∧
      xs.filterMap Place.token? = cs.filterMap Cursor.token? ∧
      ∀ v, v = w ∨ v = w' → v.rulebook = w.rulebook ∧
        ∃ chart', Charted w.rulebook (fun _ => False) chart' (v.derive source skip token).2.cells ∧
          (v.derive source skip token).1.source? chart' = some (.derived below skip token 0) := by
  have hcharted : Charted w.rulebook (fun _ => False) chart w.cells := hs.rulebook ▸ hs.charted
  obtain ⟨chart₁, hle₁, hcharted₁, hsource₁⟩ :=
    w.exists_source_derive skip token hcharted hs.source
  have hw : Poised w.rulebook (fun _ => False) ((Source.derived below skip token 0).depth + 1)
      chart₁ (w.derive source skip token).2.unwalked := ⟨rfl, hcharted₁, fun _ h => h.elim⟩
  obtain ⟨xs, chart₂, hwalks, hplaces, hev⟩ :=
    collect_walks hw hsource₁ (Nat.lt_succ_self _) hcollect hlast
  have hlast' : last.token? = none := by
    cases last with
    | token => cases hlast
    | finish | stalled => rfl
  refine ⟨xs, hwalks, ?_, ?_⟩
  · rw [← filterMap_token?_eq hplaces, List.filterMap_append, List.filterMap_cons_none hlast',
      List.filterMap_nil, List.append_nil]
  · rintro v (rfl | rfl)
    · exact ⟨rfl, chart₁, hcharted₁, hsource₁⟩
    · -- The walk has added cells, and the chart of the stream below holds for them as well.
      obtain ⟨chart₃, -, hcharted₃, hsource₃⟩ := World.exists_source_derive _ skip token hev.charted
        (source.source?_mono (hle₁.trans hev.le) hs.source)
      exact ⟨hev.rulebook, chart₃, hcharted₃, hsource₃⟩

/-- **Layers are transparent.** The cursors of a derived stream were collected up to its end, or up
to where it stalls. A parse of a copy of the stream, made before or after, and a parse of the list
of its tokens come to the same: the same value between the same offsets, the same expectations at
the same offsets, or the same fault. -/
theorem layers_transparent {w₀ w v w' : World V} {source : Stream V} {fuel : Nat}
    {limit : Option Nat} {cs : List (Cursor V)} {last : Cursor V}
    (hbuilt : Built (fun _ => True) w₀ source w)
    (hcollect : collect fuel limit (w.derive source skip token).1 (w.derive source skip token).2 =
      some (.ok (cs ++ [last]), w'))
    (hlast : last.isEnd = true) (hv : v = w ∨ v = w') (hwithin : q.Within S)
    (hclosed : w.rulebook.Closed S) (hoffsets : w.rulebook.OffsetsOnly S) (r : Report Nat V) :
    (∃ fuel out w'', parse fuel none q (v.derive source skip token).1
      (v.derive source skip token).2 = some (out, w'') ∧ out.report.map Position.offset = r) ↔
    ∃ fuel out w'', parse fuel none q (.ofList (cs.filterMap Cursor.token?)) v =
      some (out, w'') ∧ out.report.map Position.offset = r := by
  obtain ⟨chart, below, hs⟩ := hbuilt.exists_standing
  obtain ⟨xs, hwalks, htokens, hcopy⟩ := hs.exists_walks hcollect hlast
  obtain ⟨hrulebook, chart', hcharted, hsource⟩ := hcopy v hv
  obtain ⟨position, hposition, hoffset⟩ := hwalks.exists_position
  rw [htokens] at hoffset
  -- The copy comes to what is derived over the places of the source.
  have hderived := (hrulebook ▸ hwalks : Walks v.rulebook _ xs).parse_map_report_iff
    (w := (v.derive source skip token).2) (hrulebook ▸ hcharted) hsource hposition q
    Position.offset r
  rw [htokens] at hderived
  -- The list comes to what is derived over the same tokens, elsewhere in rows and columns.
  set tokens := cs.filterMap Cursor.token?
  have hnone : Charted v.rulebook (fun _ => False) (fun _ => none) v.cells := by
    intro id σ h
    cases h
  have hsource' : (Stream.ofList tokens).source? (fun _ => none) = some (.values tokens 0) := rfl
  have hlist := (walks_values 0 tokens v.rulebook).parse_map_report_iff hnone hsource'
    (fun i x hx => position_of_valuePlaces hx) q Position.offset r
  rw [filterMap_valuePlaces] at hlist
  have hclosed' : v.rulebook.Closed S := hrulebook ▸ hclosed
  have hoffsets' : v.rulebook.OffsetsOnly S := hrulebook ▸ hoffsets
  refine hderived.trans (Iff.trans ?_ hlist.symm)
  constructor
  · rintro ⟨o, ho, rfl⟩
    exact ho.of_offsets (fun i hi => by rw [hoffset i hi, Nat.zero_add]) hwithin hclosed' hoffsets'
  · rintro ⟨o, ho, rfl⟩
    exact ho.of_offsets (fun i hi => by rw [hoffset i hi, Nat.zero_add]) hwithin hclosed' hoffsets'

/-- The words of a text that stalls, derived and listed. -/
theorem layers_transparent_words :
    ∃ fuel cs last w', collect fuel none wordStream.1 wordStream.2 =
        some (.ok (cs ++ [last]), w') ∧ last.isEnd = true ∧ cs.length = 2 ∧
      ∀ r, (∃ fuel out w'', parse fuel none (.rule ⟨0, "rest"⟩) wordStream.1 wordStream.2 =
          some (out, w'') ∧ out.report.map Position.offset = r) ↔
        ∃ fuel out w'', parse fuel none (.rule ⟨0, "rest"⟩) (.ofList (cs.filterMap Cursor.token?))
          wordWorld = some (out, w'') ∧ out.report.map Position.offset = r := by
  obtain ⟨a, b, last, w', hcollect, hlast⟩ : ∃ a b last w',
      collect 300 none wordStream.1 wordStream.2 = some (.ok ([a, b] ++ [last]), w') ∧
        last.isEnd = true := ⟨_, _, _, _, rfl, rfl⟩
  have hoffsets : wordWorld.rulebook.OffsetsOnly fun _ => True := by
    intro ref body f _ hR v a b a' b' _ _
    obtain ⟨rule, hrule, -, hf⟩ := mem_wordGrammar hR
    have hconst : ∀ r ∈ wordGrammar.rules, ∀ f, r.2.transform = some f →
        ∀ name v span span', f name v span = f name v span' := by
      simp [wordGrammar]
    exact hconst _ hrule f hf ref.name v ⟨a, b⟩ ⟨a', b'⟩
  refine ⟨300, [a, b], last, w', hcollect, hlast, rfl, fun r => ?_⟩
  exact layers_transparent .chars hcollect hlast (.inl rfl) (Pattern.within_true _)
    (fun _ body _ _ _ => body.within_true) hoffsets r

end Humus.Peg
