import Humus.Proofs.Peg.Adequacy

/-!
# Walks

A source that is read to its end is a finite list of tokens, wherever its tokens come from. What a
pattern comes to over it is derived over the list, with numbers as places.

## Main definitions

* `Walks R σ xs`: the places of a source, up to its end
* `Tape.ofTokens tokens position`: a list of tokens as an input
* `Report P V`: what a parse comes to, without its cursors

## Main results

* `Walks.corresponds`: the places of a source correspond to those of its tokens
* `parse_report_iff_finds`: what is reported of a parse is found
* `Walks.parse_report_iff`: what is reported of a parse is derived over the tokens
-/

namespace Humus.Peg

open Dispatch (Stop)

/-- What a parse comes to, with places given as values of `P`. -/
inductive Report (P V : Type) where
  | matched (start stop : P) (value : V)
  | refused (position furthest : P) (expected : List (Expected V))
  | fault (fault : Fault)
  | limit (limit : Nat)
  | incomplete

variable {C V P Q : Type}

/-- A report of other places. -/
def Report.map (f : P → Q) : Report P V → Report Q V
  | .matched start stop v => .matched (f start) (f stop) v
  | .refused position furthest expected => .refused (f position) (f furthest) expected
  | .fault g => .fault g
  | .limit n => .limit n
  | .incomplete => .incomplete

/-- What is reported of an outcome. -/
def Outcome.report : Outcome V → Report Position V
  | .ok s => .matched s.start.position s.stop.position s.value
  | .error (.failed f) => .refused f.position.position f.furthest.position f.expected
  | .error (.halted (.fault g)) => .fault g
  | .error (.halted (.limit n)) => .limit n
  | .error .incomplete => .incomplete

/-- What is reported of a match that was broken off. -/
def Break.report : Break → Report P V
  | .fault g => .fault g
  | .silence => .incomplete

/-- What is reported of a finding. -/
def Finding.report : Finding V → Report Position V
  | .matched x y v => .matched x.position y.position v
  | .refused x r => .refused x.position r.furthest.position r.expected
  | .broken b => b.report

/-- What is reported of a match at `x`, where `place` says where its places are. -/
def Verdict.report (place : C → P) (x : C) : Verdict C V → Report P V
  | .matched y v => .matched (place x) (place y) v
  | .refused r => .refused (place x) (place r.furthest) r.expected
  | .broken b => b.report

/-- A list of tokens as an input. Its places are the numbers of tokens that come before. -/
def Tape.ofTokens (tokens : List V) (position : Nat → Position) : Tape Nat V where
  token? i := tokens[i]?
  position
  next i r := i < tokens.length ∧ r = .ok (i + 1)

theorem Verdict.report_map (f : P → Q) (place : C → P) (x : C) (o : Verdict C V) :
    (o.report place x).map f = o.report (f ∘ place) x := by
  match o with
  | .matched .. | .refused _ | .broken (.fault _) | .broken .silence => rfl

/-- Related verdicts are reported alike, if related places are. -/
theorem Verdict.Rel.report {C' : Type} {B : C → C' → Prop} {place : C → P} {place' : C' → P}
    {x : C} {x' : C'} {o : Verdict C V} {o' : Verdict C' V} (h : o.Rel B o') (hx : B x x')
    (hplace : ∀ x x', B x x' → place' x' = place x) :
    o'.report place' x' = o.report place x := by
  cases h with
  | matched hy => simp only [Verdict.report, hplace _ _ hx, hplace _ _ hy]
  | refused hr =>
    obtain ⟨hr⟩ := hr
    simp only [Verdict.report, hplace _ _ hx, hplace _ _ hr]
  | broken => rfl

/-- What is reported as a match is one. -/
theorem Outcome.exists_ok {out : Outcome V} {start stop : Position} {v : V}
    (h : out.report = .matched start stop v) :
    ∃ s, out = .ok s ∧ s.start.position = start ∧ s.stop.position = stop ∧ s.value = v := by
  match out, h with
  | .ok s, rfl => exact ⟨s, rfl, rfl, rfl, rfl⟩

/-- What is reported as a failure is one. -/
theorem Outcome.exists_failed {out : Outcome V} {position furthest : Position}
    {expected : List (Expected V)} (h : out.report = .refused position furthest expected) :
    ∃ f, out = .error (.failed f) := by
  match out, h with
  | .error (.failed f), _ => exact ⟨f, rfl⟩

variable [MatchValue V] [DecidableEq V]

/-- The places of a source, in order. The last one is its end. -/
inductive Walks (R : Rulebook V) : Source V → List (Place V) → Prop where
  | stop {σ x} : Reads R σ (.ok x) → x.token? = none → Walks R σ [x]
  | next {σ p v rest xs} : Reads R σ (.ok (.token p v rest)) → Walks R rest xs →
      Walks R σ (.token p v rest :: xs)

variable {R : Rulebook V} {σ : Source V} {xs : List (Place V)} {x : Place V} {i : Nat}

namespace Walks

/-- The source reads the first place of its walk. -/
theorem exists_head (h : Walks R σ xs) : ∃ x, xs[0]? = some x ∧ Reads R σ (.ok x) := by
  cases h with
  | stop hx _ | next hx _ => exact ⟨_, rfl, hx⟩

/-- The tokens of a walk are in the order of its places. -/
theorem token? (h : Walks R σ xs) (hx : xs[i]? = some x) :
    (xs.filterMap Place.token?)[i]? = x.token? := by
  induction h generalizing i with
  | stop _ hend =>
    cases i with
    | zero =>
      cases hx
      rw [List.filterMap_cons_none hend, hend]
      rfl
    | succ i => cases hx
  | @next σ p v rest xs _ _ ih =>
    rw [List.filterMap_cons_some (Place.token?_token ..)]
    cases i with
    | zero => cases hx; rfl
    | succ i => exact ih hx

/-- Behind a token of a walk comes the next place of the walk. -/
theorem exists_next (h : Walks R σ xs) (hx : xs[i]? = some x) {v : V} (hv : x.token? = some v) :
    ∃ y, xs[i + 1]? = some y ∧ (lazyTape R).next x (.ok y) := by
  induction h generalizing i with
  | stop _ hend =>
    cases i with
    | zero =>
      cases hx
      rw [hend] at hv
      cases hv
    | succ i => cases hx
  | @next σ p v rest xs _ hxs ih =>
    cases i with
    | zero =>
      cases hx
      obtain ⟨y, hy, hreads⟩ := hxs.exists_head
      exact ⟨y, hy, hreads⟩
    | succ i => exact ih hx

variable {position : Nat → Position}

/-- **The places of a source correspond to those of its tokens.** -/
theorem corresponds (h : Walks R σ xs)
    (hposition : ∀ i x, xs[i]? = some x → position i = x.position) :
    (lazyTape R).Corresponds (Tape.ofTokens (xs.filterMap Place.token?) position)
      fun x i => xs[i]? = some x where
  token? hx := h.token? hx
  lt_iff hx hy := by
    simp only [Tape.offset, Tape.ofTokens, hposition _ _ hx, hposition _ _ hy]
    rfl
  next := by
    intro x i r hx hr
    cases x with
    | token p v rest =>
      -- what is read behind the token is the next place of the walk
      obtain ⟨y, hy, hnext⟩ := h.exists_next hx rfl
      have hlt : i < (xs.filterMap Place.token?).length :=
        (List.getElem?_eq_some_iff.mp (h.token? hx)).1
      cases Reads.unique hr hnext
      exact ⟨.ok (i + 1), ⟨hlt, rfl⟩, .ok hy⟩
    | finish | stalled => exact hr.elim

/-- The places of the tokens of a source correspond to those of the source. -/
theorem corresponds' (h : Walks R σ xs)
    (hposition : ∀ i x, xs[i]? = some x → position i = x.position) :
    (Tape.ofTokens (xs.filterMap Place.token?) position).Corresponds (lazyTape R)
      fun i x => xs[i]? = some x where
  token? hx := (h.token? hx).symm
  lt_iff hx hy := by
    simp only [Tape.offset, Tape.ofTokens, hposition _ _ hx, hposition _ _ hy]
    rfl
  next := by
    rintro i x _ hx ⟨hlt, rfl⟩
    have hv := (h.token? hx).symm.trans (List.getElem?_eq_getElem hlt)
    obtain ⟨y, hy, hnext⟩ := h.exists_next hx hv
    exact ⟨.ok y, hnext, .ok hy⟩

/-- What is derived over the tokens of a source is derived over its places. -/
theorem derives_of_tokens (h : Walks R σ xs)
    (hposition : ∀ i x, xs[i]? = some x → position i = x.position) {p : Pattern V}
    (hx : xs[i]? = some x) {o : Verdict Nat V}
    (ho : Derives (Tape.ofTokens (xs.filterMap Place.token?) position) R (.whole p) i o) :
    ∃ o', Derives (lazyTape R) R (.whole p) x o' ∧ o.Rel (fun i x => xs[i]? = some x) o' := by
  have hclosed : R.Closed fun _ => True := fun _ body _ _ _ => body.within_true
  have hblind : R.Blind (fun _ => True) (Tape.ofTokens (xs.filterMap Place.token?) position)
      (lazyTape R) fun i x => xs[i]? = some x := by
    intro ref body f _ _ x i y j v hx hy
    simp only [Tape.ofTokens, hposition _ _ hx, hposition _ _ hy]
    rfl
  exact ho.transfer (h.corresponds' hposition) hclosed hblind .whole p.within_true hx

/-- What is derived over the places of a source is derived over its tokens. -/
theorem derives_tokens (h : Walks R σ xs)
    (hposition : ∀ i x, xs[i]? = some x → position i = x.position) {p : Pattern V}
    (hx : xs[i]? = some x) {o : Verdict (Place V) V}
    (ho : Derives (lazyTape R) R (.whole p) x o) :
    ∃ o', Derives (Tape.ofTokens (xs.filterMap Place.token?) position) R (.whole p) i o' ∧
      o.Rel (fun x i => xs[i]? = some x) o' := by
  have hclosed : R.Closed fun _ => True := fun _ body _ _ _ => body.within_true
  have hblind : R.Blind (fun _ => True) (lazyTape R)
      (Tape.ofTokens (xs.filterMap Place.token?) position) fun x i => xs[i]? = some x := by
    intro ref body f _ _ x i y j v hx hy
    simp only [Tape.ofTokens, hposition _ _ hx, hposition _ _ hy]
    rfl
  exact ho.transfer (h.corresponds hposition) hclosed hblind .whole p.within_true hx

/-- A pattern is reported alike over a source and over its tokens, from any place on. -/
theorem derives_report_iff (h : Walks R σ xs)
    (hposition : ∀ i x, xs[i]? = some x → position i = x.position) (p : Pattern V)
    (hx : xs[i]? = some x) (r : Report Position V) :
    (∃ o, Derives (lazyTape R) R (.whole p) x o ∧ o.report Place.position x = r) ↔
      ∃ o, Derives (Tape.ofTokens (xs.filterMap Place.token?) position) R (.whole p) i o ∧
        o.report position i = r := by
  constructor
  · rintro ⟨o, ho, rfl⟩
    obtain ⟨o', ho', hrel⟩ := h.derives_tokens hposition hx ho
    exact ⟨o', ho', hrel.report hx fun _ _ hx => hposition _ _ hx⟩
  · rintro ⟨o, ho, rfl⟩
    obtain ⟨o', ho', hrel⟩ := h.derives_of_tokens hposition hx ho
    exact ⟨o', ho', hrel.report hx fun _ _ hx => (hposition _ _ hx).symm⟩

/-- A source is walked through in one way. -/
theorem unique (h : Walks R σ xs) {ys : List (Place V)} (h' : Walks R σ ys) : ys = xs := by
  induction h generalizing ys with
  | stop hx hend =>
    cases h' with
    | stop hy _ => rw [Except.ok.inj (hx.unique hy)]
    | next hy _ =>
      rw [← Except.ok.inj (hx.unique hy)] at hend
      cases hend
  | next hx _ ih =>
    cases h' with
    | stop hy hend =>
      rw [Except.ok.inj (hx.unique hy)] at hend
      cases hend
    | next hy hys =>
      cases hx.unique hy
      rw [ih hys]

end Walks

/-! ## What is reported of parses -/

omit [MatchValue V] [DecidableEq V] in
theorem Verdict.report_finding (o : Verdict (Place V) V) (x : Place V) :
    (o.finding x).report = o.report Place.position x := by
  cases o <;> rfl

omit [MatchValue V] [DecidableEq V] in
/-- What an outcome says is what is reported of it. -/
theorem Says.report {chart : Chart V} {out : Outcome V} {f : Finding V} (h : Says chart out f) :
    out.report = f.report := by
  cases h with
  | matched hx hy =>
    simp only [Outcome.report, Finding.report, Cursor.position_of_place? hx,
      Cursor.position_of_place? hy]
  | refused hx hr =>
    simp only [Outcome.report, Finding.report, Cursor.position_of_place? hx,
      Cursor.position_of_place? hr.furthest, hr.expected]
  | fault | silence => rfl

omit [MatchValue V] [DecidableEq V] in
/-- What is reported alike is reported alike up to a map of places. -/
theorem Report.map_iff {run : Nat → Option (Outcome V × World V)} {verdicts : Verdict C V → Prop}
    {place : C → Position} {x : C}
    (h : ∀ r, (∃ fuel out w', run fuel = some (out, w') ∧ out.report = r) ↔
      ∃ o, verdicts o ∧ o.report place x = r) (f : Position → Q) (r : Report Q V) :
    (∃ fuel out w', run fuel = some (out, w') ∧ out.report.map f = r) ↔
      ∃ o, verdicts o ∧ (o.report place x).map f = r := by
  constructor
  · rintro ⟨fuel, out, w', hrun, rfl⟩
    obtain ⟨o, ho, hr⟩ := (h out.report).mp ⟨fuel, out, w', hrun, rfl⟩
    exact ⟨o, ho, congrArg (Report.map f) hr⟩
  · rintro ⟨o, ho, rfl⟩
    obtain ⟨fuel, out, w', hrun, hr⟩ := (h (o.report place x)).mpr ⟨o, ho, rfl⟩
    exact ⟨fuel, out, w', hrun, congrArg (Report.map f) hr⟩

/-- What is found where a source can be read is a verdict at the first place. -/
theorem exists_finds_report_iff {p : Pattern V} (hx : Reads R σ (.ok x)) (r : Report Position V) :
    (∃ f, Finds R p σ f ∧ f.report = r) ↔
      ∃ o, Derives (lazyTape R) R (.whole p) x o ∧ o.report Place.position x = r := by
  constructor
  · rintro ⟨f, hf, rfl⟩
    cases hf with
    | unread hb => cases hx.unique hb
    | @read _ o hx' ho =>
      cases hx.unique hx'
      exact ⟨o, ho, (o.report_finding x).symm⟩
  · rintro ⟨o, ho, rfl⟩
    exact ⟨_, .read hx ho, o.report_finding x⟩

/-- **What is reported of a match is found**, and whatever is found is reported. -/
theorem Starts.report_iff_finds {d : Nat} {chart : Chart V} {w : World V} {p : Pattern V}
    {first : Delivery V} (h : Starts chart p 0 first σ)
    (hw : Poised R (fun _ => False) d chart { w with answers := [] }) (hd : σ.depth < d)
    (r : Report Position V) :
    (∃ fuel out w', runMatch fuel none first w = some (out, w') ∧ out.report = r) ↔
      ∃ f, Finds R p σ f ∧ f.report = r := by
  have hsays : ∀ {fuel out w'}, runMatch fuel none first w = some (out, w') →
      ∃ f, Finds R p σ f ∧ out.report = f.report := by
    intro fuel out w' hrun
    rcases h.runMatch_says hw hd hrun with ⟨k, hk, -⟩ | ⟨_, f, hf, hsays, -⟩
    · cases hk
    · exact ⟨f, hf, hsays.report⟩
  constructor
  · rintro ⟨fuel, out, w', hrun, rfl⟩
    obtain ⟨f, hf, hreport⟩ := hsays hrun
    exact ⟨f, hf, hreport.symm⟩
  · -- Where there is a finding there is a run, and its outcome can say nothing else.
    rintro ⟨f, hf, rfl⟩
    obtain ⟨N, hN⟩ := h.exists_runMatch hw hd hf
    obtain ⟨out, w', hrun⟩ := hN N le_rfl
    obtain ⟨f', hf', hreport⟩ := hsays hrun
    rw [hf.unique hf'] at hreport
    exact ⟨N, out, w', hrun, hreport⟩

section Parses

variable {chart : Chart V} {w : World V} {s : Stream V}
  (hcharted : Charted w.rulebook (fun _ => False) chart w.cells)
include hcharted

/-- **What is reported of a match at a cursor is derived over the tokens behind it**, if the cursor
stands at a place of a walk. -/
theorem Walks.parseAt_report_iff (h : Walks w.rulebook σ xs) {position : Nat → Position}
    (hposition : ∀ i x, xs[i]? = some x → position i = x.position) {c : Cursor V}
    (hc : c.place? chart = some x) (hx : xs[i]? = some x) (p : Pattern V) (r : Report Position V) :
    (∃ fuel out w', parseAt fuel none p c w = some (out, w') ∧ out.report = r) ↔
      ∃ o, Derives (Tape.ofTokens (xs.filterMap Place.token?) position) w.rulebook (.whole p) i o ∧
        o.report position i = r := by
  have hw : Poised w.rulebook (fun _ => False) ((Source.fixed x).depth + 1) chart
      { w with answers := [] } := ⟨rfl, hcharted, fun _ h => h.elim⟩
  have hstarts : Starts chart p 0 (.cursor (matcher p 0) c) (.fixed x) := .cursor hc
  have hreads : Reads w.rulebook (.fixed x) (.ok x) := reads_iff.mpr .fixed
  exact (hstarts.report_iff_finds hw (Nat.lt_succ_self _) r).trans
    ((exists_finds_report_iff hreads r).trans (h.derives_report_iff hposition p hx r))

variable (hs : s.source? chart = some σ)
include hs

/-- **What is reported of a parse is found**, and whatever is found is reported. -/
theorem parse_report_iff_finds (p : Pattern V) (r : Report Position V) :
    (∃ fuel out w', parse fuel none p s w = some (out, w') ∧ out.report = r) ↔
      ∃ f, Finds w.rulebook p σ f ∧ f.report = r := by
  have hw : Poised w.rulebook (fun _ => False) (σ.depth + 1) chart { w with answers := [] } :=
    ⟨rfl, hcharted, fun _ h => h.elim⟩
  have hstarts : Starts chart p 0 (.ask s (matcher p 0)) σ := .ask hs
  exact hstarts.report_iff_finds hw σ.depth.lt_succ_self r

/-- **What is reported of a parse is derived over the tokens of its stream.** -/
theorem Walks.parse_report_iff (h : Walks w.rulebook σ xs) {position : Nat → Position}
    (hposition : ∀ i x, xs[i]? = some x → position i = x.position) (p : Pattern V)
    (r : Report Position V) :
    (∃ fuel out w', parse fuel none p s w = some (out, w') ∧ out.report = r) ↔
      ∃ o, Derives (Tape.ofTokens (xs.filterMap Place.token?) position) w.rulebook (.whole p) 0 o ∧
        o.report position 0 = r := by
  obtain ⟨x, hx, hreads⟩ := h.exists_head
  rw [parse_report_iff_finds hcharted hs, exists_finds_report_iff hreads,
    h.derives_report_iff hposition p hx]

/-- What is reported of a parse, up to a map of places, is derived over the tokens of its stream. -/
theorem Walks.parse_map_report_iff (h : Walks w.rulebook σ xs) {position : Nat → Position}
    (hposition : ∀ i x, xs[i]? = some x → position i = x.position) (p : Pattern V)
    (f : Position → Q) (r : Report Q V) :
    (∃ fuel out w', parse fuel none p s w = some (out, w') ∧ out.report.map f = r) ↔
      ∃ o, Derives (Tape.ofTokens (xs.filterMap Place.token?) position) w.rulebook (.whole p) 0 o ∧
        (o.report position 0).map f = r :=
  Report.map_iff (parse_report_iff hcharted hs h hposition p) f r

end Parses

end Humus.Peg
