import Humus.Proofs.Peg.Source

/-!
# Charts

The cursors and streams of a running computation refer to derived streams by the numbers of their
cells. A chart says which source each cell is the first place of, and so writes out every cursor
and every stream. The cells of a chart remember what their sources read, and nothing else.

A cell is busy while its cursor is computed. Its computation reads the layers below only, so that
no busy cell is asked again before it is done.

## Main definitions

* `Chart V`, `Cursor.place?`, `Stream.source?`: cursors and streams, written out by a chart
* `World.rulebook w`: the rules of the grammars of a world
* `Charted R B chart cells`: the cells are those of the chart, and only those of `B` are busy
* `Follows R chart w`, `Remains R chart w`: the world has the cells of the chart, busy or not
* `Poised R B d chart w`: what stands on fewer than `d` layers can be asked for
* `Evolves R B chart w chart' w'`: what a computation may change that leaves the cells of `B` alone

## Main results

* `Evolves.trans`: computations follow one another
* `Evolves.push`, `Evolves.settle`: a cell is added, and a busy cell is done
-/

namespace Humus.Peg

variable {V : Type}

/-- Which source each cell is the first place of. -/
abbrev Chart (V : Type) := Nat → Option (Source V)

/-- What a stalled cursor tells of the failure it carries. -/
def Failure.stall (f : Failure V) : Stall V :=
  ⟨f.position.position, f.furthest.position, f.furthest.token?, f.expected⟩

mutual

/-- The place that a cursor is. -/
def Cursor.place? (chart : Chart V) : Cursor V → Option (Place V)
  | .token p v rest => (rest.source? chart).map (.token p v)
  | .finish p => some (.finish p)
  | .stalled p f => some (.stalled p f.stall)

/-- The source that a stream is. -/
def Stream.source? (chart : Chart V) : Stream V → Option (Source V)
  | .chars text p => some (.chars text p)
  | .values items index => some (.values items index)
  | .fixed c => (c.place? chart).map .fixed
  | .derived cell => chart cell
  | .silent => some .silent

end

/-- The source below a cell. -/
def Base.source? (chart : Chart V) : Base V → Option (Source V)
  | .stream s => s.source? chart
  | .cursor c => (c.place? chart).map .fixed

/-- One chart says no less than another. -/
def Chart.Le (chart chart' : Chart V) : Prop :=
  ∀ id σ, chart id = some σ → chart' id = some σ

section Growth

variable {chart chart' : Chart V}

mutual

theorem Cursor.place?_mono (h : chart.Le chart') :
    ∀ (c : Cursor V) {x : Place V}, c.place? chart = some x → c.place? chart' = some x
  | .token p v rest, x, hx => by
    simp only [Cursor.place?, Option.map_eq_some_iff] at hx ⊢
    obtain ⟨σ, hσ, rfl⟩ := hx
    exact ⟨σ, Stream.source?_mono h rest hσ, rfl⟩
  | .finish _, _, hx | .stalled _ _, _, hx => hx

theorem Stream.source?_mono (h : chart.Le chart') :
    ∀ (s : Stream V) {σ : Source V}, s.source? chart = some σ → s.source? chart' = some σ
  | .fixed c, σ, hσ => by
    simp only [Stream.source?, Option.map_eq_some_iff] at hσ ⊢
    obtain ⟨x, hx, rfl⟩ := hσ
    exact ⟨x, Cursor.place?_mono h c hx, rfl⟩
  | .derived cell, σ, hσ => h cell σ hσ
  | .chars .., _, hσ | .values .., _, hσ | .silent, _, hσ => hσ

end

theorem Base.source?_mono (h : chart.Le chart') {b : Base V} {σ : Source V}
    (hσ : b.source? chart = some σ) : b.source? chart' = some σ := by
  cases b with
  | stream s => exact s.source?_mono h hσ
  | cursor c =>
    simp only [Base.source?, Option.map_eq_some_iff] at hσ ⊢
    obtain ⟨x, hx, rfl⟩ := hσ
    exact ⟨x, c.place?_mono h hx, rfl⟩

theorem Chart.Le.refl (chart : Chart V) : chart.Le chart := fun _ _ h => h

theorem Chart.Le.trans {chart'' : Chart V} (h : chart.Le chart') (h' : chart'.Le chart'') :
    chart.Le chart'' := fun id σ hσ => h' id σ (h id σ hσ)

end Growth

section Places

variable {chart : Chart V} {c : Cursor V} {x : Place V}

theorem Cursor.position_of_place? (h : c.place? chart = some x) : x.position = c.position := by
  cases c with
  | token p v rest =>
    simp only [Cursor.place?, Option.map_eq_some_iff] at h
    obtain ⟨σ, -, rfl⟩ := h
    rfl
  | finish | stalled => cases h; rfl

theorem Cursor.offset_of_place? (h : c.place? chart = some x) : x.offset = c.offset :=
  congrArg Position.offset (Cursor.position_of_place? h)

theorem Cursor.token?_of_place? (h : c.place? chart = some x) : x.token? = c.token? := by
  cases c with
  | token p v rest =>
    simp only [Cursor.place?, Option.map_eq_some_iff] at h
    obtain ⟨σ, -, rfl⟩ := h
    rfl
  | finish | stalled => cases h; rfl

theorem Cursor.isEnd_eq (c : Cursor V) : c.isEnd = c.token?.isNone := by
  cases c <;> rfl

end Places

/-! ## Rules -/

namespace World

/-- The rules of the grammars of a world. -/
def rulebook (w : World V) : Rulebook V := fun ref =>
  match w.grammar? ref.grammar with
  | none => .error (.detached ref.name)
  | some g =>
    match (g.rule? ref.name).getD {} with
    | { body := none, .. } => .error (.undefined ref.name)
    | { body := some body, transform } => .ok (body, transform)

/-- What the rulebook knows of a rule is written in one of the grammars. -/
theorem mem_of_rulebook {w : World V} {ref : RuleRef} {body : Pattern V}
    {transform : Option (Transform V)} (h : w.rulebook ref = .ok (body, transform)) :
    ∃ g rule, some g ∈ w.grammars ∧ (ref.name, rule) ∈ g.rules ∧ rule.body = some body ∧
      rule.transform = transform := by
  unfold rulebook at h
  cases hg : w.grammar? ref.grammar with
  | none =>
    simp only [hg] at h
    cases h
  | some g =>
    cases hr : g.rule? ref.name with
    | none =>
      simp only [hg, hr, Option.getD_none] at h
      cases h
    | some rule =>
      simp only [hg, hr, Option.getD_some] at h
      obtain ⟨_ | body', transform'⟩ := rule
      · cases h
      · cases h
        refine ⟨g, { body := some body, transform }, ?_, ?_, rfl, rfl⟩
        · exact Array.mem_of_getElem? (Option.join_eq_some_iff.mp hg)
        · obtain ⟨l₁, l₂, hl, -⟩ := List.lookup_eq_some_iff.mp hr
          rw [hl]
          exact List.mem_append_right _ List.mem_cons_self

theorem grammar?_setGrammar (w : World V) (id i : Nat) (g : Option (Grammar V)) :
    (w.setGrammar id g).grammar? i =
      if i = id ∧ id < w.grammars.size then g else w.grammar? i := by
  simp only [World.grammar?, World.setGrammar, Array.getElem?_setIfInBounds]
  by_cases hi : id = i
  · subst hi
    by_cases hlt : id < w.grammars.size <;> simp [hlt]
  · simp [hi, Ne.symm hi]

/-- To seal a grammar changes no rule. -/
@[simp] theorem rulebook_sealGrammar (w : World V) (id : Nat) :
    (w.sealGrammar id).rulebook = w.rulebook := by
  unfold sealGrammar
  cases hg : w.grammar? id with
  | none => rfl
  | some g =>
    dsimp only
    split_ifs
    · rfl
    · funext ref
      simp only [rulebook, grammar?_setGrammar]
      by_cases hi : ref.grammar = id ∧ id < w.grammars.size
      · rw [if_pos hi, hi.1, hg]
        rfl
      · rw [if_neg hi]

/-- To seal a grammar changes nothing but the grammars. -/
theorem sealGrammar_eq (w : World V) (id : Nat) :
    w.sealGrammar id = { w with grammars := (w.sealGrammar id).grammars } := by
  unfold sealGrammar
  split
  · split_ifs <;> rfl
  · rfl

@[simp] theorem cells_sealGrammar (w : World V) (id : Nat) : (w.sealGrammar id).cells = w.cells := by
  rw [sealGrammar_eq]

@[simp] theorem answers_sealGrammar (w : World V) (id : Nat) :
    (w.sealGrammar id).answers = w.answers := by
  rw [sealGrammar_eq]

@[simp] theorem walked_sealGrammar (w : World V) (id : Nat) :
    (w.sealGrammar id).walked = w.walked := by
  rw [sealGrammar_eq]

@[simp] theorem invocations_sealGrammar (w : World V) (id : Nat) :
    (w.sealGrammar id).invocations = w.invocations := by
  rw [sealGrammar_eq]

theorem getElem?_setMemo (w : World V) (id i : Nat) (memo : Memo V) :
    (w.setMemo id memo).cells[i]? =
      if id = i then w.cells[i]?.map ({ · with memo }) else w.cells[i]? := by
  simp only [setMemo, Array.getElem?_modify]

@[simp] theorem size_setMemo (w : World V) (id : Nat) (memo : Memo V) :
    (w.setMemo id memo).cells.size = w.cells.size := by
  simp [setMemo]

end World

/-- A request to a rule, by what the rulebook says of the rule. -/
theorem matchRule_eq (ref : RuleRef) (r : Request V) (w : World V) :
    matchRule ref r w =
      match w.rulebook ref with
      | .error fault => ([.halt fault], w.sealGrammar ref.grammar)
      | .ok (body, transform) =>
        (ask body r.input
            (match transform with
              | none => r.ok
              | some f => .transform ref f r.ok)
            (.relabel ref.name r.fail),
          w.sealGrammar ref.grammar) := by
  unfold matchRule World.rulebook
  cases hg : w.grammar? ref.grammar with
  | none => simp only [World.sealGrammar, hg]
  | some g =>
    dsimp only
    generalize (g.rule? ref.name).getD {} = rule
    obtain ⟨_ | body, transform⟩ := rule <;> rfl

/-! ## Cells of a chart -/

section Cells

variable [MatchValue V] [DecidableEq V]

/-- What is remembered is what the source reads. -/
def Memo.Fits (R : Rulebook V) (busy : Prop) (chart : Chart V) (σ : Source V) : Memo V → Prop
  | .idle => True
  | .pending _ => busy
  | .ready c => ∃ x, Reads R σ (.ok x) ∧ c.place? chart = some x

/-- The cell is the first place of the source. -/
structure Cell.Fits (R : Rulebook V) (busy : Prop) (chart : Chart V) (σ : Source V)
    (cell : Cell V) : Prop where
  base : ∃ β, cell.base.source? chart = some β ∧ σ = .derived β cell.skip cell.token cell.index
  memo : cell.memo.Fits R busy chart σ

/-- The cells are those of the chart. Only cells of `B` are being computed. -/
def Charted (R : Rulebook V) (B : Nat → Prop) (chart : Chart V) (cells : Array (Cell V)) : Prop :=
  ∀ id σ, chart id = some σ → ∃ cell, cells[id]? = some cell ∧ cell.Fits R (B id) chart σ

variable {R : Rulebook V} {B B' : Nat → Prop} {chart chart' chart'' : Chart V} {σ : Source V}
  {cells : Array (Cell V)}

theorem Memo.Fits.imp {busy busy' : Prop} {memo : Memo V} (h : memo.Fits R busy chart σ)
    (hbusy : busy → busy') (hle : chart.Le chart') : memo.Fits R busy' chart' σ := by
  cases memo with
  | idle => trivial
  | pending customers => exact hbusy h
  | ready c =>
    obtain ⟨x, hx, hc⟩ := h
    exact ⟨x, hx, c.place?_mono hle hc⟩

theorem Cell.Fits.imp {busy busy' : Prop} {cell : Cell V} (h : cell.Fits R busy chart σ)
    (hbusy : busy → busy') (hle : chart.Le chart') : cell.Fits R busy' chart' σ := by
  obtain ⟨β, hβ, hσ⟩ := h.base
  exact ⟨⟨β, Base.source?_mono hle hβ, hσ⟩, h.memo.imp hbusy hle⟩

theorem Charted.lt_size (h : Charted R B chart cells) {id : Nat} (hid : chart id = some σ) :
    id < cells.size := by
  obtain ⟨cell, hcell, -⟩ := h id σ hid
  exact (Array.getElem?_eq_some_iff.mp hcell).1

theorem Charted.imp (h : Charted R B chart cells) (hB : ∀ id, B id → B' id) :
    Charted R B' chart cells := by
  intro id σ hid
  obtain ⟨cell, hcell, hfits⟩ := h id σ hid
  exact ⟨cell, hcell, hfits.imp (hB id) (.refl chart)⟩

/-- The chart that no cell is on holds of all cells. -/
theorem Charted.empty : Charted R B (fun _ => none) cells := by
  intro id σ h
  cases h

/-- A cell is added that nobody has asked yet. -/
theorem Charted.push (h : Charted R B chart cells) {cell : Cell V} (hcell : cell.memo = .idle)
    {β : Source V} (hβ : cell.base.source? chart = some β) :
    Charted R B
      (Function.update chart cells.size (some (.derived β cell.skip cell.token cell.index)))
      (cells.push cell) ∧
    chart.Le (Function.update chart cells.size
      (some (.derived β cell.skip cell.token cell.index))) := by
  have hle : chart.Le (Function.update chart cells.size
      (some (.derived β cell.skip cell.token cell.index))) := by
    intro id σ hid
    rw [Function.update_of_ne (h.lt_size hid).ne]
    exact hid
  refine ⟨fun id σ hid => ?_, hle⟩
  by_cases hsize : id = cells.size
  · -- the new cell is idle, and fits whatever its source reads
    subst hsize
    rw [Function.update_self] at hid
    cases hid
    refine ⟨cell, Array.getElem?_push_size, ⟨β, Base.source?_mono hle hβ, rfl⟩, ?_⟩
    rw [hcell]
    trivial
  · rw [Function.update_of_ne hsize] at hid
    obtain ⟨old, hold, hfits⟩ := h id σ hid
    refine ⟨old, ?_, hfits.imp (fun h => h) hle⟩
    rw [Array.getElem?_push, if_neg hsize]
    exact hold

/-- The memo of one cell is changed to one that fits, and the cell may become busy or not. -/
theorem Charted.modify (h : Charted R B chart cells) {id : Nat} {memo : Memo V}
    (hmemo : ∀ σ, chart id = some σ → memo.Fits R (B' id) chart σ)
    (hB : ∀ i, i ≠ id → B i → B' i) :
    Charted R B' chart (cells.modify id ({ · with memo })) := by
  intro i σ hi
  obtain ⟨cell, hcell, hfits⟩ := h i σ hi
  rw [Array.getElem?_modify]
  by_cases hid : id = i
  · subst hid
    exact ⟨{ cell with memo }, by rw [if_pos rfl, hcell]; rfl, hfits.base, hmemo σ hi⟩
  · exact ⟨cell, by rw [if_neg hid, hcell], hfits.imp (hB i (Ne.symm hid)) (.refl chart)⟩

/-! ## Computations -/

/-- What stands on fewer than `d` layers can be asked for: every busy cell stands on more. -/
structure Poised (R : Rulebook V) (B : Nat → Prop) (d : Nat) (chart : Chart V) (w : World V) :
    Prop where
  rulebook : w.rulebook = R
  charted : Charted R B chart w.cells
  busy : ∀ id, B id → ∃ σ, chart id = some σ ∧ d ≤ σ.depth

/-- The world has the rules `R` and the cells of the chart, busy or not. -/
structure Follows (R : Rulebook V) (chart : Chart V) (w : World V) : Prop where
  rulebook : w.rulebook = R
  charted : Charted R (fun _ => True) chart w.cells

/-- The world follows a chart that says no less. -/
def Remains (R : Rulebook V) (chart : Chart V) (w : World V) : Prop :=
  ∃ chart', chart.Le chart' ∧ Follows R chart' w

/-- The rules are what they were, and nothing was answered. -/
structure World.Quiet (w w' : World V) : Prop where
  rulebook : w'.rulebook = w.rulebook
  answers : w'.answers = w.answers
  walked : w'.walked = w.walked

/-- A computation that takes `w` to `w'` answers nothing and adds to the chart only the cells that
it adds to the world. Of the old cells it may change those of the chart that are not in `B`. -/
structure Evolves (R : Rulebook V) (B : Nat → Prop) (chart : Chart V) (w : World V)
    (chart' : Chart V) (w' : World V) : Prop extends w.Quiet w' where
  charted : Charted R B chart' w'.cells
  le : chart.Le chart'
  size_le : w.cells.size ≤ w'.cells.size
  old : ∀ id σ, id < w.cells.size → chart' id = some σ → chart id = some σ
  new : ∀ id, w.cells.size ≤ id → id < w'.cells.size → ∃ σ, chart' id = some σ
  frame : ∀ id, id < w.cells.size → B id ∨ chart id = none → w'.cells[id]? = w.cells[id]?

variable {w w' w'' : World V}

omit [MatchValue V] [DecidableEq V] in
theorem World.Quiet.refl (w : World V) : w.Quiet w := ⟨rfl, rfl, rfl⟩

omit [MatchValue V] [DecidableEq V] in
theorem World.Quiet.trans (h : w.Quiet w') (h' : w'.Quiet w'') : w.Quiet w'' :=
  ⟨h'.rulebook.trans h.rulebook, h'.answers.trans h.answers, h'.walked.trans h.walked⟩

/-- A computation that changes no cell. -/
theorem Evolves.of_cells (h : Charted R B chart w.cells) (hquiet : w.Quiet w')
    (hcells : w'.cells = w.cells) : Evolves R B chart w chart w' where
  toQuiet := hquiet
  charted := hcells ▸ h
  le := .refl chart
  size_le := (congrArg Array.size hcells).ge
  old _ _ _ h := h
  new id h h' := absurd (hcells ▸ h') h.not_gt
  frame id _ _ := by rw [hcells]

/-- **Computations follow one another.** -/
theorem Evolves.trans (h : Evolves R B chart w chart' w')
    (h' : Evolves R B chart' w' chart'' w'') : Evolves R B chart w chart'' w'' where
  toQuiet := h.toQuiet.trans h'.toQuiet
  charted := h'.charted
  le := h.le.trans h'.le
  size_le := h.size_le.trans h'.size_le
  old id σ hid hσ := h.old id σ hid (h'.old id σ (hid.trans_le h.size_le) hσ)
  new id hid hid' := by
    -- the cell was added by the first computation or by the second
    by_cases hlt : id < w'.cells.size
    · obtain ⟨σ, hσ⟩ := h.new id hid hlt
      exact ⟨σ, h'.le id σ hσ⟩
    · exact h'.new id (not_lt.mp hlt) hid'
  frame id hid hB := by
    -- an old cell that is off the first chart is off the second one as well
    have hB' : B id ∨ chart' id = none := by
      rcases hB with hB | hnone
      · exact .inl hB
      · refine .inr (Option.eq_none_iff_forall_ne_some.mpr fun σ hσ => ?_)
        rw [h.old id σ hid hσ] at hnone
        cases hnone
    rw [h'.frame id (hid.trans_le h.size_le) hB', h.frame id hid hB]

theorem Poised.evolve {d : Nat} (h : Poised R B d chart w) (h' : Evolves R B chart w chart' w') :
    Poised R B d chart' w' where
  rulebook := h'.rulebook.trans h.rulebook
  charted := h'.charted
  busy id hid := by
    obtain ⟨σ, hσ, hd⟩ := h.busy id hid
    exact ⟨σ, h'.le id σ hσ, hd⟩

/-- The handling of a message that changes no cell. -/
theorem Follows.of_cells (hw : Follows R chart w) (hrulebook : w'.rulebook = w.rulebook)
    (hcells : w'.cells = w.cells) : Follows R chart w' where
  rulebook := hrulebook.trans hw.rulebook
  charted := hcells ▸ hw.charted

theorem Remains.of_cells (h : Remains R chart w) (hrulebook : w'.rulebook = w.rulebook)
    (hcells : w'.cells = w.cells) : Remains R chart w' := by
  obtain ⟨chart', hle, hw⟩ := h
  exact ⟨chart', hle, hw.of_cells hrulebook hcells⟩

theorem Remains.of_le (h : Remains R chart' w) (hle : chart.Le chart') : Remains R chart w := by
  obtain ⟨chart'', hle', hw⟩ := h
  exact ⟨chart'', hle.trans hle', hw⟩

theorem Evolves.remains (h : Evolves R B chart w chart' w') (hw : w.rulebook = R) :
    Remains R chart w' :=
  ⟨chart', h.le, h.rulebook.trans hw, h.charted.imp fun _ _ => trivial⟩

/-- What stands on fewer layers than every busy cell is not busy. -/
theorem Poised.not_busy {d id : Nat} (h : Poised R B d chart w) (hid : chart id = some σ)
    (hd : σ.depth < d) : ¬ B id := by
  intro hB
  obtain ⟨σ', hσ', hd'⟩ := h.busy id hB
  cases hid.symm.trans hσ'
  exact absurd hd hd'.not_gt

/-- A computation adds a cell. -/
theorem Evolves.push (h : Evolves R B chart w chart' w') (cell : Cell V)
    (hcell : cell.memo = .idle) {β : Source V} (hβ : cell.base.source? chart' = some β) :
    ∃ chart'', chart'.Le chart'' ∧
      chart'' w'.cells.size = some (.derived β cell.skip cell.token cell.index) ∧
      Evolves R B chart w chart'' (w'.addCell cell).2 := by
  obtain ⟨hcharted, hle⟩ := h.charted.push hcell hβ
  refine ⟨_, hle, Function.update_self .., ?_⟩
  refine h.trans
    { toQuiet := ⟨rfl, rfl, rfl⟩, charted := hcharted, le := hle, size_le := ?_, old := ?_,
      new := ?_, frame := ?_ }
  · simp [World.addCell]
  · intro id σ hid hσ
    rw [Function.update_of_ne hid.ne] at hσ
    exact hσ
  · intro id hid hid'
    obtain rfl : id = w'.cells.size := by
      simp only [World.addCell, Array.size_push] at hid'
      omega
    exact ⟨_, Function.update_self ..⟩
  · intro id hid _
    simp only [World.addCell, Array.getElem?_push, if_neg hid.ne]

/-- A stream that is derived from one that can be written out can be written out. -/
theorem World.exists_source_derive (w : World V) {source : Stream V} {below : Source V}
    (skip : Option (Pattern V)) (token : Pattern V)
    (hcharted : Charted R (fun _ => False) chart w.cells)
    (hsource : source.source? chart = some below) :
    ∃ chart', chart.Le chart' ∧
      Charted R (fun _ => False) chart' (w.derive source skip token).2.cells ∧
      (w.derive source skip token).1.source? chart' = some (.derived below skip token 0) := by
  have hrefl : Evolves R (fun _ => False) chart w chart w := .of_cells hcharted (.refl w) rfl
  obtain ⟨chart', hle, hnew, hev⟩ := hrefl.push
    { base := .stream source, skip, token, index := 0, memo := .idle } rfl hsource
  exact ⟨chart', hle, hev.charted, hnew⟩

variable {id : Nat} {customers : List (OnCursor V)}

/-- To compute a cell, make it busy: what stands on fewer layers can then be asked for. -/
theorem Poised.start {d : Nat} (h : Poised R B d chart w) (hid : chart id = some σ)
    (hd : σ.depth < d) :
    Poised R (fun i => B i ∨ i = id) σ.depth chart (w.setMemo id (.pending customers)) where
  rulebook := h.rulebook
  charted := h.charted.modify (fun _ _ => .inr rfl) fun _ _ h => .inl h
  busy i hi := by
    rcases hi with hi | rfl
    · obtain ⟨σ', hσ', hd'⟩ := h.busy i hi
      exact ⟨σ', hσ', hd.le.trans hd'⟩
    · exact ⟨σ, hid, le_rfl⟩

/-- A busy cell is done: it remembers what its source reads. -/
theorem Evolves.settle (hid : chart id = some σ) (hB : ¬ B id)
    (h : Evolves R (fun i => B i ∨ i = id) chart (w.setMemo id (.pending customers)) chart' w')
    {c : Cursor V} {x : Place V} (hx : Reads R σ (.ok x)) (hc : c.place? chart' = some x) :
    Evolves R B chart w chart' (w'.setMemo id (.ready c)) where
  toQuiet := ⟨h.rulebook, h.answers, h.walked⟩
  charted := by
    -- The chart still says of the cell what it said before the computation.
    refine h.charted.modify (fun σ' hσ' => ?_) fun i hi hB' => hB'.resolve_right hi
    cases (h.le id σ hid).symm.trans hσ'
    exact ⟨x, hx, hc⟩
  le := h.le
  size_le := by simpa using h.size_le
  old i σ' hi := h.old i σ' (by simpa using hi)
  new i hi hi' := h.new i (by simpa using hi) (by simpa using hi')
  frame i hi hB' := by
    -- the cell itself is on the chart and was not busy
    have hne : id ≠ i := by
      rintro rfl
      rcases hB' with hB' | hnone
      · exact hB hB'
      · rw [hid] at hnone
        cases hnone
    rw [World.getElem?_setMemo, if_neg hne, h.frame i (by simpa using hi) (hB'.imp_left .inl),
      World.getElem?_setMemo, if_neg hne]

/-- What a busy cell is to be is not changed by the computations below it. -/
theorem Evolves.busy {B : Nat → Prop} {cell : Cell V} (hcell : w.cells[id]? = some cell)
    (hB : B id) (h : Evolves R B chart (w.setMemo id (.pending customers)) chart' w') :
    w'.cells[id]? = some { cell with memo := .pending customers } := by
  have hid : id < w.cells.size := (Array.getElem?_eq_some_iff.mp hcell).1
  rw [h.frame id (by simpa using hid) (.inl hB), World.getElem?_setMemo, if_pos rfl, hcell]
  rfl

end Cells

end Humus.Peg
