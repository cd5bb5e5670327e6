import Humus.Proofs.Peg.Walk

/-!
# Collecting cursors

A walk asks a stream for its cursor, and each cursor for the one behind it. The cursors that it
notes are the places of the source of the stream, in order.

## Main definitions

* `Notes chart w w' xs`: from `w` to `w'` the places `xs` were noted

## Main results

* `collect_walks`: the cursors that are collected up to an end are the places of the source
* `Walks.exists_collect`: a source that can be walked through is collected
-/

namespace Humus.Peg

open Dispatch (Effect Script Loop Stop After Safe Reaches Ends)

variable {V : Type} [MatchValue V] [DecidableEq V]

/-- The world without what a walk has noted. -/
def World.unwalked (w : World V) : World V := { w with walked := [] }

/-- A computation and the notes of a walk take `w` to `w'`. The places that were noted are `xs`. -/
structure Notes (R : Rulebook V) (B : Nat → Prop) (chart : Chart V) (w : World V)
    (chart' : Chart V) (w' : World V) (xs : List (Place V)) : Prop where
  evolves : Evolves R B chart w.unwalked chart' w'.unwalked
  walked : ∃ cs : List (Cursor V), w'.walked = cs.reverse ++ w.walked ∧
    List.Forall₂ (fun c x => Cursor.place? chart' c = some x) cs xs

/-- A walk that breaks off has noted tokens only. -/
structure NotesTokens (w w' : World V) : Prop where
  walked : ∃ cs : List (Cursor V), w'.walked = cs.reverse ++ w.walked ∧
    ∀ c ∈ cs, Cursor.isEnd c = false

/-- How a walk over a source ends. -/
inductive WalkEnds (R : Rulebook V) (B : Nat → Prop) (chart : Chart V) (w : World V)
    (σ : Source V) : Option Fault → World V → Prop where
  | walked {xs chart' w'} : Walks R σ xs → Notes R B chart w chart' w' xs →
      WalkEnds R B chart w σ none w'
  | broken {b w'} : (∀ xs, ¬ Walks R σ xs) → NotesTokens w w' →
      WalkEnds R B chart w σ (Break.fault? b) w'

variable {R : Rulebook V} {B : Nat → Prop} {d n : Nat}
  {chart chart' : Chart V} {w w' w₁ : World V} {σ : Source V} {s : Stream V} {xs : List (Place V)}

section Lists

omit [MatchValue V] [DecidableEq V]

variable {cs : List (Cursor V)}

theorem exists_mem_of_forall₂ {α β : Type} {P : α → β → Prop} {as : List α} {bs : List β}
    (h : List.Forall₂ P as bs) {a : α} (ha : a ∈ as) : ∃ b ∈ bs, P a b := by
  induction h with
  | nil => cases ha
  | @cons a' b as bs hb _ ih =>
    rcases List.mem_cons.mp ha with rfl | ha
    · exact ⟨b, List.mem_cons_self, hb⟩
    · obtain ⟨b', hb', hP⟩ := ih ha
      exact ⟨b', List.mem_cons_of_mem _ hb', hP⟩

theorem map_eq_of_forall₂ {α β γ : Type} {P : α → β → Prop} {f : α → γ} {g : β → γ} {as : List α}
    {bs : List β} (h : List.Forall₂ P as bs) (hfg : ∀ a b, P a b → f a = g b) :
    as.map f = bs.map g := by
  induction h with
  | nil => rfl
  | cons hb _ ih => rw [List.map_cons, List.map_cons, ih, hfg _ _ hb]

/-- Cursors hold the tokens of their places. -/
theorem filterMap_token?_eq
    (h : List.Forall₂ (fun c x => Cursor.place? chart c = some x) cs xs) :
    cs.filterMap Cursor.token? = xs.filterMap Place.token? := by
  induction h with
  | nil => rfl
  | @cons c x cs xs hx _ ih =>
    rw [List.filterMap_cons, List.filterMap_cons, ih, Cursor.token?_of_place? hx]

end Lists

theorem Evolves.unwalked (h : Evolves R B chart w chart' w') :
    Evolves R B chart w.unwalked chart' w'.unwalked :=
  { h with toQuiet := ⟨h.rulebook, h.answers, rfl⟩ }

/-- One more place is noted before the others. -/
theorem Notes.cons {chart₁ : Chart V} {c : Cursor V} {x : Place V}
    (h : Notes R B chart₁ { w₁ with walked := c :: w₁.walked } chart' w' xs)
    (hev : Evolves R B chart w chart₁ w₁) (hc : c.place? chart₁ = some x) :
    Notes R B chart w chart' w' (x :: xs) := by
  obtain ⟨cs, hcs, hplaces⟩ := h.walked
  refine ⟨hev.unwalked.trans h.evolves, c :: cs, ?_, .cons (c.place?_mono h.evolves.le hc) hplaces⟩
  rw [hcs, List.reverse_cons, List.append_assoc, hev.walked]
  rfl

/-- The reading behind a token ends the walk that came to the token. -/
theorem WalkEnds.next {chart₁ : Chart V} {p : Position} {v : V} {rest : Stream V} {τ : Source V}
    (hx : Reads R σ (.ok (.token p v τ))) (hev : Evolves R B chart w chart₁ w₁)
    (hτ : rest.source? chart₁ = some τ) {f : Option Fault}
    (h : WalkEnds R B chart₁ { w₁ with walked := .token p v rest :: w₁.walked } τ f w') :
    WalkEnds R B chart w σ f w' := by
  have hplace : (Cursor.token p v rest).place? chart₁ = some (.token p v τ) := by
    rw [Cursor.place?, hτ]
    rfl
  cases h with
  -- what was walked behind the token is walked behind it here too
  | walked hwalks hnotes => exact .walked (.next hx hwalks) (hnotes.cons hev hplace)
  | broken hbroken htokens =>
    -- a walk through the whole source would walk through what comes behind the token
    refine .broken (fun xs hxs => ?_) ?_
    · cases hxs with
      | stop hx' hend => cases hx.unique hx'; cases hend
      | next hx' hrest => cases hx.unique hx'; exact hbroken _ hrest
    · obtain ⟨cs, hcs, hend⟩ := htokens.walked
      refine ⟨.token p v rest :: cs, ?_, ?_⟩
      · rw [hcs, List.reverse_cons, List.append_assoc, hev.walked]
        rfl
      · intro c hc
        rcases List.mem_cons.mp hc with rfl | hc
        · rfl
        · exact hend c hc

/-- A walk that is at its end. -/
theorem WalkEnds.stop {chart₁ : Chart V} {c : Cursor V} {x : Place V} (hx : Reads R σ (.ok x))
    (hend : x.token? = none) (hev : Evolves R B chart w chart₁ w₁)
    (hc : c.place? chart₁ = some x) :
    WalkEnds R B chart w σ none { w₁ with walked := c :: w₁.walked } := by
  have hnotes : Notes R B chart₁ { w₁ with walked := c :: w₁.walked } chart₁
      { w₁ with walked := c :: w₁.walked } [] :=
    ⟨.of_cells hev.charted (.refl _) rfl, [], rfl, .nil⟩
  exact .walked (.stop hx hend) (hnotes.cons hev hc)

/-- A walk whose source cannot be read. -/
theorem WalkEnds.unread {b : Break} (hb : Reads R σ (.error b)) (hquiet : w.Quiet w') :
    WalkEnds R B chart w σ b.fault? w' := by
  refine .broken (fun xs hxs => ?_) ⟨[], hquiet.walked, fun c hc => by cases hc⟩
  cases hxs with
  | stop hx _ | next hx _ => cases hb.unique hx

/-- The thread of a walk is sound. -/
theorem walk_safe (hw : Poised R B d chart w) (hs : s.source? chart = some σ) (hd : σ.depth < d) :
    Safe receive (Remains R chart) (fun _ _ => False) (WalkEnds R B chart w σ) n
      (.ask s .walker) w := by
  -- Induction on the deliveries to come: every token starts the same thread on the stream behind
  -- it, in the world that the reading of the token has left.
  induction n using Nat.strong_induction_on generalizing chart w s σ with
  | _ n ih =>
    refine Safe.bind ((sound R n).2 hw hs hd) (fun _ hs => hs) ?_ ?_
    · rintro k hk m w₁ hremains ⟨chart₁, x, c, hev, hx, hc, rfl⟩
      refine Safe.step hremains fun j hj => ?_
      cases c with
      | token p v rest =>
        -- the token is noted, and the stream behind it is no deeper
        obtain ⟨τ, hτ, rfl⟩ := Option.map_eq_some_iff.mp hc
        have hd' : τ.depth < d := hx.depth_le.trans_lt hd
        have hev' : Evolves R B chart₁ w₁.unwalked chart₁ w₁.unwalked :=
          .of_cells hev.charted (.refl _) rfl
        have hw' : Poised R B d chart₁ { w₁ with walked := .token p v rest :: w₁.walked } :=
          ⟨(hw.evolve hev).rulebook, hev.charted, (hw.evolve hev).busy⟩
        have hrest := ih j (hj.trans_le hk) hw' hτ hd'
        exact Safe.bind hrest (fun _ h => h.of_le hev.le) (fun _ _ _ _ _ h => h.elim)
          fun f w' h => h.next hx hev hτ
      | finish p =>
        cases hc
        exact ⟨hremains.of_cells rfl rfl, WalkEnds.stop hx rfl hev rfl⟩
      | stalled p f =>
        cases hc
        exact ⟨hremains.of_cells rfl rfl, WalkEnds.stop hx rfl hev rfl⟩
    · rintro f w' ⟨b, hb, rfl, hquiet⟩
      exact .unread hb hquiet

/-- The thread of a walk over a source that can be walked through comes to its end. -/
theorem Walks.reaches (h : Walks R σ xs) (hw : Poised R B d chart w)
    (hs : s.source? chart = some σ) (hd : σ.depth < d) :
    Reaches receive (fun _ _ => False) (fun f _ => f = none) (.ask s .walker) w := by
  induction h generalizing chart w s with
  | @stop σ x hx hend =>
    refine Reaches.bind (hx.fetchesTo hw hs hd) ?_ ?_
    · rintro m w₁ ⟨chart₁, y, c, hev, hy, hc, rfl⟩
      cases hy
      -- the walk stops at an end, and no token is an end
      cases c with
      | token p v rest =>
        obtain ⟨τ, -, rfl⟩ := Option.map_eq_some_iff.mp hc
        cases hend
      | finish | stalled => exact .stop rfl
    · rintro f w' ⟨b, hb, -⟩
      cases hb
  | @next σ p v τ xs hx _ ih =>
    refine Reaches.bind (hx.fetchesTo hw hs hd) ?_ ?_
    · rintro m w₁ ⟨chart₁, y, c, hev, hy, hc, rfl⟩
      cases hy
      cases c with
      | token p v rest =>
        obtain ⟨_, hτ, he⟩ := Option.map_eq_some_iff.mp hc
        cases he
        have hw' : Poised R B d chart₁ { w₁ with walked := .token p v rest :: w₁.walked } :=
          ⟨(hw.evolve hev).rulebook, hev.charted, (hw.evolve hev).busy⟩
        exact .send rfl (ih hw' hτ (hx.depth_le.trans_lt hd))
      | finish | stalled => cases hc
    · rintro f w' ⟨b, hb, -⟩
      cases hb

/-! ## Runs -/

variable {fuel : Nat} {limit : Option Nat}

/-- How the run of a walk ends. -/
theorem collect_ends (hw : Poised R B d chart w.unwalked) (hs : s.source? chart = some σ)
    (hd : σ.depth < d) {result : Except (Stop Fault) (List (Cursor V))}
    (hrun : collect fuel limit s w = some (result, w')) :
    (∃ k, limit = some k ∧ result = .error (.limit k)) ∨
    (∃ f, result = .error (.fault f) ∧ ∀ xs, ¬ Walks R σ xs) ∨
    (∃ cs, result = .ok cs ∧ (∀ xs, ¬ Walks R σ xs) ∧ ∀ c ∈ cs, c.isEnd = false) ∨
    ∃ cs xs chart', result = .ok cs ∧ Walks R σ xs ∧
      List.Forall₂ (fun c x => Cursor.place? chart' c = some x) cs xs ∧
      Evolves R B chart w.unwalked chart' w' := by
  simp only [collect, Option.bind_eq_bind, Option.bind_eq_some_iff, Option.pure_def,
    Option.some.injEq, Prod.mk.injEq] at hrun
  obtain ⟨⟨run, loop, w₁⟩, hrun, rfl, rfl⟩ := hrun
  have hsafe : Safe receive (Remains R chart) (fun _ _ => False)
      (WalkEnds R B chart w.unwalked σ) fuel (.ask s .walker) w.unwalked := walk_safe hw hs hd
  rcases Loop.runFrom_safe (fun _ _ h => h.elim) hsafe (Loop.holds_send_fresh limit _) hrun with
    hends | ⟨k, hk, rfl, -⟩
  · right
    cases hends with
    | answered h _ => exact h.elim
    | idle h =>
      obtain ⟨-, h⟩ := h
      -- The walk came to an end, or something below fell silent behind the cursors noted so far.
      right
      generalize he : (none : Option Fault) = f at h
      cases h with
      | walked hwalks hnotes =>
        obtain ⟨cs, hcs, hplaces⟩ := hnotes.walked
        have hcs : w₁.walked = cs.reverse := by
          rw [hcs]
          exact List.append_nil _
        refine .inr ⟨cs, _, _, ?_, hwalks, hplaces, hnotes.evolves⟩
        simp only [Except.map, hcs, List.reverse_reverse]
      | broken hbroken htokens =>
        obtain ⟨cs, hcs, hend⟩ := htokens.walked
        have hcs : w₁.walked = cs.reverse := by
          rw [hcs]
          exact List.append_nil _
        refine .inl ⟨cs, ?_, hbroken, hend⟩
        simp only [Except.map, hcs, List.reverse_reverse]
    | @fault f _ h =>
      obtain ⟨-, h⟩ := h
      -- A fault halts the loop, which no walk to an end does.
      generalize he : some f = g at h
      cases h with
      | walked _ _ => cases he
      | broken hbroken _ => exact .inl ⟨f, rfl, hbroken⟩
  · exact .inl ⟨k, hk, rfl⟩

/-- **The cursors that are collected up to an end are the places of the source.** -/
theorem collect_walks (hw : Poised R B d chart w.unwalked) (hs : s.source? chart = some σ)
    (hd : σ.depth < d) {cs : List (Cursor V)} {last : Cursor V}
    (hrun : collect fuel limit s w = some (.ok (cs ++ [last]), w')) (hlast : last.isEnd = true) :
    ∃ xs chart', Walks R σ xs ∧
      List.Forall₂ (fun c x => Cursor.place? chart' c = some x) (cs ++ [last]) xs ∧
      Evolves R B chart w.unwalked chart' w' := by
  rcases collect_ends hw hs hd hrun with
    ⟨_, -, h⟩ | ⟨_, h, -⟩ | ⟨_, h, -, hend⟩ | ⟨_, xs, chart', h, hwalks, hplaces, hev⟩
  · cases h
  · cases h
  · cases h
    have hfalse := hend last (List.mem_append_right _ (List.mem_singleton_self _))
    rw [hlast] at hfalse
    cases hfalse
  · cases h
    exact ⟨xs, chart', hwalks, hplaces, hev⟩

/-- **A source that can be walked through is collected.** -/
theorem Walks.exists_collect (h : Walks R σ xs) (hw : Poised R B d chart w.unwalked)
    (hs : s.source? chart = some σ) (hd : σ.depth < d) :
    ∃ N, ∀ fuel, N ≤ fuel → ∃ result w', collect fuel none s w = some (result, w') := by
  obtain ⟨N, hN⟩ := Loop.exists_runFrom (fun _ _ h => h.elim) (h.reaches hw hs hd)
    (Loop.holds_send_fresh none _) rfl 0
  refine ⟨N, fun fuel hfuel => ?_⟩
  obtain ⟨result, loop, w₁, hrun, -⟩ := hN fuel hfuel
  have hrun' : runLoop fuel none [.ask s .walker] { w with walked := [] } =
      some (result, loop, w₁) := hrun
  exact ⟨result.map fun _ => w₁.walked.reverse, { w₁ with walked := [] }, by
    simp only [collect, hrun']
    rfl⟩

end Humus.Peg
