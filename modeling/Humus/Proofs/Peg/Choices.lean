import Humus.Proofs.Peg.Order
import Mathlib.Data.List.Forall2

/-!
# Choices

A choice is answered by the first of its alternatives that is not refused. If all are, their refusals
are merged. Merging is associative, and over places in order a refusal that names nothing at the
start is neutral, so that it does not matter how the alternatives of a choice are grouped, for what
is matched nor for what is reported.

## Main definitions

* `Tape.mergeAll x rs`: the refusals `rs` of alternatives at `x`, merged
* `AllRefused T R x ps rs`: the patterns `ps` are refused at `x`, with the refusals `rs`
* `Chooses T R x ps o`: the first pattern of `ps` that is not refused at `x` comes to `o`
* `Refusal.Sound T x r`: what a refusal of a match that was tried at `x` is like

## Main results

* `Failure.merge_assoc`, `Tape.merge_assoc`: merging is associative
* `Derives.choice_iff`: what a choice comes to, by its alternatives
* `choice_associative`: choices may be regrouped
-/

namespace Humus.Peg

variable {C V : Type}

/-! ## Merging -/

section Merging

variable [DecidableEq V] {T : Tape C V} {x : C} {r r' : Refusal C V} {rs : List (Refusal C V)}

theorem Failure.union_assoc (a b c : List (Expected V)) :
    union (union a b) c = union a (union b c) := by
  induction c using List.reverseRecOn with
  | nil => rfl
  | append_singleton c e ih =>
    rw [union_concat, ih, union_concat]
    by_cases hmem : e ∈ union b c
    · rw [if_pos hmem, if_pos (mem_union.mpr (.inr hmem))]
    · rw [if_neg hmem, union_concat]

theorem Failure.union_nil_left {l : List (Expected V)} (h : l.Nodup) : union [] l = l := by
  induction l using List.reverseRecOn with
  | nil => rfl
  | append_singleton l e ih =>
    obtain ⟨hl, -, hdisjoint⟩ := List.nodup_append.mp h
    have hmem : e ∉ l := fun hmem => hdisjoint e hmem e (List.mem_singleton_self e) rfl
    rw [union_concat, ih hl, if_neg hmem]

variable (T) in
theorem Tape.merge_of_lt (r r' : Refusal C V) (h : T.offset r.furthest < T.offset r'.furthest) :
    T.merge r r' = r' :=
  if_pos h

variable (T) in
theorem Tape.merge_of_gt (r r' : Refusal C V) (h : T.offset r'.furthest < T.offset r.furthest) :
    T.merge r r' = r := by
  rw [Tape.merge, if_neg h.not_gt, if_pos h]

variable (T) in
theorem Tape.merge_of_eq (r r' : Refusal C V) (h : T.offset r.furthest = T.offset r'.furthest) :
    T.merge r r' = ⟨r.furthest, Failure.union r.expected r'.expected⟩ := by
  rw [Tape.merge, if_neg h.not_lt, if_neg h.not_gt]

theorem Tape.offset_merge (r r' : Refusal C V) :
    T.offset (T.merge r r').furthest = max (T.offset r.furthest) (T.offset r'.furthest) := by
  rcases lt_trichotomy (T.offset r.furthest) (T.offset r'.furthest) with hlt | heq | hgt
  · rw [T.merge_of_lt r r' hlt, max_eq_right hlt.le]
  · rw [T.merge_of_eq r r' heq, max_eq_left heq.ge]
  · rw [T.merge_of_gt r r' hgt, max_eq_left hgt.le]

variable (T) in
/-- **Merging refusals is associative.** -/
theorem Tape.merge_assoc (a b c : Refusal C V) :
    T.merge (T.merge a b) c = T.merge a (T.merge b c) := by
  have hab := T.offset_merge a b
  have hbc := T.offset_merge b c
  rcases lt_trichotomy (T.offset a.furthest) (T.offset b.furthest) with hlt | heq | hgt
  · -- the first does not count
    rw [T.merge_of_lt a b hlt]
    exact (T.merge_of_lt a (T.merge b c) (by omega)).symm
  · rcases lt_trichotomy (T.offset b.furthest) (T.offset c.furthest) with hlt' | heq' | hgt'
    · rw [T.merge_of_lt b c hlt', T.merge_of_lt a c (by omega)]
      exact T.merge_of_lt (T.merge a b) c (by omega)
    · -- all three count
      rw [T.merge_of_eq (T.merge a b) c (by omega), T.merge_of_eq a (T.merge b c) (by omega),
        T.merge_of_eq a b heq, T.merge_of_eq b c heq', Failure.union_assoc]
    · rw [T.merge_of_gt b c hgt']
      exact T.merge_of_gt (T.merge a b) c (by omega)
  · rw [T.merge_of_gt a b hgt]
    rcases lt_or_ge (T.offset b.furthest) (T.offset c.furthest) with hlt' | hge'
    · rw [T.merge_of_lt b c hlt']
    · rw [T.merge_of_gt a c (by omega)]
      exact (T.merge_of_gt a (T.merge b c) (by omega)).symm

/-- The cursors as an input that leads nowhere. -/
def cursorTape : Tape (Cursor V) V where
  token? := Cursor.token?
  position := Cursor.position
  next _ _ := False

/-- What a failure says of its match, wherever that was tried. -/
def Failure.refusal (f : Failure V) : Refusal (Cursor V) V :=
  ⟨f.furthest, f.expected⟩

omit [DecidableEq V] in
theorem Failure.eq_of_refusal {f g : Failure V} (hposition : f.position = g.position)
    (hrefusal : f.refusal = g.refusal) : f = g := by
  cases f
  cases g
  cases hrefusal
  exact congrArg (Failure.mk · _ _) hposition

theorem Failure.position_merge (f g : Failure V) : (f.merge g).position = f.position := by
  unfold merge
  split_ifs <;> rfl

/-- Failures are merged as refusals are. -/
theorem Failure.refusal_merge (f g : Failure V) :
    (f.merge g).refusal = cursorTape.merge f.refusal g.refusal := by
  rcases lt_trichotomy f.furthest.offset g.furthest.offset with hlt | heq | hgt
  · rw [cursorTape.merge_of_lt f.refusal g.refusal hlt, merge, if_pos hlt]
    rfl
  · rw [cursorTape.merge_of_eq f.refusal g.refusal heq, merge, if_neg heq.not_lt, if_pos heq.symm]
    rfl
  · rw [cursorTape.merge_of_gt f.refusal g.refusal hgt, merge, if_neg hgt.not_gt, if_neg hgt.ne]

/-- **Merging failures is associative.** -/
theorem Failure.merge_assoc (f g h : Failure V) : (f.merge g).merge h = f.merge (g.merge h) := by
  refine eq_of_refusal ?_ ?_
  · simp only [position_merge]
  · simp only [refusal_merge, Tape.merge_assoc]

/-- A refusal of a match that was tried at `x`: it stands there or later, and names nothing twice. -/
structure Refusal.Sound (T : Tape C V) (x : C) (r : Refusal C V) : Prop where
  eq_or_lt : r.furthest = x ∨ T.offset x < T.offset r.furthest
  nodup : r.expected.Nodup

omit [DecidableEq V] in
theorem Refusal.Sound.offset_le (h : r.Sound T x) : T.offset x ≤ T.offset r.furthest := by
  rcases h.eq_or_lt with heq | hlt
  · rw [heq]
  · exact hlt.le

omit [DecidableEq V] in
theorem Refusal.sound_nothing (T : Tape C V) (x : C) : (⟨x, []⟩ : Refusal C V).Sound T x :=
  ⟨.inl rfl, List.nodup_nil⟩

theorem Refusal.Sound.merge (h : r.Sound T x) (h' : r'.Sound T x) : (T.merge r r').Sound T x :=
  ⟨Tape.merge_all (I := fun y => y = x ∨ T.offset x < T.offset y) h.eq_or_lt h'.eq_or_lt,
    Tape.nodup_merge h.nodup h'.nodup⟩

/-- The refusal of a choice without alternatives is neutral. -/
theorem Refusal.Sound.nothing_merge (h : r.Sound T x) : T.merge ⟨x, []⟩ r = r := by
  rcases h.eq_or_lt with rfl | hlt
  · -- what is united with nothing stays as it is, since it is named once
    rw [T.merge_of_eq ⟨r.furthest, []⟩ r rfl, Failure.union_nil_left h.nodup]
  · exact T.merge_of_lt ⟨x, []⟩ r hlt

theorem Refusal.Sound.merge_nothing (h : r.Sound T x) : T.merge r ⟨x, []⟩ = r := by
  rcases h.offset_le.lt_or_eq with hlt | heq
  · exact T.merge_of_gt r ⟨x, []⟩ hlt
  · exact T.merge_of_eq r ⟨x, []⟩ heq.symm

/-- The refusals of alternatives at `x`, merged in order. -/
def Tape.mergeAll (T : Tape C V) (x : C) (rs : List (Refusal C V)) : Refusal C V :=
  rs.foldl T.merge ⟨x, []⟩

theorem Refusal.sound_mergeAll (h : ∀ r ∈ rs, r.Sound T x) : (T.mergeAll x rs).Sound T x := by
  induction rs using List.reverseRecOn with
  | nil => exact Refusal.sound_nothing T x
  | append_singleton rs r ih =>
    rw [Tape.mergeAll, List.foldl_append]
    exact (ih fun r hr => h r (List.mem_append_left _ hr)).merge
      (h r (List.mem_append_right _ (List.mem_singleton_self r)))

theorem Tape.foldl_merge (a b : Refusal C V) (rs : List (Refusal C V)) :
    rs.foldl T.merge (T.merge a b) = T.merge a (rs.foldl T.merge b) := by
  induction rs generalizing b with
  | nil => rfl
  | cons r rs ih => rw [List.foldl_cons, List.foldl_cons, T.merge_assoc, ih]

theorem Tape.mergeAll_append (h : ∀ r ∈ rs, r.Sound T x) (rs' : List (Refusal C V)) :
    T.mergeAll x (rs ++ rs') = T.merge (T.mergeAll x rs) (T.mergeAll x rs') := by
  -- the second fold begins where the first ends, instead of at nothing
  rw [mergeAll, List.foldl_append, mergeAll, mergeAll, ← foldl_merge]
  exact congrArg (rs'.foldl T.merge) (Refusal.sound_mergeAll h).merge_nothing.symm

end Merging

/-! ## The alternatives of a choice -/

section Alternatives

variable [MatchValue V] [DecidableEq V]

/-- All the patterns are refused at `x`, with these refusals. -/
abbrev AllRefused (T : Tape C V) (R : Rulebook V) (x : C) :
    List (Pattern V) → List (Refusal C V) → Prop :=
  List.Forall₂ fun p r => Derives T R (.whole p) x (.refused r)

/-- The first of the patterns that is not refused at `x` comes to `o`. -/
inductive Chooses (T : Tape C V) (R : Rulebook V) (x : C) :
    List (Pattern V) → Verdict C V → Prop where
  | here {p ps o} : Derives T R (.whole p) x o → o.isRefused = false →
      Chooses T R x (p :: ps) o
  | later {p ps r o} : Derives T R (.whole p) x (.refused r) → Chooses T R x ps o →
      Chooses T R x (p :: ps) o

variable {T : Tape C V} {R : Rulebook V} {x : C} {o : Verdict C V} {xs ys zs ps : List (Pattern V)}
  {rs : List (Refusal C V)}

theorem Chooses.isRefused (h : Chooses T R x ps o) : o.isRefused = false := by
  induction h with
  | here _ ho => exact ho
  | later _ _ ih => exact ih

theorem allRefused_append :
    AllRefused T R x (xs ++ ys) rs ↔
      ∃ rs₁ rs₂, AllRefused T R x xs rs₁ ∧ AllRefused T R x ys rs₂ ∧ rs = rs₁ ++ rs₂ := by
  constructor
  · intro h
    refine ⟨rs.take xs.length, rs.drop xs.length, ?_, ?_, (List.take_append_drop ..).symm⟩
    · have htake := List.forall₂_take xs.length h
      rwa [List.take_left] at htake
    · have hdrop := List.forall₂_drop xs.length h
      rwa [List.drop_left] at hdrop
  · rintro ⟨rs₁, rs₂, h₁, h₂, rfl⟩
    exact List.rel_append h₁ h₂

theorem chooses_append :
    Chooses T R x (xs ++ ys) o ↔
      Chooses T R x xs o ∨ (∃ rs, AllRefused T R x xs rs) ∧ Chooses T R x ys o := by
  induction xs with
  | nil =>
    constructor
    · exact fun h => .inr ⟨⟨[], .nil⟩, h⟩
    · rintro (h | ⟨-, h⟩)
      · cases h
      · exact h
  | cons p xs ih =>
    constructor
    · intro h
      cases h with
      | here hp ho => exact .inl (.here hp ho)
      | later hp h =>
        rcases ih.mp h with h | ⟨⟨rs, hrs⟩, h⟩
        · exact .inl (.later hp h)
        · exact .inr ⟨⟨_, .cons hp hrs⟩, h⟩
    · rintro (h | ⟨⟨rs, hrs⟩, h⟩)
      · cases h with
        | here hp ho => exact .here hp ho
        | later hp h => exact .later hp (ih.mpr (.inl h))
      · cases hrs with
        | cons hp hrs => exact .later hp (ih.mpr (.inr ⟨⟨_, hrs⟩, h⟩))

/-- What a choice matches one of its alternatives matches. -/
theorem Derives.exists_alternative {y : C} {v : V}
    (h : Derives T R (.whole (.choice ps)) x (.matched y v)) :
    ∃ p ∈ ps, Derives T R (.whole p) x (.matched y v) := by
  cases h with
  | choice h =>
    generalize (none : Option (Refusal C V)) = failed at h
    induction ps generalizing failed with
    | nil => cases h
    | cons p ps ih =>
      cases h with
      | alternativesStop hp => exact ⟨p, List.mem_cons_self, hp⟩
      | alternativesNext _ h =>
        obtain ⟨q, hq, hmatched⟩ := ih _ h
        exact ⟨q, List.mem_cons_of_mem p hq, hmatched⟩

variable (hsound : ∀ p r, Derives T R (.whole p) x (.refused r) → r.Sound T x)
include hsound

theorem AllRefused.sound (h : AllRefused T R x ps rs) : ∀ r ∈ rs, r.Sound T x := by
  intro r hr
  obtain ⟨p, -, hp⟩ := exists_mem_of_forall₂ h.flip hr
  exact hsound p r hp

/-- What the rest of a choice comes to, by its alternatives. -/
theorem Derives.alternatives_iff {failed : Option (Refusal C V)} :
    Derives T R (.alternatives ps failed) x o ↔
      (∃ rs, AllRefused T R x ps rs ∧ o = .refused (rs.foldl T.merge (failed.getD ⟨x, []⟩))) ∨
        Chooses T R x ps o := by
  induction ps generalizing failed with
  | nil =>
    constructor
    · intro h
      cases h
      exact .inl ⟨[], .nil, rfl⟩
    · rintro (⟨rs, hrs, rfl⟩ | h)
      · cases hrs
        exact .alternativesDone
      · cases h
  | cons p ps ih =>
    -- before the first refusal it is as if nothing had been refused at `x`
    have hmerge : ∀ r, Derives T R (.whole p) x (.refused r) →
        T.mergeInto failed r = T.merge (failed.getD ⟨x, []⟩) r := by
      intro r hp
      cases failed with
      | none => exact (hsound p r hp).nothing_merge.symm
      | some f => rfl
    constructor
    · intro h
      cases h with
      | alternativesStop hp ho => exact .inr (.here hp ho)
      | @alternativesNext _ _ _ _ r _ hp h =>
        rcases ih.mp h with ⟨rs, hrs, rfl⟩ | h
        · refine .inl ⟨r :: rs, .cons hp hrs, ?_⟩
          rw [List.foldl_cons, ← hmerge r hp, Option.getD_some]
        · exact .inr (.later hp h)
    · rintro (⟨rs, hrs, rfl⟩ | h)
      · cases hrs with
        | @cons _ r _ rs hp hrs =>
          refine .alternativesNext hp (ih.mpr (.inl ⟨rs, hrs, ?_⟩))
          rw [List.foldl_cons, ← hmerge r hp, Option.getD_some]
      · cases h with
        | here hp ho => exact .alternativesStop hp ho
        | later hp h => exact .alternativesNext hp (ih.mpr (.inr h))

/-- **What a choice comes to, by its alternatives**: they are all refused, and their refusals are
merged, or the first that is not refused decides. -/
theorem Derives.choice_iff :
    Derives T R (.whole (.choice ps)) x o ↔
      (∃ rs, AllRefused T R x ps rs ∧ o = .refused (T.mergeAll x rs)) ∨ Chooses T R x ps o := by
  refine Iff.trans ⟨?_, .choice⟩ (Derives.alternatives_iff hsound)
  intro h
  cases h with
  | choice h => exact h

theorem allRefused_choice :
    AllRefused T R x [.choice ys] rs ↔
      ∃ rs', AllRefused T R x ys rs' ∧ rs = [T.mergeAll x rs'] := by
  constructor
  · intro h
    cases h with
    | cons hp hnil =>
      cases hnil
      rcases (Derives.choice_iff hsound).mp hp with ⟨rs', hrs', heq⟩ | h
      · cases heq
        exact ⟨rs', hrs', rfl⟩
      · cases h.isRefused
  · rintro ⟨rs', hrs', rfl⟩
    exact .cons ((Derives.choice_iff hsound).mpr (.inl ⟨rs', hrs', rfl⟩)) .nil

theorem chooses_choice : Chooses T R x [.choice ys] o ↔ Chooses T R x ys o := by
  constructor
  · intro h
    cases h with
    | here hp ho =>
      rcases (Derives.choice_iff hsound).mp hp with ⟨rs', -, rfl⟩ | h
      · cases ho
      · exact h
    | later _ h => cases h
  · intro h
    exact .here ((Derives.choice_iff hsound).mpr (.inr h)) h.isRefused

/-- The refusals of an inner choice are merged first, which makes no difference. -/
theorem mergeAll_regroup {rs₁ rs₂ rs₃ : List (Refusal C V)} (h₁ : AllRefused T R x xs rs₁)
    (h₂ : AllRefused T R x ys rs₂) :
    T.mergeAll x (rs₁ ++ [T.mergeAll x rs₂] ++ rs₃) = T.mergeAll x (rs₁ ++ rs₂ ++ rs₃) := by
  have hsound₁ := AllRefused.sound hsound h₁
  have hinner := Refusal.sound_mergeAll (AllRefused.sound hsound h₂)
  have hone : T.mergeAll x [T.mergeAll x rs₂] = T.mergeAll x rs₂ := hinner.nothing_merge
  rw [List.append_assoc, List.append_assoc, Tape.mergeAll_append hsound₁,
    Tape.mergeAll_append hsound₁, Tape.mergeAll_append (AllRefused.sound hsound h₂),
    Tape.mergeAll_append (by simpa using hinner), hone]

/-- **The alternatives of a choice may be regrouped.** -/
theorem Derives.choice_regroup :
    Derives T R (.whole (.choice (xs ++ [.choice ys] ++ zs))) x o ↔
      Derives T R (.whole (.choice (xs ++ ys ++ zs))) x o := by
  have hall : (∃ rs, AllRefused T R x [.choice ys] rs) ↔ ∃ rs, AllRefused T R x ys rs := by
    simp only [allRefused_choice hsound]
    exact ⟨fun ⟨_, rs, h, _⟩ => ⟨rs, h⟩, fun ⟨rs, h⟩ => ⟨_, rs, h, rfl⟩⟩
  rw [Derives.choice_iff hsound, Derives.choice_iff hsound]
  refine or_congr ⟨?_, ?_⟩ ?_
  -- If all are refused, the refusals of the inner choice stand between those around it.
  · rintro ⟨rs, hrs, rfl⟩
    obtain ⟨_, rs₃, h, h₃, rfl⟩ := allRefused_append.mp hrs
    obtain ⟨rs₁, _, h₁, hinner, rfl⟩ := allRefused_append.mp h
    obtain ⟨rs₂, h₂, rfl⟩ := (allRefused_choice hsound).mp hinner
    refine ⟨rs₁ ++ rs₂ ++ rs₃, List.rel_append (List.rel_append h₁ h₂) h₃, ?_⟩
    rw [mergeAll_regroup hsound h₁ h₂]
  · rintro ⟨rs, hrs, rfl⟩
    obtain ⟨_, rs₃, h, h₃, rfl⟩ := allRefused_append.mp hrs
    obtain ⟨rs₁, rs₂, h₁, h₂, rfl⟩ := allRefused_append.mp h
    refine ⟨rs₁ ++ [T.mergeAll x rs₂] ++ rs₃, ?_, ?_⟩
    · have hinner := (allRefused_choice hsound).mpr ⟨rs₂, h₂, rfl⟩
      exact List.rel_append (List.rel_append h₁ hinner) h₃
    · rw [mergeAll_regroup hsound h₁ h₂]
  -- The first that is not refused comes before the inner choice, in it or behind it.
  · rw [List.append_assoc, List.append_assoc]
    simp only [chooses_append, hall, chooses_choice hsound]

end Alternatives

/-! ## Choices over streams -/

variable [MatchValue V] [DecidableEq V] {R : Rulebook V} {x : Place V} {σ : Source V}
  {w₀ w : World V} {s : Stream V}

/-- Whatever is refused at a place in order was refused there or later, and names nothing twice. -/
theorem Place.InOrder.sound (hx : x.InOrder) (p : Pattern V) (r : Refusal (Place V) V)
    (h : Derives (lazyTape R) R (.whole p) x (.refused r)) : r.Sound (lazyTape R) x :=
  ⟨(h.ahead hx trivial).eq_or_lt, h.nodup trivial⟩

theorem Finds.choice_regroup (hσ : σ.InOrder) (xs ys zs : List (Pattern V)) {f : Finding V} :
    Finds R (.choice (xs ++ [.choice ys] ++ zs)) σ f ↔ Finds R (.choice (xs ++ ys ++ zs)) σ f := by
  constructor
  · intro h
    cases h with
    | unread hb => exact .unread hb
    | read hx ho => exact .read hx ((Derives.choice_regroup (hx.inOrder hσ).sound).mp ho)
  · intro h
    cases h with
    | unread hb => exact .unread hb
    | read hx ho => exact .read hx ((Derives.choice_regroup (hx.inOrder hσ).sound).mpr ho)

/-- **Choice is associative**, as is the merging of failures. Over a stream in order it makes no
difference whether some of the alternatives of a choice, or none, are a choice of their own: the
parses report the same value and the same end, the same furthest offset and the same expectations in
the same order, or the same fault, and neither is answered unless the other is. -/
theorem choice_associative (hbuilt : Built (fun _ => True) w₀ s w) (hs : s.InOrder w)
    (xs ys zs : List (Pattern V)) :
    (∀ f g h : Failure V, (f.merge g).merge h = f.merge (g.merge h)) ∧
      ∀ r : Report Position V,
        (∃ fuel out w', parse fuel none (.choice (xs ++ [.choice ys] ++ zs)) s w =
            some (out, w') ∧ out.report = r) ↔
          ∃ fuel out w', parse fuel none (.choice (xs ++ ys ++ zs)) s w =
            some (out, w') ∧ out.report = r := by
  refine ⟨Failure.merge_assoc, fun r => ?_⟩
  obtain ⟨chart, σ, hstanding⟩ := hbuilt.exists_standing
  have hσ := (hstanding.charted.source_inOrder_iff s hstanding.source).mp hs
  have hcharted := hstanding.rulebook ▸ hstanding.charted
  rw [parse_report_iff_finds hcharted hstanding.source,
    parse_report_iff_finds hcharted hstanding.source]
  simp only [Finds.choice_regroup hσ xs ys zs]

/-- At the second of these letters the nested alternatives are refused, after one that got as far
and one that did not. What they name is listed behind what the first names, and nothing twice. -/
theorem choice_associative_letters :
    ∃ fuel out w', parse fuel none
        (.choice ([.sequence [.any, .terminal (.char 'x')], .terminal (.char 'b')] ++
          [.choice [.sequence [.terminal (.char 'a'), .terminal (.char 'y')],
            .sequence [.any, .terminal (.char 'x')], .finish]] ++ [.choice []]))
        (.chars ['a', 'b'] .start) wordWorld = some (out, w') ∧
      out.report = .refused .start ⟨1, 0, 1⟩ [.token (.char 'x'), .token (.char 'y')] := by
  have hregroup := (choice_associative (.chars : Built (fun _ => True) wordWorld
    (.chars ['a', 'b'] .start) wordWorld) (by simp only [Stream.InOrder])
    [.sequence [.any, .terminal (.char 'x')], .terminal (.char 'b')]
    [.sequence [.terminal (.char 'a'), .terminal (.char 'y')],
      .sequence [.any, .terminal (.char 'x')], .finish] [.choice []]).2
  exact (hregroup _).mpr ⟨200, _, _, rfl, rfl⟩

end Humus.Peg
