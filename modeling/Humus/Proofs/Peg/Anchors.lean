import Humus.Proofs.Peg.Choices

/-!
# Anchors

Whatever is answered to a request at a cursor is anchored there. A match begins at that cursor and
stops at one of the cursors from there on, and the furthest cursor of a failure is one of them. A rule
that is refused where it was tried names itself and nothing else, and a choice names what those of
its alternatives name that got furthest.

## Main definitions

* `Cursor.Same w c d`: the two cursors are written out alike
* `Cursor.LeadsTo w c d`: `d` is one of the cursors from `c` on
* `Success.Anchored`, `Failure.Anchored`: how a match and a failure are tied to the request

## Main results

* `parseAt_says`: what is answered to a request at a cursor is derived at its place
* `Tape.offset_mergeAll`, `Tape.expected_mergeAll`: what comes of merging many refusals
* `answers_anchored`: every answer to a request at a cursor is anchored there
-/

namespace Humus.Peg

open Dispatch (Safe)

variable {C V : Type}

/-! ## Many refusals -/

section Merging

variable [DecidableEq V] {T : Tape C V} {x : C} {r : Refusal C V} {rs : List (Refusal C V)}

theorem Failure.union_append (a b c : List (Expected V)) :
    union a (b ++ c) = union (union a b) c :=
  List.foldl_append

/-- To unite is to list what appears for the first time. -/
theorem Failure.union_nil_eq_eraseDups (l : List (Expected V)) : union [] l = l.eraseDups := by
  induction l using List.reverseRecOn with
  | nil => rfl
  | append_singleton l e ih =>
    rw [union_concat, ih, List.eraseDups_append]
    by_cases hmem : e ∈ l
    · simp [hmem, List.removeAll]
    · simp [hmem, List.removeAll, List.eraseDups_cons]

theorem Tape.offset_foldl_merge (r : Refusal C V) (rs : List (Refusal C V)) :
    T.offset (rs.foldl T.merge r).furthest =
      (rs.map fun r => T.offset r.furthest).foldl max (T.offset r.furthest) := by
  induction rs generalizing r with
  | nil => rfl
  | cons r' rs ih => rw [List.foldl_cons, ih, offset_merge, List.map_cons, List.foldl_cons]

/-- **What many refusals are merged to got as far as the furthest of them.** -/
theorem Tape.offset_mergeAll (h : ∀ r ∈ rs, r.Sound T x) (hne : rs ≠ []) :
    (rs.map fun r => T.offset r.furthest).max? = some (T.offset (T.mergeAll x rs).furthest) := by
  cases rs with
  | nil => exact absurd rfl hne
  | cons r rs =>
    have hr : r.Sound T x := h r List.mem_cons_self
    rw [List.map_cons, List.max?_cons', mergeAll, List.foldl_cons, hr.nothing_merge,
      offset_foldl_merge]

theorem Tape.offset_le_mergeAll (h : ∀ r ∈ rs, r.Sound T x) (hr : r ∈ rs) :
    T.offset r.furthest ≤ T.offset (T.mergeAll x rs).furthest := by
  have hmax := offset_mergeAll h (List.ne_nil_of_mem hr)
  exact (List.max?_eq_some_iff.mp hmax).2 _ (List.mem_map_of_mem hr)

/-- What the refusals name that got as far as `n`. -/
def Tape.namedAt (T : Tape C V) (n : Nat) (rs : List (Refusal C V)) : List (Expected V) :=
  (rs.filter fun r => T.offset r.furthest = n).flatMap Refusal.expected

omit [DecidableEq V] in
theorem Tape.namedAt_concat (n : Nat) (rs : List (Refusal C V)) (r : Refusal C V) :
    T.namedAt n (rs ++ [r]) =
      T.namedAt n rs ++ if T.offset r.furthest = n then r.expected else [] := by
  rw [namedAt, List.filter_append, List.flatMap_append, namedAt]
  by_cases hn : T.offset r.furthest = n <;> simp [hn]

omit [DecidableEq V] in
theorem Tape.namedAt_eq_nil {n : Nat} (h : ∀ r ∈ rs, T.offset r.furthest < n) :
    T.namedAt n rs = [] := by
  have hnone : (rs.filter fun r => T.offset r.furthest = n) = [] :=
    List.filter_eq_nil_iff.mpr fun r hr => by simpa using (h r hr).ne
  rw [namedAt, hnone, List.flatMap_nil]

/-- **What many refusals are merged to names what those name that got furthest**, each thing where it
is named first. -/
theorem Tape.expected_mergeAll (h : ∀ r ∈ rs, r.Sound T x) :
    (T.mergeAll x rs).expected =
      (T.namedAt (T.offset (T.mergeAll x rs).furthest) rs).eraseDups := by
  rw [← Failure.union_nil_eq_eraseDups]
  induction rs using List.reverseRecOn with
  | nil => rfl
  | append_singleton rs r ih =>
    have hrs : ∀ r ∈ rs, r.Sound T x := fun r hr => h r (List.mem_append_left _ hr)
    have hr : r.Sound T x := h r (List.mem_append_right _ (List.mem_singleton_self r))
    have hle : ∀ r' ∈ rs, T.offset r'.furthest ≤ T.offset (T.mergeAll x rs).furthest :=
      fun _ => offset_le_mergeAll hrs
    have hconcat : T.mergeAll x (rs ++ [r]) = T.merge (T.mergeAll x rs) r := List.foldl_concat ..
    have ih := ih hrs
    rw [hconcat, namedAt_concat]
    generalize T.mergeAll x rs = m at ih hle
    rcases lt_trichotomy (T.offset m.furthest) (T.offset r.furthest) with hlt | heq | hgt
    · -- the last one got further than those before
      rw [T.merge_of_lt m r hlt, namedAt_eq_nil fun r' hr' => (hle r' hr').trans_lt hlt, if_pos rfl,
        List.nil_append, Failure.union_nil_left hr.nodup]
    · -- it got as far, and what it names is listed behind
      rw [T.merge_of_eq m r heq, if_pos heq.symm, Failure.union_append, ← ih]
    · rw [T.merge_of_gt m r hgt, if_neg hgt.ne, List.append_nil]
      exact ih

end Merging

variable [MatchValue V] [DecidableEq V] {R : Rulebook V} {B : Nat → Prop} {d : Nat}
  {chart : Chart V} {w₀ w w' : World V} {c stop : Cursor V} {x y : Place V} {p : Pattern V}
  {fuel : Nat} {limit : Option Nat} {out : Outcome V}

/-- A rule that is refused where it was tried names itself. -/
theorem Derives.expected_rule {T : Tape C V} {x : C} {r : Refusal C V} {ref : RuleRef}
    (h : Derives T R (.whole (.rule ref)) x (.refused r))
    (hr : T.offset r.furthest = T.offset x) : r.expected = [.rule ref.name] := by
  generalize ho : Verdict.refused r = o at h
  -- the refusal is that of the body, relabeled
  cases h with
  | ruleUnknown => cases ho
  | @rule _ _ transform _ o _ _ =>
    cases o with
    | matched y v =>
      simp only [Tape.reduce] at ho
      split at ho
      · cases ho
      · split at ho <;> cases ho
    | refused r' =>
      cases ho
      rw [Tape.relabel] at hr ⊢
      split_ifs at hr ⊢ with hstart
      · rfl
      · exact absurd hr hstart
    | broken b => cases ho

/-! ## Requests at a cursor -/

/-- The outcome of a request at `c` says what the verdict says. -/
inductive SaysAt (chart : Chart V) (c : Cursor V) : Outcome V → Verdict (Place V) V → Prop where
  | matched {stop y v} : stop.place? chart = some y → SaysAt chart c (.ok ⟨c, stop, v⟩) (.matched y v)
  | refused {f r} : f.position = c → f.Tells chart r →
      SaysAt chart c (.error (.failed f)) (.refused r)
  | fault {g} : SaysAt chart c (.error (.halted (.fault g))) (.broken (.fault g))
  | silence : SaysAt chart c (.error .incomplete) (.broken .silence)

/-- A match that was answered has reported what the verdict says. -/
theorem Answered.receive {P : Verdict (Place V) V → Prop} {m : Delivery V}
    (h : Answered R B chart w P c (.report 0) (.report 0) m w') :
    ∃ chart' o answer, Evolves R B chart w chart' w' ∧ P o ∧
      (∀ k, SaysAt chart' c (outcomeOf (.ok k) [answer]) o) ∧
      Humus.Peg.receive m w' = ([], { w' with answers := answer :: w'.answers }) := by
  obtain ⟨chart', o, hev, ho, htold⟩ := h
  cases htold with
  | @matched stop y v hy =>
    exact ⟨chart', _, ⟨0, .ok ⟨c, stop, v⟩⟩, hev, ho, fun _ => .matched hy, rfl⟩
  | @refused f r hposition hr =>
    exact ⟨chart', _, ⟨0, .error f⟩, hev, ho, fun _ => .refused hposition hr, rfl⟩

/-- The thread of a request at a cursor is sound. -/
theorem safe_requestAt (hw : Poised R B d chart w) (hx : c.place? chart = some x)
    (hd : x.depth < d) (k : Nat) :
    Safe receive (Remains R chart)
      (Answered R B chart w (Derives (lazyTape R) R (.whole p) x) c (.report 0) (.report 0))
      (BrokeOff w fun b => Derives (lazyTape R) R (.whole p) x (.broken b)) k
      (.cursor (matcher p 0) c) w := by
  have hrefl : Evolves R B chart w chart w := .of_cells hw.charted (.refl w) rfl
  refine Safe.step (hrefl.remains hw.rulebook) fun j _ => ?_
  have hbegins : Begins chart c (.report 0) (.report 0) (.whole p) c _ := .whole
  exact (sound R j).1 hw hx hd hbegins

/-- **What is answered to a request at a cursor is derived at its place.** -/
theorem parseAt_says (hw : Poised R B d chart { w with answers := [] })
    (hx : c.place? chart = some x) (hd : x.depth < d)
    (hrun : parseAt fuel limit p c w = some (out, w')) :
    (∃ k, limit = some k ∧ out = .error (.halted (.limit k))) ∨
      ∃ chart' o, Derives (lazyTape R) R (.whole p) x o ∧ SaysAt chart' c out o ∧
        ((∀ b, o ≠ .broken b) → Evolves R B chart { w with answers := [] } chart' w') := by
  have hlast : ∀ m s, Answered R B chart { w with answers := [] }
      (Derives (lazyTape R) R (.whole p) x) c (.report 0) (.report 0) m s →
      ∃ answer, receive m s = ([], { s with answers := answer :: s.answers }) := by
    intro m s h
    obtain ⟨_, _, answer, _, _, _, hreceive⟩ := h.receive
    exact ⟨answer, hreceive⟩
  rcases runMatch_ends hlast (safe_requestAt hw hx hd fuel) hrun with
    hlimit | ⟨b, hb, rfl⟩ | ⟨m, s, answer, k, hanswered, hreceive, rfl, rfl⟩
  · exact .inl hlimit
  · refine .inr ⟨chart, _, hb, ?_, fun h => absurd rfl (h b)⟩
    cases b with
    | fault f => exact .fault
    | silence => exact .silence
  · -- the match was answered once
    obtain ⟨chart', o, answer', hev, ho, hsays, hreceive'⟩ := hanswered.receive
    have hanswers : s.answers = [] := hev.answers
    cases hreceive'.symm.trans hreceive
    refine .inr ⟨chart', o, ho, ?_, fun _ => ?_⟩
    · rw [hanswers]
      exact hsays k
    · exact hev.trans (.of_cells hev.charted ⟨rfl, hanswers.symm, rfl⟩ rfl)

/-! ## The cursors of a stream -/

/-- The two cursors are written out alike: they stand at one position, hold one token, and the same
comes behind them. -/
def Cursor.Same (w : World V) (c d : Cursor V) : Prop :=
  ∃ chart x, Charted w.rulebook (fun _ => False) chart w.cells ∧ c.place? chart = some x ∧
    d.place? chart = some x

/-- The cursor `d` is one of those from `c` on: it stands there or later, and if the cursors from `c`
on can be collected up to an end, it is one of them and stands no later than the end. -/
structure Cursor.LeadsTo (w : World V) (c d : Cursor V) : Prop where
  offset_le : c.offset ≤ d.offset
  collected : ∀ {fuel limit cs last w'},
    collect fuel limit (.fixed c) w = some (.ok (cs ++ [last]), w') → last.isEnd = true →
      d.offset ≤ last.offset ∧ ∃ c' ∈ cs ++ [last], c'.Same w' d

/-- The place of a cursor that a match comes to is one of the places that are collected. -/
theorem Behind.leadsTo {d : Cursor V} (h : Behind w.rulebook (.fixed x) y) (hahead : x.Ahead y)
    (hx : x.InOrder) (hcharted : Charted w.rulebook (fun _ => False) chart w.cells)
    (hc : c.place? chart = some x) (hd : d.place? chart = some y) : c.LeadsTo w d := by
  have hoffset := hahead.offset_le
  rw [Cursor.offset_of_place? hc, Cursor.offset_of_place? hd] at hoffset
  refine ⟨hoffset, ?_⟩
  intro fuel limit cs last w' hrun hlast
  have hw : Poised w.rulebook (fun _ => False) (x.depth + 1) chart w.unwalked :=
    ⟨rfl, hcharted, fun _ h => h.elim⟩
  have hsource : (Stream.fixed c).source? chart = some (.fixed x) := by
    simp only [Stream.source?, hc, Option.map_some]
  obtain ⟨xs, chart', hwalks, hplaces, hev⟩ :=
    collect_walks hw hsource (Nat.lt_succ_self x.depth) hrun hlast
  have hmem : y ∈ xs := hwalks.mem_iff_behind.mpr h
  have hd' := Cursor.place?_mono hev.le _ hd
  constructor
  · -- the last cursor is the last place
    obtain ⟨xs', z, rfl, -, hz⟩ := exists_concat_of_forall₂ hplaces.flip
    have hle := hwalks.offset_le hx List.getLast?_concat y hmem
    rwa [Cursor.offset_of_place? hd', Cursor.offset_of_place? hz] at hle
  · obtain ⟨c', hc', hy⟩ := exists_mem_of_forall₂ hplaces.flip hmem
    have hrulebook : w'.rulebook = w.rulebook := hev.rulebook
    exact ⟨c', hc', chart', y, hrulebook ▸ hev.charted, hy, hd'⟩

/-! ## Answers -/

/-- What the failures name that got as far as `n`. -/
def Failure.namedAt (n : Nat) (fs : List (Failure V)) : List (Expected V) :=
  (fs.filter fun f => f.furthest.offset = n).flatMap Failure.expected

/-- The match begins where it was asked for, and stops there or later. -/
structure Success.Anchored (w : World V) (c : Cursor V) (s : Success V) : Prop where
  start : s.start = c
  stop : c.LeadsTo w s.stop

/-- At `c` the patterns fail as these failures say, when each of them is tried there on its own. -/
def FailAt (w : World V) (c : Cursor V) : List (Pattern V) → List (Failure V) → Prop :=
  List.Forall₂ fun q f => ∃ fuel w', parseAt fuel none q c w = some (.error (.failed f), w')

/-- The failure of the request to `p` at `c`, from the world `w` to the world `w'`. -/
structure Failure.Anchored (w w' : World V) (p : Pattern V) (c : Cursor V) (f : Failure V) :
    Prop where
  /-- It was tried at the cursor of the request. -/
  position : f.position = c
  /-- It got to one of the cursors from there on. -/
  furthest : c.LeadsTo w' f.furthest
  /-- It names nothing twice. -/
  nodup : f.expected.Nodup
  /-- A rule that did not get past its start names itself, and nothing else. -/
  rule : ∀ ref, p = .rule ref → f.furthest.offset = c.offset → f.expected = [.rule ref.name]
  /-- A choice got as far as the furthest of its alternatives, and names what those name that got so
  far, each thing where it is named first. -/
  choice : ∀ ps, p = .choice ps → ps ≠ [] →
    ∃ fs, FailAt w c ps fs ∧
      (fs.map fun g => g.furthest.offset).max? = some f.furthest.offset ∧
      f.expected = (namedAt f.furthest.offset fs).eraseDups

section Choices

variable {r : Refusal (Place V) V} {rs : List (Refusal (Place V) V)} {f : Failure V}
  {fs : List (Failure V)} {ps : List (Pattern V)}

/-- The failure got as far as the refusal, and names the same. -/
def Failure.Resembles (f : Failure V) (r : Refusal (Place V) V) : Prop :=
  f.furthest.offset = r.furthest.offset ∧ f.expected = r.expected

omit [MatchValue V] [DecidableEq V] in
theorem Failure.Tells.resembles (h : f.Tells chart r) : f.Resembles r :=
  ⟨(Cursor.offset_of_place? h.furthest).symm, h.expected⟩

theorem Failure.map_offset (R : Rulebook V) (h : List.Forall₂ Failure.Resembles fs rs) :
    (fs.map fun f => f.furthest.offset) = rs.map fun r => (lazyTape R).offset r.furthest := by
  induction h with
  | nil => rfl
  | cons hr _ ih => rw [List.map_cons, List.map_cons, ih, hr.1]; rfl

theorem Failure.namedAt_eq (R : Rulebook V) (h : List.Forall₂ Failure.Resembles fs rs) (n : Nat) :
    namedAt n fs = (lazyTape R).namedAt n rs := by
  induction h with
  | nil => rfl
  | @cons f r fs rs hr _ ih =>
    have hoffset : f.furthest.offset = (lazyTape R).offset r.furthest := hr.1
    rw [namedAt, Tape.namedAt] at ih ⊢
    by_cases hn : f.furthest.offset = n
    · rw [List.filter_cons_of_pos (by simpa using hn),
        List.filter_cons_of_pos (by simpa [← hoffset] using hn), List.flatMap_cons,
        List.flatMap_cons, ih, hr.2]
    · rw [List.filter_cons_of_neg (by simpa using hn),
        List.filter_cons_of_neg (by simpa [← hoffset] using hn), ih]

variable (hw : Poised R B d chart { w with answers := [] }) (hx : c.place? chart = some x)
  (hd : x.depth < d)
include hw hx hd

/-- What is refused at the place of a cursor fails there, when it is tried on its own. -/
theorem Derives.exists_failure {q : Pattern V}
    (h : Derives (lazyTape R) R (.whole q) x (.refused r)) :
    ∃ f : Failure V, (∃ fuel w', parseAt fuel none q c w = some (.error (.failed f), w')) ∧
      f.Resembles r := by
  have hstarts : Starts chart q 0 (.cursor (matcher q 0) c) (.fixed x) := .cursor hx
  have hfinds : Finds R q (.fixed x) (.refused x r) := .read (reads_iff.mpr .fixed) h
  obtain ⟨N, hN⟩ := hstarts.exists_runMatch hw hd hfinds
  obtain ⟨out, w', hrun⟩ := hN N le_rfl
  rcases parseAt_says hw hx hd hrun with ⟨_, hlimit, -⟩ | ⟨chart', o, ho, hsays, -⟩
  · cases hlimit
  · cases h.unique ho
    cases hsays with
    | refused _ hr => exact ⟨_, ⟨N, w', hrun⟩, hr.resembles⟩

theorem AllRefused.exists_failAt (h : AllRefused (lazyTape R) R x ps rs) :
    ∃ fs, FailAt w c ps fs ∧ List.Forall₂ Failure.Resembles fs rs := by
  induction h with
  | nil => exact ⟨[], .nil, .nil⟩
  | cons hq _ ih =>
    obtain ⟨fs, hfs, hrs⟩ := ih
    obtain ⟨f, hf, hr⟩ := hq.exists_failure hw hx hd
    exact ⟨f :: fs, .cons hf hfs, .cons hr hrs⟩

/-- A choice that is refused names what those of its alternatives name that got furthest. -/
theorem Derives.failure_of_choice (hinOrder : x.InOrder)
    (h : Derives (lazyTape R) R (.whole (.choice ps)) x (.refused r)) (hne : ps ≠ [])
    (hf : f.Resembles r) :
    ∃ fs, FailAt w c ps fs ∧ (fs.map fun g => g.furthest.offset).max? = some f.furthest.offset ∧
      f.expected = (Failure.namedAt f.furthest.offset fs).eraseDups := by
  rcases (Derives.choice_iff hinOrder.sound).mp h with ⟨rs, hrs, heq⟩ | hchooses
  · cases heq
    have hsound := AllRefused.sound hinOrder.sound hrs
    have hrs' : rs ≠ [] := by
      rintro rfl
      cases hrs
      exact hne rfl
    obtain ⟨fs, hfs, hresembles⟩ := hrs.exists_failAt hw hx hd
    refine ⟨fs, hfs, ?_, ?_⟩
    · rw [Failure.map_offset R hresembles, Tape.offset_mergeAll hsound hrs', hf.1]
      rfl
    · rw [Failure.namedAt_eq R hresembles, hf.2, hf.1]
      exact Tape.expected_mergeAll hsound
  · cases hchooses.isRefused

end Choices

/-- **Every answer to a request at a cursor is anchored there**, whatever the pattern and whatever the
grammar. A match begins at the cursor of the request, and a failure was tried there. Where the match
stops, and the furthest cursor of the failure, are among the cursors from there on, up to the end of
the input if it ends. -/
theorem answers_anchored (hbuilt : Built (fun _ => True) w₀ (.fixed c) w) (hc : c.InOrder w)
    (hrun : parseAt fuel limit p c w = some (out, w')) :
    (∀ s, out = .ok s → s.Anchored w' c) ∧
      ∀ f, out = .error (.failed f) → f.Anchored w w' p c := by
  obtain ⟨chart, σ, hstanding⟩ := hbuilt.exists_standing
  obtain ⟨x, hx, rfl⟩ := Option.map_eq_some_iff.mp hstanding.source
  have hinOrder : x.InOrder := (hstanding.charted.place_inOrder_iff c hx).mp hc
  have hw := hstanding.poised [] w.walked
  have hd := x.depth.lt_succ_self
  rcases parseAt_says hw hx hd hrun with ⟨_, -, rfl⟩ | ⟨chart', o, ho, hsays, hev⟩
  · exact ⟨nofun, nofun⟩
  have hahead := ho.ahead hinOrder trivial
  have hbehind := (Behind.first (reads_iff.mpr .fixed) : Behind _ (.fixed x) x).derives ho
  -- the cursors of the answer are led to from that of the request
  have hleads : (∀ b, o ≠ .broken b) → ∀ {d : Cursor V} {y : Place V}, x.Ahead y →
      Behind w₀.rulebook (.fixed x) y → d.place? chart' = some y → c.LeadsTo w' d := by
    intro hnot d y hy hy' hd
    have hev := hev hnot
    have hrulebook : w'.rulebook = w₀.rulebook := hev.rulebook.trans hstanding.rulebook
    exact Behind.leadsTo (hrulebook ▸ hy') hy hinOrder (hrulebook ▸ hev.charted)
      (Cursor.place?_mono hev.le _ hx) hd
  cases hsays with
  | @matched stop y v hy =>
    refine ⟨?_, nofun⟩
    rintro s hs
    cases hs
    exact ⟨rfl, hleads nofun hahead hbehind hy⟩
  | @refused f r hposition hr =>
    refine ⟨nofun, ?_⟩
    rintro g hg
    cases hg
    have hoffset : f.furthest.offset = r.furthest.offset := hr.resembles.1
    refine ⟨hposition, hleads nofun hahead hbehind hr.furthest, ?_, ?_, ?_⟩
    · rw [hr.expected]
      exact ho.nodup trivial
    · rintro ref rfl hstart
      rw [hr.expected]
      exact ho.expected_rule (hoffset.symm.trans (hstart.trans (Cursor.offset_of_place? hx).symm))
    · rintro ps rfl hne
      exact ho.failure_of_choice hw hx hd hinOrder hne hr.resembles
  | fault | silence => exact ⟨nofun, nofun⟩

/-- Two alternatives that go on behind the second token, around one that does not. -/
def threeWords : Pattern Value :=
  .choice [.sequence [.any, .any, .any], .finish, .sequence [.any, .any, .terminal (.char 'x')]]

/-- At the first of the two words of a text the choice fails at their end, which is one of the cursors
that are collected from the first word on. -/
theorem answers_anchored_words :
    ∃ (a : Cursor Value) (w : World Value) (f : Failure Value) (w' : World Value),
      f.Anchored w w' threeWords a ∧ f.expected = [.anyToken, .token (.char 'x')] ∧
      ∃ cs last w'', collect 300 none (.fixed a) w' = some (.ok (cs ++ [last]), w'') ∧
        cs.length = 2 ∧ ∃ c ∈ cs ++ [last], c.Same w'' f.furthest := by
  have hwords : Built (fun _ => True) wordWorld wordStream.1 wordStream.2 :=
    .derived .chars (fun _ _ => trivial) trivial
  have hinOrder : wordStream.1.InOrder wordStream.2 := by
    simp only [wordStream, World.derive, World.addCell, Stream.InOrder]
  -- the words are collected, the choice is tried at the first, and all is collected from there on
  obtain ⟨a, b, last, w, f, w', a', b', last', w'', hwalk, hlast, hrun, hexpected, hwalk', hlast'⟩ :
      ∃ (a b last : Cursor Value) (w : World Value) (f : Failure Value) (w' : World Value)
        (a' b' last' : Cursor Value) (w'' : World Value),
        collect 300 none wordStream.1 wordStream.2 = some (.ok ([a, b] ++ [last]), w) ∧
        last.isEnd = true ∧ parseAt 300 none threeWords a w = some (.error (.failed f), w') ∧
        f.expected = [.anyToken, .token (.char 'x')] ∧
        collect 300 none (.fixed a) w' = some (.ok ([a', b'] ++ [last']), w'') ∧
        last'.isEnd = true :=
    ⟨_, _, _, _, _, _, _, _, _, _, rfl, rfl, rfl, rfl, rfl, rfl⟩
  have hmem : a ∈ [a, b] ++ [last] := List.mem_cons_self
  have hfailure := (answers_anchored (hwords.collected hwalk hlast hmem)
    (hwords.inOrder_collected hinOrder hwalk hlast hmem) hrun).2 f rfl
  exact ⟨a, w, f, w', hfailure, hexpected, [a', b'], last', w'', hwalk', rfl,
    (hfailure.furthest.collected hwalk' hlast').2⟩

end Humus.Peg
