import Humus.Proofs.Dispatch.Idle
import Humus.Proofs.Peg.Family
import Humus.Proofs.Peg.Moving
import Humus.Proofs.Peg.SingleThread
import Mathlib.Data.List.Forall2
import Mathlib.Algebra.Order.Ring.Nat

/-!
# Concurrent matches

Matches that are started on one event loop take turns, delivery by delivery, and may read the same
derived streams. Each comes to what it comes to alone, since its strand does: it is on its way or
waits for a cell below it, and what the cell gives it does not depend on who set the cell to work.

The weight of a ledger bounds the deliveries that are left. A strand that sets a cell to work is
followed by two, each of which has less left than the one before.

## Main definitions

* `weight L`: a number that every delivery decreases
* `Strand.task?`, `Accounts R tasks chart L w`: of the matches that were started, some are answered
  and the others are under way

## Main results

* `Ledger.exists_idles`: strands that come to an end lead to idleness, and then every match is
  answered
* `concurrent_matches_independent`: concurrent matches do not interfere
-/

namespace Humus.Peg

open Dispatch (Effect Loop Stop Idles)

variable {V : Type} [MatchValue V] [DecidableEq V] {R : Rulebook V} {Q : Prop}
  {chart chart' : Chart V} {L L' : List (Strand V)} {q ms : List (Delivery V)} {w w' : World V}
  {m : Delivery V} {s : Strand V} {n : Nat}

/-! ## The weight of a ledger -/

/-- A number that every delivery to a strand decreases. -/
def weight (L : List (Strand V)) : Nat :=
  (L.map fun s => 3 ^ s.left).sum

omit [MatchValue V] [DecidableEq V] in
@[simp] theorem weight_cons (s : Strand V) (L : List (Strand V)) :
    weight (s :: L) = 3 ^ s.left + weight L := by
  simp [weight]

omit [MatchValue V] [DecidableEq V] in
theorem weight_perm (h : L.Perm L') : weight L = weight L' :=
  (h.map _).sum_nat

omit [MatchValue V] [DecidableEq V] in
@[simp] theorem weight_serve (id : Nat) (c : Cursor V) (L : List (Strand V)) :
    weight (L.map (Strand.serve id c)) = weight L := by
  simp only [weight, List.map_map, Function.comp_def, Strand.left_serve]

theorem pow_three_lt {n k : Nat} (h : n < k) : 3 ^ n < 3 ^ k :=
  Nat.pow_lt_pow_right (by decide) h

/-- Two strands that have less left weigh less than one. -/
theorem pow_three_add_lt {n j k : Nat} (hn : n < k) (hj : j < k) : 3 ^ n + 3 ^ j < 3 ^ k := by
  obtain ⟨k, rfl⟩ : ∃ i, k = i + 1 := ⟨k - 1, by omega⟩
  have hn' : 3 ^ n ≤ 3 ^ k := Nat.pow_le_pow_right (by decide) (by omega)
  have hj' : 3 ^ j ≤ 3 ^ k := Nat.pow_le_pow_right (by decide) (by omega)
  have hpos : 0 < 3 ^ k := Nat.pow_pos (by decide)
  rw [Nat.pow_succ]
  omega

/-- **Every delivery decreases the weight**, but those to guests. -/
theorem Move.weight_lt (hmove : Move R chart m w s L chart' L' ms w') (howner : s.owner ≠ none) :
    weight L' < weight (s :: L) := by
  cases hmove with
  | @relays ω n => simpa using pow_three_lt n.lt_succ_self
  | reports => simp
  | finds _ _ _ _ hleft => simpa using pow_three_lt (hleft howner)
  | waits _ _ _ _ hleft => simpa using pow_three_lt (hleft howner)
  | employs _ _ _ _ _ hleft =>
    have hlt := pow_three_add_lt (hleft howner).1 (hleft howner).2
    simp only [weight_cons]
    omega
  | resolves => simp
  | strays => exact absurd rfl howner

/-! ## Answers -/

/-- The match that the strand works for: its number, its pattern and its source. -/
def Strand.task? (s : Strand V) : Option (Nat × Pattern V × Source V) :=
  match s.owner with
  | some (.matcher number p σ) => some (number, p, σ)
  | _ => none

/-- The answer is that of the match, and says what the match finds. -/
def Answer.Settles (R : Rulebook V) (chart : Chart V) (a : Answer V)
    (task : Nat × Pattern V × Source V) : Prop :=
  a.matcher = task.1 ∧ ∃ f, Finds R task.2.1 task.2.2 f ∧ Says chart (outcomeOf (.ok 0) [a]) f

/-- Of the matches that were started, some are answered, and the others are under way. -/
def Accounts (R : Rulebook V) (tasks : List (Nat × Pattern V × Source V)) (chart : Chart V)
    (L : List (Strand V)) (w : World V) : Prop :=
  ∃ done, (done ++ L.filterMap Strand.task?).Perm tasks ∧
    List.Forall₂ (Answer.Settles R chart) w.answers done

variable {tasks : List (Nat × Pattern V × Source V)}

omit [MatchValue V] [DecidableEq V] in
theorem Says.mono {out : Outcome V} {f : Finding V} (h : Says chart out f)
    (hle : chart.Le chart') : Says chart' out f := by
  cases h with
  | matched hx hy => exact .matched (Cursor.place?_mono hle _ hx) (Cursor.place?_mono hle _ hy)
  | refused hx hr => exact .refused (Cursor.place?_mono hle _ hx) (hr.mono hle)
  | fault => exact .fault
  | silence => exact .silence

theorem Answer.Settles.mono {a : Answer V} {task : Nat × Pattern V × Source V}
    (h : a.Settles R chart task) (hle : chart.Le chart') : a.Settles R chart' task := by
  obtain ⟨hnumber, f, hf, hsays⟩ := h
  exact ⟨hnumber, f, hf, hsays.mono hle⟩

/-- Nothing was answered, and the strands work for the matches that they worked for. -/
theorem Accounts.of_tasks (h : Accounts R tasks chart L w) (hle : chart.Le chart')
    (hanswers : w'.answers = w.answers)
    (htasks : L'.filterMap Strand.task? = L.filterMap Strand.task?) :
    Accounts R tasks chart' L' w' := by
  obtain ⟨done, hperm, hdone⟩ := h
  refine ⟨done, by rwa [htasks], ?_⟩
  rw [hanswers]
  exact hdone.imp fun _ _ h => h.mono hle

omit [MatchValue V] [DecidableEq V] in
theorem Owner.Passes.task? {ω ω' : Owner V} {m' : Delivery V} (h : ω.Passes chart m ω' m')
    (k n : Nat) (post post' : Post V) :
    Strand.task? ⟨some ω', k, post⟩ = Strand.task? ⟨some ω, n, post'⟩ := by
  cases h <;> rfl

omit [MatchValue V] [DecidableEq V] in
theorem filterMap_task?_cons_congr {s s' : Strand V} (h : s'.task? = s.task?) :
    (s' :: L).filterMap Strand.task? = (s :: L).filterMap Strand.task? := by
  rw [List.filterMap_cons, List.filterMap_cons, h]

/-- **A delivery answers a match whose strand ends, and no other.** -/
theorem Move.accounts (hmove : Move R chart m w s L chart' L' ms w') (howner : s.owner ≠ none)
    (h : Accounts R tasks chart (s :: L) w) : Accounts R tasks chart' L' w' := by
  cases hmove with
  | @relays ω n ω' m' _ _ hquiet _ hpasses _ =>
    exact h.of_tasks (.refl chart) hquiet.answers
      (filterMap_task?_cons_congr (hpasses.task? n (n + 1) (.afoot m') (.afoot m)))
  | @reports number p σ k f a _ hf hsays hnumber =>
    -- the match of the strand is answered
    obtain ⟨done, hperm, hdone⟩ := h
    refine ⟨(number, p, σ) :: done, ?_, .cons ⟨hnumber, f, hf, hsays⟩ hdone⟩
    exact List.perm_middle.symm.trans hperm
  | @finds owner => exact h.of_tasks (.refl chart) rfl (filterMap_task?_cons_congr rfl)
  | @waits owner => exact h.of_tasks (.refl chart) rfl (filterMap_task?_cons_congr rfl)
  | @employs owner k n id customer σ cell m' stage j =>
    refine h.of_tasks (.refl chart) rfl ?_
    rw [List.filterMap_cons, List.filterMap_cons_none rfl, List.filterMap_cons]
    rfl
  | @resolves id stage k σ z c _ w' L _ _ _ _ _ hgrows =>
    refine h.of_tasks hgrows.le hgrows.quiet.answers ?_
    rw [List.filterMap_map, List.filterMap_cons_none rfl]
    congr 1
    funext s
    simp only [Function.comp_apply, Strand.task?, Strand.owner_serve]
  | strays => exact absurd rfl howner

/-! ## Idleness -/

/-- **Strands that come to an end lead to idleness.** Then every match is answered with what it
finds, and no cell of the chart is busy. -/
theorem Ledger.exists_idles (h : Ledger R Q chart L q w) (howned : ∀ s ∈ L, s.owner ≠ none)
    (haccounts : Accounts R tasks chart L w) :
    ∃ es w' chart', Idles receive q w es w' ∧ Ledger R Q chart' [] [] w' ∧
      Accounts R tasks chart' [] w' := by
  -- the strands account for the queue, and every delivery makes them lighter
  let I : Nat → List (Delivery V) → World V → Prop := fun n q w =>
    ∃ chart L, Ledger R Q chart L q w ∧ (∀ s ∈ L, s.owner ≠ none) ∧ Accounts R tasks chart L w ∧
      weight L = n
  have hstep : ∀ n m q w, I n (m :: q) w →
      ∃ ms w' k, receive m w = (ms.map .send, w') ∧ k < n ∧ I k (q ++ ms) w' := by
    rintro _ m q w ⟨chart, L, hledger, howned, haccounts, rfl⟩
    obtain ⟨owner, k, L₀, hperm⟩ := hledger.exists_strand
    have hledger₀ := hledger.perm hperm
    have howned₀ : ∀ s ∈ ⟨owner, k, .afoot m⟩ :: L₀, s.owner ≠ none := fun s hs =>
      howned s (hperm.mem_iff.mpr hs)
    cases owner with
    | none => exact absurd rfl (howned₀ _ List.mem_cons_self)
    | some ω =>
      obtain ⟨chart', L', ms, w', hreceive, hmove⟩ :=
        Lasts.exists_move (hledger₀.fits _ List.mem_cons_self) hledger₀.follows L₀
      have haccounts₀ : Accounts R tasks chart (⟨some ω, k, .afoot m⟩ :: L₀) w := by
        obtain ⟨done, hdone, hanswers⟩ := haccounts
        exact ⟨done, ((hperm.filterMap _).symm.append_left done).trans hdone, hanswers⟩
      have hsome : (⟨some ω, k, .afoot m⟩ : Strand V).owner ≠ none := howned₀ _ List.mem_cons_self
      refine ⟨ms, w', weight L', hreceive, ?_, chart', L', hmove.ledger hledger₀,
        hmove.owned howned₀, hmove.accounts hsome haccounts₀, rfl⟩
      rw [weight_perm hperm]
      exact hmove.weight_lt hsome
  obtain ⟨es, w', _, hidles, chart', L', hledger, -, haccounts, -⟩ :=
    Dispatch.exists_idles hstep ⟨chart, L, h, howned, haccounts, rfl⟩
  obtain rfl := hledger.eq_nil
  exact ⟨es, w', chart', hidles, hledger, haccounts⟩

/-! ## Matches on one loop -/

section Matches

variable {w₀ : World V} {ss : List (Stream V)} {p : Pattern V} {σ : Source V} {f : Finding V}
  {out out' : Outcome V}

/-- A match over a stream: its number, its pattern and its stream. -/
abbrev Job (V : Type) := Nat × Pattern V × Stream V

/-- The message that starts a match. -/
def Job.start (j : Job V) : Delivery V :=
  .ask j.2.2 (matcher j.2.1 j.1)

/-- The strand of a match that was started. It is that of the task of the match. -/
structure Undertakes (R : Rulebook V) (chart : Chart V) (j : Job V) (s : Strand V) : Prop where
  task : ∃ σ, s.task? = some (j.1, j.2.1, σ) ∧ j.2.2.source? chart = some σ
  post : s.post = .afoot j.start
  fits : ∀ size, s.Fits R chart size

/-- A match that comes to a verdict alone has a strand that comes to an end. -/
theorem Gathered.exists_undertakes (h : Gathered (fun p => p.isForeign = false) w₀ ss w chart)
    (hR : w₀.rulebook.Native) {j : Job V} (hp : j.2.1.isForeign = false) (hs : j.2.2 ∈ ss)
    (halone : ∃ fuel out w', parse fuel none j.2.1 j.2.2 w.unread = some (out, w') ∧
      ∀ g, out ≠ .error (.halted (.fault g))) :
    ∃ s, Undertakes w₀.rulebook chart j s := by
  obtain ⟨σ, hσ, huses⟩ := h.sources _ hs
  obtain ⟨fuel, out, w', hrun, hout⟩ := halone
  obtain ⟨chart', f, hf, hsays⟩ := h.unread.parse_finds hσ hrun
  have hbroken : ∀ b, f ≠ .broken b := by
    rintro (g | -) rfl
    · cases hsays
      exact hout g rfl
    · exact Finds.answers hR hp huses hf
  obtain ⟨n, hn⟩ := hf.exists_lasts hbroken j.1
  exact ⟨⟨some (.matcher j.1 j.2.1 σ), n, .afoot j.start⟩, ⟨σ, rfl, hσ⟩, rfl, fun _ => hn hσ⟩

variable {js : List (Job V)}

theorem Undertakes.exists_list (h : ∀ j ∈ js, ∃ s, Undertakes R chart j s) :
    ∃ L, List.Forall₂ (Undertakes R chart) js L := by
  induction js with
  | nil => exact ⟨[], .nil⟩
  | cons j js ih =>
    obtain ⟨s, hs⟩ := h j List.mem_cons_self
    obtain ⟨L, hL⟩ := ih fun j hj => h j (List.mem_cons_of_mem _ hj)
    exact ⟨s :: L, .cons hs hL⟩

theorem Undertakes.message? {j : Job V} (h : Undertakes R chart j s) : s.message? = some j.start := by
  rw [Strand.message?, h.post]

theorem Undertakes.worksFor? {j : Job V} (h : Undertakes R chart j s) : s.worksFor? = none := by
  obtain ⟨σ, htask, -⟩ := h.task
  obtain ⟨_ | (_ | _), n, post⟩ := s
  · rfl
  · rfl
  · cases htask

theorem Undertakes.owned (h : List.Forall₂ (Undertakes R chart) js L) :
    ∀ s ∈ L, s.owner ≠ none := by
  intro s hs howner
  obtain ⟨j, -, hj⟩ := exists_mem_of_forall₂ h.flip hs
  obtain ⟨σ, htask, -⟩ := hj.task
  rw [Strand.task?, howner] at htask
  cases htask

/-- Every match has its strand. -/
theorem Undertakes.filterMap_message? (h : List.Forall₂ (Undertakes R chart) js L) :
    L.filterMap Strand.message? = js.map Job.start := by
  induction h with
  | nil => rfl
  | cons hs _ ih => rw [List.filterMap_cons_some hs.message?, ih, List.map_cons]

/-- The tasks of the strands are those of the matches. -/
theorem Undertakes.forall₂_task? (h : List.Forall₂ (Undertakes R chart) js L) :
    List.Forall₂ (fun j t => t.1 = j.1 ∧ t.2.1 = j.2.1 ∧ j.2.2.source? chart = some t.2.2) js
      (L.filterMap Strand.task?) := by
  induction h with
  | nil => exact .nil
  | cons hs _ ih =>
    obtain ⟨σ, htask, hσ⟩ := hs.task
    rw [List.filterMap_cons_some htask]
    exact .cons ⟨rfl, rfl, hσ⟩ ih

/-- Strands of matches that were started, before the first delivery. -/
theorem Gathered.ledger {ok : Pattern V → Prop} (h : Gathered ok w₀ ss w chart)
    (hL : List.Forall₂ (Undertakes w₀.rulebook chart) js L) {first : List (Delivery V)}
    (hfirst : first.Perm (js.map Job.start)) :
    Ledger w₀.rulebook False chart L first { w with answers := [] } := by
  have hstrand : ∀ s ∈ L, ∃ j, Undertakes w₀.rulebook chart j s := by
    intro s hs
    obtain ⟨j, -, hj⟩ := exists_mem_of_forall₂ hL.flip hs
    exact ⟨j, hj⟩
  refine Charted.ledger h.charted h.rulebook ?_ ?_ ?_ ?_ False.elim False.elim
  · intro s hs
    obtain ⟨j, hj⟩ := hstrand s hs
    exact hj.fits _
  · rw [Undertakes.filterMap_message? hL]
    exact hfirst
  · intro id
    rw [List.filterMap_eq_nil_iff]
    intro s hs
    obtain ⟨j, hj⟩ := hstrand s hs
    rw [Strand.customer?, hj.post]
  · rw [List.filterMap_eq_nil_iff]
    intro s hs
    obtain ⟨j, hj⟩ := hstrand s hs
    exact hj.worksFor?

omit [MatchValue V] [DecidableEq V] in
theorem report_outcomeOf (n k : Nat) (a : Answer V) :
    (outcomeOf (.ok n) [a]).report = (outcomeOf (.ok k) [a]).report := by
  obtain ⟨number, s | f⟩ := a <;> rfl

/-- **Concurrent matches do not interfere.** Matches without actors from outside are started on one
event loop, in any order, over streams of one family, which may be the same streams. Each of them
comes to an end when it runs alone over a fresh copy of its stream, and meets no fault. Then the loop
goes idle, each match is answered once, and its answer is what it comes to alone. -/
theorem concurrent_matches_independent
    (hfamily : Family (fun p => p.isForeign = false) w₀ ss w) (hR : w₀.rulebook.Native)
    {jobs : List (Pattern V × Stream V)} (hjobs : ∀ j ∈ jobs, j.1.isForeign = false ∧ j.2 ∈ ss)
    (halone : ∀ j ∈ jobs, ∃ fuel out w', parse fuel none j.1 j.2 w.unread = some (out, w') ∧
      ∀ g, out ≠ .error (.halted (.fault g)))
    {first : List (Delivery V)}
    (hfirst : first.Perm (jobs.mapIdx fun i j => .ask j.2 (matcher j.1 i))) :
    ∃ n w', (∃ N loop, loop.pending = 0 ∧ ∀ fuel, N ≤ fuel →
        runLoop fuel none first { w with answers := [] } = some (.ok n, loop, w')) ∧
      (w'.answers.map Answer.matcher).Perm (List.range jobs.length) ∧
      ∀ a ∈ w'.answers, ∀ p s, jobs[a.matcher]? = some (p, s) →
        ∀ fuel out w'', parse fuel none p s w.unread = some (out, w'') →
          (outcomeOf (.ok n) [a]).report = out.report := by
  obtain ⟨chart, hgathered⟩ := hfamily.exists_gathered
  -- Each match has a strand that comes to its end.
  have hjs : ∀ j ∈ jobs.mapIdx Prod.mk, ∃ s, Undertakes w₀.rulebook chart j s := by
    intro j hj
    obtain ⟨i, hi, rfl⟩ := List.mem_mapIdx.mp hj
    obtain ⟨hp, hs⟩ := hjobs _ (List.getElem_mem hi)
    exact hgathered.exists_undertakes hR hp hs (halone _ (List.getElem_mem hi))
  obtain ⟨L, hL⟩ := Undertakes.exists_list hjs
  have hstart : jobs.mapIdx (fun i j => Delivery.ask j.2 (matcher j.1 i)) =
      (jobs.mapIdx Prod.mk).map Job.start := List.ext_getElem (by simp) (by simp [Job.start])
  have hledger := hgathered.ledger hL (hstart ▸ hfirst)
  have hbegin : Accounts w₀.rulebook (L.filterMap Strand.task?) chart L { w with answers := [] } :=
    ⟨[], .refl _, .nil⟩
  obtain ⟨es, w', chart', hidles, -, done, hdone, hanswers⟩ :=
    hledger.exists_idles (Undertakes.owned hL) hbegin
  obtain ⟨N, n, loop, hloop, hrun⟩ := hidles.exists_run
  rw [List.filterMap_nil, List.append_nil] at hdone
  have htasks := Undertakes.forall₂_task? hL
  refine ⟨n, w', ⟨N, loop, ?_, hrun⟩, ?_, ?_⟩
  · rw [Loop.pending, ← Dispatch.Queue.length_toList, hloop.toList_queue]
    rfl
  · -- the numbers of the answers are those of the tasks, which are those of the matches
    have hanswered : w'.answers.map Answer.matcher = done.map Prod.fst :=
      map_eq_of_forall₂ hanswers fun _ _ h => h.1
    have hstarted : (jobs.mapIdx Prod.mk).map Prod.fst = (L.filterMap Strand.task?).map Prod.fst :=
      map_eq_of_forall₂ htasks fun _ _ h => h.1.symm
    have hnumbers : (jobs.mapIdx Prod.mk).map Prod.fst = List.range jobs.length :=
      List.ext_getElem (by simp) (by simp)
    rw [hanswered, ← hnumbers, hstarted]
    exact hdone.map _
  · intro a ha p s hj fuel out w'' hparse
    obtain ⟨task, htask, hnumber, f, hf, hsays⟩ := exists_mem_of_forall₂ hanswers ha
    obtain ⟨j, hjmem, hjnumber, hjpattern, hjsource⟩ :=
      exists_mem_of_forall₂ htasks.flip (hdone.subset htask)
    -- the number of the answer leads back to the match
    obtain ⟨i, hi, rfl⟩ := List.mem_mapIdx.mp hjmem
    rw [hnumber, hjnumber, List.getElem?_eq_getElem hi] at hj
    simp only [Option.some.inj hj] at hjpattern hjsource
    obtain ⟨chart'', f', hf', hsays'⟩ := hgathered.unread.parse_finds hjsource hparse
    rw [hjpattern] at hf
    rw [hf.unique hf'] at hsays'
    rw [report_outcomeOf n 0, hsays.report, hsays'.report]

end Matches

/-- Two matches that read the words of a text at the same time, and one that reads a text. -/
def wordJobs : List (Pattern Value × Stream Value) :=
  [(.rule ⟨0, "rest"⟩, wordStream.1), (.rule ⟨0, "rest"⟩, wordStream.1),
    (.zeroOrMore .any, .chars ['d', 'e'] .start)]

/-- The matches are started in the reverse order. -/
theorem concurrent_matches_words :
    Family (fun p => p.isForeign = false) wordWorld
      [.chars ['d', 'e'] .start, wordStream.1, .chars ['a', ' ', 'b', 'c', '!'] .start]
      wordStream.2 ∧
    ∃ n w', (∃ N loop, loop.pending = 0 ∧ ∀ fuel, N ≤ fuel →
        runLoop fuel none (wordJobs.mapIdx fun i j => .ask j.2 (matcher j.1 i)).reverse
          { wordStream.2 with answers := [] } = some (.ok n, loop, w')) ∧
      (w'.answers.map Answer.matcher).Perm (List.range 3) ∧
      ∀ a ∈ w'.answers, ∀ p s, wordJobs[a.matcher]? = some (p, s) →
        ∀ fuel out w'', parse fuel none p s wordStream.2.unread = some (out, w'') →
          (outcomeOf (.ok n) [a]).report = out.report := by
  have hfamily : Family (fun p => p.isForeign = false) wordWorld
      [.chars ['d', 'e'] .start, wordStream.1, .chars ['a', ' ', 'b', 'c', '!'] .start]
      wordStream.2 := by
    refine .plain (.derived (.plain .none .chars) List.mem_cons_self ?_ rfl) .chars
    rintro k ⟨⟩
    rfl
  have hjobs : ∀ j ∈ wordJobs, j.1.isForeign = false ∧
      j.2 ∈ [.chars ['d', 'e'] .start, wordStream.1, .chars ['a', ' ', 'b', 'c', '!'] .start] := by
    simp [wordJobs, Pattern.isForeign]
  have hunread : wordStream.2.unread = wordStream.2 := by
    simp [World.unread, wordStream, World.derive, World.addCell, wordWorld]
  have halone : ∀ j ∈ wordJobs, ∃ r w', parse 300 none j.1 j.2 wordStream.2 =
      some (.ok r, w') := by
    simp only [wordJobs, List.forall_mem_cons]
    exact ⟨⟨_, _, rfl⟩, ⟨_, _, rfl⟩, ⟨_, _, rfl⟩, List.forall_mem_nil _⟩
  refine ⟨hfamily, concurrent_matches_independent hfamily native_wordWorld hjobs ?_
    (List.reverse_perm _)⟩
  intro j hj
  obtain ⟨r, w', hrun⟩ := halone j hj
  exact ⟨300, .ok r, w', hunread.symm ▸ hrun, by simp⟩

end Humus.Peg
