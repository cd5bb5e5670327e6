import Humus.Proofs.Peg.Chart
import Mathlib.Data.Finset.Sort
import Mathlib.Data.String.Basic

/-!
# The life of a grammar

What a grammar answers, and what it shows of itself, is a function of what was done to it. While
nothing has sealed it, it takes the first body and the last transform that each name is given; the
first request to one of its rules, or the end of its definition, seals it for good. A name is
recorded whenever it is looked up, and while the grammar is open whenever it is given something.

## Main definitions

* `Act`, `World.act`: what is done to the grammar of a number, and what comes of it
* `Act.opening`: the part of a past before the grammar was sealed
* `Act.recorded`, `Act.bodyOf`, `Act.transformOf`, `Act.hasSealed`: what a past makes of a grammar
* `Act.reply`: the reply that is due to an act, given the past
* `Registered`: the pasts of a grammar, while anything may happen elsewhere

## Main results

* `Grammar.Records.after`: every act leaves the grammar as the past now says
* `Registered.run`: a run does nothing to a grammar but ask its rules to match
* `registry_faithful`: replies and observations are those that the past demands
-/

namespace Humus.Peg

open Text (Outline)

variable {V : Type}

/-- What is done to a grammar. -/
inductive Act (V : Type) where
  /-- A rule is looked up, so that a pattern can call it. -/
  | lookup (name : String)
  | define (name : String) (body : Pattern V)
  | transform (name : String) (f : Transform V)
  /-- The definition is ended. -/
  | close
  /-- A rule is asked to match. -/
  | request (name : String) (r : Request V)

/-- What comes of an act. -/
inductive Reply (V : Type) where
  | pattern (p : Pattern V)
  | done
  | refused (fault : Fault)
  /-- What the rule asks for. -/
  | effects (effects : Effects V)

/-- Do something to the grammar of this number. -/
def World.act [MatchValue V] [DecidableEq V] (w : World V) (id : Nat) :
    Act V → Reply V × World V
  | .lookup name =>
    let g := (w.grammar? id).getD .empty
    (.pattern (.rule ⟨id, name⟩), w.setGrammar id (some (g.mention name)))
  | .define name body =>
    match ((w.grammar? id).getD .empty).define name body with
    | .error fault => (.refused fault, w)
    | .ok g => (.pattern (.rule ⟨id, name⟩), w.setGrammar id (some g))
  | .transform name f =>
    match ((w.grammar? id).getD .empty).transform name f with
    | .error fault => (.refused fault, w)
    | .ok g => (.done, w.setGrammar id (some g))
  | .close =>
    match ((w.grammar? id).getD .empty).close with
    | (.error fault, g) => (.refused fault, w.setGrammar id (some g))
    | (.ok (), g) => (.done, w.setGrammar id (some g))
  | .request name r =>
    let (effects, w) := receive (.request (.rule ⟨id, name⟩) r) w
    (.effects effects, w)

/-! ## What a past demands -/

namespace Act

/-- Whether an act seals the grammar. -/
def seals : Act V → Bool
  | close | request _ _ => true
  | _ => false

/-- The name that an act looks up. -/
def lookedUp : Act V → List String
  | lookup name => [name]
  | _ => []

/-- The name that an act gives something to. -/
def given : Act V → List String
  | define name _ | transform name _ => [name]
  | _ => []

/-- The body that an act has for the rule `rule`. -/
def bodyFor (rule : String) : Act V → Option (Pattern V)
  | define name body => if rule = name then some body else none
  | _ => none

/-- The transform that an act has for the rule `rule`. -/
def transformFor (rule : String) : Act V → Option (Transform V)
  | transform name f => if rule = name then some f else none
  | _ => none

variable (past : List (Act V))

/-- Whether something has sealed the grammar. -/
def hasSealed : Bool := past.any seals

/-- What was done before something sealed the grammar. -/
def opening : List (Act V) := past.takeWhile fun a => !a.seals

/-- The names that were ever looked up, or given something while the grammar was open. -/
def recorded : Finset String :=
  (past.flatMap lookedUp).toFinset ∪ ((opening past).flatMap given).toFinset

/-- The first body that the rule was given while the grammar was open. -/
def bodyOf (rule : String) : Option (Pattern V) := (opening past).findSome? (bodyFor rule)

/-- The last transform that the rule was given while the grammar was open. -/
def transformOf (rule : String) : Option (Transform V) :=
  (opening past).reverse.findSome? (transformFor rule)

/-- The names with a body. -/
def defined : Finset String := (recorded past).filter fun rule => (bodyOf past rule).isSome

/-- The names without a body. -/
def missing : Finset String := (recorded past).filter fun rule => (bodyOf past rule).isNone

/-- The reply that is due. -/
def reply (id : Nat) : Act V → Reply V
  | lookup name => .pattern (.rule ⟨id, name⟩)
  | define name _ =>
    if hasSealed past then .refused (.sealed name .define)
    else if (bodyOf past name).isSome then .refused (.redefined name)
    else .pattern (.rule ⟨id, name⟩)
  | transform name _ =>
    if hasSealed past then .refused (.sealed name .transform) else .done
  | close =>
    if missing past = ∅ then .done else .refused (.unresolved (missing past).sort)
  | request name r =>
    .effects <|
      match bodyOf past name with
      | none => [.halt (.undefined name)]
      | some body =>
        ask body r.input
          (match transformOf past name with
          | none => r.ok
          | some f => .transform ⟨id, name⟩ f r.ok)
          (.relabel name r.fail)

variable {past} {a : Act V} {rule : String}

theorem hasSealed_snoc : hasSealed (past ++ [a]) = (hasSealed past || a.seals) := by
  simp [hasSealed]

/-- What is done to a sealed grammar adds nothing to its opening. -/
theorem opening_append (h : hasSealed past) (later : List (Act V)) :
    opening (past ++ later) = opening past := by
  induction past with
  | nil => cases h
  | cons b past ih =>
    unfold opening at ih ⊢
    rcases hb : b.seals with _ | _
    · have hpast : hasSealed past = true := by simpa [hasSealed, hb] using h
      simp [hb, ih hpast]
    · simp [hb]

theorem opening_eq (h : hasSealed past = false) : opening past = past := by
  have hall : ∀ b ∈ past, (!b.seals) = true := fun b hb => by
    simpa using List.any_eq_false.mp h b hb
  rw [opening, ← List.append_nil past, List.takeWhile_append_of_pos hall, List.takeWhile_nil]

theorem opening_snoc (h : hasSealed past = false) :
    opening (past ++ [a]) = if a.seals then past else past ++ [a] := by
  cases ha : a.seals with
  | true =>
    rw [if_pos rfl]
    have hall : ∀ b ∈ past, (!b.seals) = true := fun b hb => by
      simpa using List.any_eq_false.mp h b hb
    rw [opening, List.takeWhile_append_of_pos hall]
    simp [ha]
  | false => exact opening_eq (by rw [hasSealed_snoc, h, ha]; rfl)

theorem recorded_snoc :
    recorded (past ++ [a]) =
      recorded past ∪ (a.lookedUp ++ if hasSealed past then [] else a.given).toFinset := by
  unfold recorded
  cases h : hasSealed past with
  | true =>
    rw [opening_append h]
    simp only [List.flatMap_append, List.flatMap_cons, List.flatMap_nil, List.append_nil,
      List.toFinset_append, if_true]
    exact Finset.union_right_comm _ _ _
  | false =>
    rw [opening_snoc h, opening_eq h]
    have hgiven : (if a.seals then past else past ++ [a]).flatMap given =
        past.flatMap given ++ a.given := by
      cases a <;> simp [seals, given]
    rw [hgiven]
    simp only [List.flatMap_append, List.flatMap_cons, List.flatMap_nil, List.append_nil,
      List.toFinset_append, Bool.false_eq_true, if_false]
    exact Finset.union_union_union_comm _ _ _ _

theorem bodyOf_snoc :
    bodyOf (past ++ [a]) rule =
      if hasSealed past then bodyOf past rule else (bodyOf past rule).or (a.bodyFor rule) := by
  unfold bodyOf
  cases h : hasSealed past with
  | true => rw [opening_append h]; rfl
  | false =>
    rw [opening_snoc h, opening_eq h]
    cases a <;> simp [seals, bodyFor, List.findSome?_append]

theorem transformOf_snoc :
    transformOf (past ++ [a]) rule =
      if hasSealed past then transformOf past rule
      else (a.transformFor rule).or (transformOf past rule) := by
  unfold transformOf
  cases h : hasSealed past with
  | true => rw [opening_append h]; rfl
  | false =>
    rw [opening_snoc h, opening_eq h]
    cases ha : a.seals with
    | true => cases a <;> simp_all [seals, transformFor]
    | false =>
      rw [if_neg Bool.false_ne_true, if_neg Bool.false_ne_true, List.reverse_append,
        List.reverse_singleton, List.singleton_append, List.findSome?_cons]
      cases a.transformFor rule <;> rfl

/-- Two pasts make the same of a grammar. -/
structure SameAs (past past' : List (Act V)) : Prop where
  recorded : recorded past = Act.recorded past'
  bodyOf : ∀ rule, bodyOf past rule = Act.bodyOf past' rule
  transformOf : ∀ rule, transformOf past rule = Act.transformOf past' rule
  hasSealed : hasSealed past = Act.hasSealed past'

theorem mem_recorded_of_bodyOf (h : (bodyOf past rule).isSome) : rule ∈ recorded past := by
  obtain ⟨body, hbody⟩ := Option.isSome_iff_exists.mp h
  obtain ⟨a, ha, hfor⟩ := List.exists_of_findSome?_eq_some hbody
  refine Finset.mem_union_right _ (List.mem_toFinset.mpr (List.mem_flatMap.mpr ⟨a, ha, ?_⟩))
  cases a with
  | define name body' =>
    simp only [bodyFor] at hfor
    split_ifs at hfor with hname
    exact List.mem_singleton.mpr hname
  | _ => cases hfor

/-- **A refused act changes nothing**: the past goes on as if it had not been. -/
theorem SameAs.of_refused (id : Nat) {fault : Fault} (ha : a ≠ close)
    (h : reply past id a = .refused fault) : SameAs (past ++ [a]) past := by
  have hopen : a.seals = false ∧ a.lookedUp = [] := by
    cases a with
    | lookup => cases h
    | define | transform => exact ⟨rfl, rfl⟩
    | close => exact absurd rfl ha
    | request => cases h
  cases hpast : Act.hasSealed past with
  | true =>
    constructor
    · simp [recorded_snoc, hpast, hopen.2]
    · simp [bodyOf_snoc, hpast]
    · simp [transformOf_snoc, hpast]
    · simp [hasSealed_snoc, hopen.1]
  | false =>
    -- a name that has a body is on record, and keeps its first body
    obtain ⟨name, body, rfl, hname⟩ :
        ∃ name body, a = define name body ∧ (Act.bodyOf past name).isSome := by
      cases a with
      | lookup => cases h
      | define name body =>
        refine ⟨name, body, rfl, ?_⟩
        by_contra hname
        simp only [reply, hpast, Bool.false_eq_true, if_false, hname] at h
        cases h
      | transform name f => simp [reply, hpast] at h
      | close => exact absurd rfl ha
      | request => cases h
    constructor
    · have hmem := mem_recorded_of_bodyOf hname
      simp [recorded_snoc, hpast, lookedUp, given, hmem]
    · intro rule
      rw [bodyOf_snoc, hpast, if_neg Bool.false_ne_true]
      by_cases hrule : rule = name
      · rw [hrule, Option.or_of_isSome hname]
      · rw [bodyFor, if_neg hrule, Option.or_none]
    · simp [transformOf_snoc, hpast, transformFor]
    · simp [hasSealed_snoc, seals]

end Act

/-! ## The rules of a grammar -/

namespace Grammar

variable {g : Grammar V} {past : List (Act V)} {name rule : String} {f : Rule V → Rule V}
  {rules : List (String × Rule V)}

theorem map_fst_updateRule :
    (updateRule name f rules).map Prod.fst =
      if name ∈ rules.map Prod.fst then rules.map Prod.fst else rules.map Prod.fst ++ [name] := by
  induction rules with
  | nil => rfl
  | cons entry rules ih =>
    obtain ⟨n, r⟩ := entry
    unfold updateRule
    by_cases hn : n = name
    · simp [hn]
    · rw [if_neg hn, List.map_cons, ih]
      simp only [List.map_cons, List.mem_cons, Ne.symm hn, false_or]
      split <;> rfl

theorem lookup_cons_eq (n : String) (r : Rule V) :
    ((n, r) :: rules).lookup rule = if rule = n then some r else rules.lookup rule := by
  rw [List.lookup_cons]
  by_cases h : rule = n
  · simp [h]
  · rw [if_neg h, beq_eq_false_iff_ne.mpr h]

theorem lookup_updateRule :
    (updateRule name f rules).lookup rule =
      if rule = name then some (f ((rules.lookup name).getD {})) else rules.lookup rule := by
  induction rules with
  | nil => exact lookup_cons_eq name _
  | cons entry rules ih =>
    obtain ⟨n, r⟩ := entry
    unfold updateRule
    by_cases hn : n = name
    · subst hn
      simp only [if_true, lookup_cons_eq, Option.getD_some]
      split_ifs <;> rfl
    · rw [if_neg hn, lookup_cons_eq, ih, lookup_cons_eq, lookup_cons_eq, if_neg (Ne.symm hn)]
      by_cases h : rule = n
      · rw [if_pos h, if_neg (h ▸ hn), if_pos h]
      · rw [if_neg h, if_neg h]

/-- In a list with each name once, the look-up finds every entry. -/
theorem mem_iff_lookup (h : (rules.map Prod.fst).Nodup) {r : Rule V} :
    (name, r) ∈ rules ↔ rules.lookup name = some r := by
  induction rules with
  | nil => simp
  | cons entry rules ih =>
    obtain ⟨n, s⟩ := entry
    obtain ⟨hn, hnodup⟩ := List.nodup_cons.mp h
    rw [lookup_cons_eq, List.mem_cons]
    by_cases hname : name = n
    · subst hname
      have hmem : (name, r) ∉ rules := fun hmem =>
        absurd (List.mem_map_of_mem (f := Prod.fst) hmem) hn
      simp [hmem, eq_comm]
    · simp [hname, ih hnodup]

/-- What a grammar knows after a past. -/
structure Records (g : Grammar V) (past : List (Act V)) : Prop where
  nodup : (g.rules.map Prod.fst).Nodup
  toFinset_names : (g.rules.map Prod.fst).toFinset = Act.recorded past
  body : ∀ rule, (g.rule? rule).bind Rule.body = Act.bodyOf past rule
  transform : ∀ rule, (g.rule? rule).bind Rule.transform = Act.transformOf past rule
  isSealed : g.isSealed = Act.hasSealed past

theorem records_empty : (empty : Grammar V).Records [] :=
  ⟨.nil, rfl, fun _ => rfl, fun _ => rfl, rfl⟩

/-- What an act makes of a grammar. -/
def after (g : Grammar V) : Act V → Grammar V
  | .lookup name => g.mention name
  | .define name body => (g.define name body).toOption.getD g
  | .transform name f => (g.transform name f).toOption.getD g
  | .close | .request _ _ => { g with isSealed := true }

variable {a : Act V}

/-- A change of one rule keeps the records, when the past says the same of that rule and of no
other. -/
theorem Records.update (h : g.Records past) {past' : List (Act V)}
    (hnames : Act.recorded past' = insert name (Act.recorded past))
    (hbody : ∀ rule, Act.bodyOf past' rule =
      if rule = name then (f ((g.rule? name).getD {})).body else Act.bodyOf past rule)
    (htransform : ∀ rule, Act.transformOf past' rule =
      if rule = name then (f ((g.rule? name).getD {})).transform else Act.transformOf past rule)
    (hsealed : Act.hasSealed past' = Act.hasSealed past) :
    ({ g with rules := updateRule name f g.rules } : Grammar V).Records past' := by
  refine ⟨?_, ?_, fun rule => ?_, fun rule => ?_, h.isSealed.trans hsealed.symm⟩
  · rw [map_fst_updateRule]
    split_ifs with hmem
    · exact h.nodup
    · exact List.nodup_append.mpr ⟨h.nodup, List.nodup_singleton _, by
        rintro n hn _ hm rfl
        exact hmem (List.mem_singleton.mp hm ▸ hn)⟩
  · rw [map_fst_updateRule, hnames, ← h.toFinset_names]
    split_ifs with hmem
    · rw [Finset.insert_eq_of_mem (List.mem_toFinset.mpr hmem)]
    · rw [List.toFinset_append, List.toFinset_cons, List.toFinset_nil, insert_empty_eq,
        Finset.union_comm, Finset.insert_eq]
  · rw [hbody, ← h.body, rule?, lookup_updateRule]
    split_ifs <;> rfl
  · rw [htransform, ← h.transform, rule?, lookup_updateRule]
    split_ifs <;> rfl

theorem Records.rule_body (h : g.Records past) (rule : String) :
    ((g.rule? rule).getD {}).body = Act.bodyOf past rule := by
  rw [← h.body]
  cases g.rule? rule <;> rfl

theorem Records.rule_transform (h : g.Records past) (rule : String) :
    ((g.rule? rule).getD {}).transform = Act.transformOf past rule := by
  rw [← h.transform]
  cases g.rule? rule <;> rfl

theorem Records.mention (h : g.Records past) (name : String) :
    (g.mention name).Records (past ++ [.lookup name]) := by
  refine h.update ?_ (fun rule => ?_) (fun rule => ?_) ?_
  · rw [Act.recorded_snoc, Finset.union_comm, Finset.insert_eq]
    cases Act.hasSealed past <;> rfl
  · rw [Act.bodyOf_snoc]
    simp only [id, h.rule_body, Act.bodyFor, Option.or_none, ite_self]
    split_ifs with hname <;> simp [hname]
  · rw [Act.transformOf_snoc]
    simp only [id, h.rule_transform, Act.transformFor, Option.none_or, ite_self]
    split_ifs with hname <;> simp [hname]
  · simp [Act.hasSealed_snoc, Act.seals]

theorem Records.seal (h : g.Records past) (ha : a.seals = true) :
    ({ g with isSealed := true } : Grammar V).Records (past ++ [a]) := by
  refine ⟨h.nodup, ?_, fun rule => ?_, fun rule => ?_, ?_⟩
  · rw [Act.recorded_snoc, h.toFinset_names]
    cases a <;> simp_all [Act.seals, Act.lookedUp, Act.given]
  · rw [Act.bodyOf_snoc]
    refine (h.body rule).trans ?_
    cases a <;> simp_all [Act.seals, Act.bodyFor]
  · rw [Act.transformOf_snoc]
    refine (h.transform rule).trans ?_
    cases a <;> simp_all [Act.seals, Act.transformFor]
  · rw [Act.hasSealed_snoc, ha, Bool.or_true]

theorem Records.define (h : g.Records past) (hopen : Act.hasSealed past = false)
    (hnone : Act.bodyOf past name = none) (body : Pattern V) :
    ({ g with rules := updateRule name ({ · with body := some body }) g.rules } :
      Grammar V).Records (past ++ [.define name body]) := by
  refine h.update ?_ (fun rule => ?_) (fun rule => ?_) ?_
  · rw [Act.recorded_snoc, hopen, Finset.union_comm, Finset.insert_eq]
    rfl
  · rw [Act.bodyOf_snoc, hopen, if_neg Bool.false_ne_true, Act.bodyFor]
    split_ifs with hname
    · rw [hname, hnone]
      rfl
    · exact Option.or_none
  · rw [Act.transformOf_snoc, hopen, if_neg Bool.false_ne_true]
    simp only [h.rule_transform, Act.transformFor, Option.none_or]
    split_ifs with hname <;> simp [hname]
  · rw [Act.hasSealed_snoc]
    exact Bool.or_false _

theorem Records.transform_snoc (h : g.Records past) (hopen : Act.hasSealed past = false)
    (f : Transform V) :
    ({ g with rules := updateRule name ({ · with transform := some f }) g.rules } :
      Grammar V).Records (past ++ [.transform name f]) := by
  refine h.update ?_ (fun rule => ?_) (fun rule => ?_) ?_
  · rw [Act.recorded_snoc, hopen, Finset.union_comm, Finset.insert_eq]
    rfl
  · rw [Act.bodyOf_snoc, hopen, if_neg Bool.false_ne_true]
    simp only [h.rule_body, Act.bodyFor, Option.or_none]
    split_ifs with hname <;> simp [hname]
  · rw [Act.transformOf_snoc, hopen, if_neg Bool.false_ne_true, Act.transformFor]
    split_ifs with hname
    · rfl
    · exact Option.none_or
  · rw [Act.hasSealed_snoc]
    exact Bool.or_false _

theorem Records.congr {past' : List (Act V)} (h : g.Records past)
    (hsame : Act.SameAs past' past) : g.Records past' :=
  ⟨h.nodup, h.toFinset_names.trans hsame.recorded.symm,
    fun rule => (h.body rule).trans (hsame.bodyOf rule).symm,
    fun rule => (h.transform rule).trans (hsame.transformOf rule).symm,
    h.isSealed.trans hsame.hasSealed.symm⟩

/-- The three ways in which a definition ends. -/
theorem Records.define_eq (h : g.Records past) (name : String) (body : Pattern V) :
    g.define name body =
      if Act.hasSealed past then .error (.sealed name .define)
      else if (Act.bodyOf past name).isSome then .error (.redefined name)
      else .ok { g with rules := updateRule name ({ · with body := some body }) g.rules } := by
  rw [Grammar.define, h.isSealed, h.body]

theorem Records.transform_eq (h : g.Records past) (name : String) (f : Transform V) :
    g.transform name f =
      if Act.hasSealed past then .error (.sealed name .transform)
      else .ok { g with rules := updateRule name ({ · with transform := some f }) g.rules } := by
  rw [Grammar.transform, h.isSealed]

/-- **Every act leaves the grammar as the past now says.** -/
theorem Records.after (h : g.Records past) (a : Act V) : (g.after a).Records (past ++ [a]) := by
  cases a with
  | lookup name => exact h.mention name
  | define name body =>
    rw [Grammar.after, h.define_eq]
    split_ifs with hsealed hbody
    · exact h.congr (.of_refused 0 nofun (if_pos hsealed))
    · exact h.congr (.of_refused 0 nofun ((if_neg hsealed).trans (if_pos hbody)))
    · exact h.define (Bool.eq_false_iff.mpr hsealed) (Option.not_isSome_iff_eq_none.mp hbody) body
  | transform name f =>
    rw [Grammar.after, h.transform_eq]
    split_ifs with hsealed
    · exact h.congr (.of_refused 0 nofun (if_pos hsealed))
    · exact h.transform_snoc (Bool.eq_false_iff.mpr hsealed) f
  | close => exact h.seal rfl
  | request name r => exact h.seal rfl

/-! ## What a grammar shows -/

/-- The names of some rules, in increasing order and each once. -/
theorem Records.namesWhere_eq (h : g.Records past) {test : Rule V → Bool} {p : String → Bool}
    (htest : ∀ rule r, g.rule? rule = some r → test r = p rule) :
    g.namesWhere test = ((Act.recorded past).filter fun rule => p rule).sort := by
  have hsublist : ((g.rules.filter fun x => test x.2).map Prod.fst).Sublist
      (g.rules.map Prod.fst) := List.filter_sublist.map _
  have hperm := List.mergeSort_perm ((g.rules.filter fun x => test x.2).map Prod.fst)
    fun a b => decide (a ≤ b)
  have hset : ((g.rules.filter fun x => test x.2).map Prod.fst).toFinset =
      (Act.recorded past).filter fun rule => p rule := by
    rw [← h.toFinset_names]
    ext rule
    simp only [List.mem_toFinset, Finset.mem_filter, List.mem_map, List.mem_filter]
    constructor
    · rintro ⟨⟨n, r⟩, ⟨hmem, hr⟩, rfl⟩
      exact ⟨⟨_, hmem, rfl⟩, (htest _ _ ((mem_iff_lookup h.nodup).mp hmem)).symm.trans hr⟩
    · rintro ⟨⟨⟨n, r⟩, hmem, rfl⟩, hp⟩
      exact ⟨_, ⟨hmem, (htest _ _ ((mem_iff_lookup h.nodup).mp hmem)).trans hp⟩, rfl⟩
  have hnodup : (g.namesWhere test).Nodup := hperm.nodup_iff.mpr (hsublist.nodup h.nodup)
  have hsorted : (g.namesWhere test).Pairwise (· ≤ ·) := List.pairwise_mergeSort' _ _
  rw [← hset, ← List.toFinset_eq_of_perm _ _ hperm]
  exact ((List.toFinset_sort (· ≤ ·) hnodup).mpr hsorted).symm

theorem Records.names_eq (h : g.Records past) : g.names = (Act.defined past).sort := by
  refine h.namesWhere_eq (p := fun rule => (Act.bodyOf past rule).isSome) fun rule r hr => ?_
  rw [← h.body, hr]
  rfl

theorem Records.missing_eq (h : g.Records past) :
    g.namesWhere (·.body.isNone) = (Act.missing past).sort := by
  refine h.namesWhere_eq (p := fun rule => (Act.bodyOf past rule).isNone) fun rule r hr => ?_
  rw [← h.body, hr]
  rfl

theorem Records.contains_eq (h : g.Records past) (rule : String) :
    g.contains rule = (Act.bodyOf past rule).isSome := by
  rw [Grammar.contains, h.body]

theorem Records.close_eq (h : g.Records past) :
    g.close = (if Act.missing past = ∅ then .ok () else .error (.unresolved (Act.missing past).sort),
      { g with isSealed := true }) := by
  have hempty : ((Act.missing past).sort).isEmpty = true ↔ Act.missing past = ∅ := by
    rw [List.isEmpty_iff_length_eq_zero, Finset.length_sort, Finset.card_eq_zero]
  rw [Grammar.close, h.missing_eq]
  simp only [hempty]

theorem Records.outline_eq (h : g.Records past) :
    g.outline = .record "Namespace" [("rules", .nat (Act.recorded past).card),
      ("sealed", .bool (Act.hasSealed past))] := by
  rw [Grammar.outline, h.isSealed, ← h.toFinset_names, List.toFinset_card_of_nodup h.nodup,
    List.length_map]

end Grammar

/-! ## What happens to a grammar in a world -/

section Worlds

variable [MatchValue V] [DecidableEq V] {w w' : World V} {id : Nat} {g : Grammar V} {a : Act V}
  {past : List (Act V)}

omit [MatchValue V] [DecidableEq V] in
theorem grammar?_setGrammar_self (h : w.grammar? id = some g) (g' : Grammar V) :
    (w.setGrammar id (some g')).grammar? id = some g' := by
  have hlt : id < w.grammars.size := by
    by_contra hge
    simp [World.grammar?, Array.getElem?_eq_none (Nat.not_lt.mp hge)] at h
  rw [World.grammar?_setGrammar, if_pos ⟨rfl, hlt⟩]

omit [MatchValue V] [DecidableEq V] in
theorem grammar?_sealGrammar (h : w.grammar? id = some g) (i : Nat) :
    (w.sealGrammar i).grammar? id = some (if i = id then { g with isSealed := true } else g) := by
  unfold World.sealGrammar
  by_cases hi : i = id
  · subst hi
    simp only [h, if_true]
    split_ifs with hsealed
    · rw [h]
      obtain ⟨rules, isSealed⟩ := g
      obtain rfl : isSealed = true := hsealed
      rfl
    · exact grammar?_setGrammar_self h _
  · rw [if_neg hi]
    rcases w.grammar? i with _ | g₁
    · exact h
    · dsimp only
      split_ifs
      · exact h
      · rw [World.grammar?_setGrammar, if_neg fun hand => hi hand.1.symm, h]

/-- What a delivery does to the grammar of a number: it asks one of its rules, or nothing. -/
def Delivery.acts (id : Nat) : Delivery V → List (Act V)
  | .request (.rule ref) r => if ref.grammar = id then [.request ref.name r] else []
  | _ => []

/-- **No delivery but the request to a rule touches a grammar.** -/
theorem grammars_receive {d : Delivery V} (hd : ∀ ref r, d ≠ .request (.rule ref) r)
    (w : World V) : (receive d w).2.grammars = w.grammars := by
  cases d with
  | request p r =>
    cases p with
    | rule ref => exact absurd rfl (hd ref r)
    | _ => rfl
  | tallied | ignored => rfl
  | success customer s =>
    cases customer with
    | report | nextItem | again | found | unwanted => rfl
    | transform ref f ok =>
      simp only [receive, onSuccess]
      split <;> rfl
    | skipped i =>
      simp only [receive, onSuccess, withCell]
      split <;> rfl
    | lexed i here =>
      simp only [receive, onSuccess, withCell, resolveMatch]
      split
      · split_ifs <;> rfl
      · rfl
  | failure customer f =>
    cases customer with
    | unskipped i | unlexed i =>
      simp only [receive, onFailure, withCell]
      split <;> rfl
    | _ => rfl
  | cursor customer c =>
    cases customer with
    | reader i =>
      simp only [receive, onCursor, withCell]
      split <;> rfl
    | _ => rfl
  | ask stream customer =>
    cases stream with
    | derived i =>
      simp only [receive, answerStream, askCell]
      split
      · rfl
      · split
        · rfl
        · rfl
        · split <;> rfl
    | _ => rfl

theorem grammar?_receive_request (h : w.grammar? id = some g) (ref : RuleRef) (r : Request V) :
    (receive (.request (.rule ref) r) w).2.grammar? id =
      some (if ref.grammar = id then { g with isSealed := true } else g) := by
  simp only [receive, matchPattern, matchRule_eq]
  split <;> exact grammar?_sealGrammar h _

theorem grammar?_act (h : w.grammar? id = some g) (a : Act V) :
    (w.act id a).2.grammar? id = some (g.after a) := by
  cases a with
  | lookup name =>
    simp only [World.act, h, Option.getD_some]
    exact grammar?_setGrammar_self h _
  | define name body =>
    simp only [World.act, h, Option.getD_some, Grammar.after]
    rcases g.define name body with fault | g'
    · exact h
    · exact grammar?_setGrammar_self h _
  | transform name f =>
    simp only [World.act, h, Option.getD_some, Grammar.after]
    rcases g.transform name f with fault | g'
    · exact h
    · exact grammar?_setGrammar_self h _
  | close =>
    simp only [World.act, h, Option.getD_some]
    have hclose : g.close.2 = { g with isSealed := true } := rfl
    rcases hg : g.close with ⟨fault | ⟨⟩, g'⟩ <;> rw [hg] at hclose <;> subst hclose <;>
      exact grammar?_setGrammar_self h _
  | request name r =>
    have hreceive := grammar?_receive_request h ⟨id, name⟩ r
    rw [if_pos rfl] at hreceive
    exact hreceive

omit [MatchValue V] [DecidableEq V] in
theorem Grammar.Records.rulebook_eq (hg : g.Records past) (h : w.grammar? id = some g)
    (name : String) :
    w.rulebook ⟨id, name⟩ =
      match Act.bodyOf past name with
      | none => .error (.undefined name)
      | some body => .ok (body, Act.transformOf past name) := by
  rw [← hg.rule_body, ← hg.rule_transform]
  simp only [World.rulebook, h]
  rcases (g.rule? name).getD {} with ⟨_ | body, transform⟩ <;> rfl

/-- Every act has the reply that is due to it. -/
theorem Grammar.Records.reply_eq (hg : g.Records past) (h : w.grammar? id = some g) (a : Act V) :
    (w.act id a).1 = Act.reply past id a := by
  cases a with
  | lookup name => rfl
  | define name body =>
    simp only [World.act, h, Option.getD_some, hg.define_eq, Act.reply]
    split_ifs <;> rfl
  | transform name f =>
    simp only [World.act, h, Option.getD_some, hg.transform_eq, Act.reply]
    split_ifs <;> rfl
  | close =>
    simp only [World.act, h, Option.getD_some, hg.close_eq, Act.reply]
    split_ifs <;> rfl
  | request name r =>
    simp only [World.act, receive, matchPattern, matchRule_eq, hg.rulebook_eq h, Act.reply]
    rcases Act.bodyOf past name with _ | body <;> rfl

/-- An act that is refused leaves the world as it is. The end of a definition seals the grammar
nevertheless. -/
theorem act_eq_of_refused {fault : Fault} (ha : a ≠ .close)
    (h : (w.act id a).1 = .refused fault) : (w.act id a).2 = w := by
  cases a with
  | lookup | request => cases h
  | close => exact absurd rfl ha
  | define name body =>
    simp only [World.act] at h ⊢
    split at h <;> first | rfl | cases h
  | transform name f =>
    simp only [World.act] at h ⊢
    split at h <;> first | rfl | cases h

/-! ## Pasts -/

/-- What was done to the grammar of a number since it was made, while anything may have happened to
the rest of the world. -/
inductive Registered (id : Nat) : List (Act V) → World V → Prop
  | opened {w : World V} (h : w.grammar? id = some .empty) : Registered id [] w
  | acted {past : List (Act V)} {w : World V} (h : Registered id past w) (a : Act V) :
      Registered id (past ++ [a]) (w.act id a).2
  | elsewhere {past : List (Act V)} {w w' : World V} (h : Registered id past w)
      (heq : w'.grammar? id = w.grammar? id) : Registered id past w'

theorem Registered.exists_records (h : Registered id past w) :
    ∃ g, w.grammar? id = some g ∧ g.Records past := by
  induction h with
  | opened h => exact ⟨_, h, Grammar.records_empty⟩
  | acted _ a ih =>
    obtain ⟨g, hg, hrecords⟩ := ih
    exact ⟨_, grammar?_act hg a, hrecords.after a⟩
  | elsewhere _ heq ih =>
    obtain ⟨g, hg, hrecords⟩ := ih
    exact ⟨g, heq.trans hg, hrecords⟩

/-- What a delivery adds to the past. -/
theorem Registered.receive (h : Registered id past w) (d : Delivery V) :
    Registered id (past ++ d.acts id) (receive d w).2 := by
  by_cases hd : ∃ ref r, d = .request (.rule ref) r
  · obtain ⟨ref, r, rfl⟩ := hd
    simp only [Delivery.acts]
    split_ifs with hid
    · obtain ⟨_, name⟩ := ref
      subst hid
      exact h.acted (.request name r)
    · obtain ⟨g, hg, -⟩ := h.exists_records
      rw [List.append_nil]
      refine h.elsewhere ?_
      rw [grammar?_receive_request hg, if_neg hid, hg]
  · have hrule : ∀ ref r, d ≠ .request (.rule ref) r := fun ref r hdr => hd ⟨ref, r, hdr⟩
    have hacts : d.acts id = [] := by
      unfold Delivery.acts
      split
      · exact absurd rfl (hrule _ _)
      · rfl
    rw [hacts, List.append_nil]
    exact h.elsewhere (congrArg (fun gs => (gs[id]?).join) (grammars_receive hrule w))

/-- **A run does nothing to a grammar but ask its rules to match.** -/
theorem Registered.run (h : Registered id past w) {first fuel : Nat}
    {loop loop' : Dispatch.Loop (Delivery V) Fault}
    {result : Except (Dispatch.Stop Fault) Nat}
    (hrun : loop.runFrom Peg.receive first fuel w = some (result, loop', w')) :
    ∃ asked : List (String × Request V),
      Registered id (past ++ asked.map fun x => .request x.1 x.2) w' := by
  induction fuel generalizing loop w past with
  | zero => cases hrun
  | succ fuel ih =>
    have hhere : ∃ asked : List (String × Request V),
        Registered id (past ++ asked.map fun x => .request x.1 x.2) w :=
      ⟨[], by rwa [List.map_nil, List.append_nil]⟩
    simp only [Dispatch.Loop.runFrom] at hrun
    split at hrun
    · cases hrun
      exact hhere
    · split at hrun
      · cases hrun
        exact hhere
      · split at hrun
        · cases hrun
          exact hhere
        · rename_i loop₁ w₁ hstep
          -- one delivery, then the rest of the run
          obtain ⟨d, hw₁⟩ : ∃ d, w₁ = (Peg.receive d w).2 := by
            unfold Dispatch.Loop.step at hstep
            split at hstep
            · cases hstep
            · rename_i d _ _
              exact ⟨d, (congrArg (·.2) (Option.some.inj hstep)).symm⟩
          obtain ⟨asked₁, hasked₁⟩ : ∃ asked : List (String × Request V),
              d.acts id = asked.map fun x => .request x.1 x.2 := by
            unfold Delivery.acts
            split
            · split_ifs
              · exact ⟨[(_, _)], rfl⟩
              · exact ⟨[], rfl⟩
            · exact ⟨[], rfl⟩
          have hnext := h.receive d
          rw [← hw₁] at hnext
          obtain ⟨asked, hasked⟩ := ih hnext hrun
          refine ⟨asked₁ ++ asked, ?_⟩
          rwa [List.map_append, ← List.append_assoc, ← hasked₁]

/-- **Replies and observations are those that the past demands.** A refused act changes nothing,
and once something has sealed the grammar, no rule has another body or transform ever again. -/
theorem registry_faithful (h : Registered id past w) :
    (∀ a, (w.act id a).1 = Act.reply past id a) ∧
    (∀ a fault, a ≠ .close → Act.reply past id a = .refused fault →
      (w.act id a).2 = w ∧ Act.SameAs (past ++ [a]) past) ∧
    ∃ g, w.grammar? id = some g ∧
      (∀ rule, g.contains rule = (Act.bodyOf past rule).isSome) ∧
      g.names = (Act.defined past).sort ∧
      g.isSealed = Act.hasSealed past ∧
      g.outline = .record "Namespace" [("rules", .nat (Act.recorded past).card),
        ("sealed", .bool (Act.hasSealed past))] ∧
      (g.close.1 =
        if Act.missing past = ∅ then .ok () else .error (.unresolved (Act.missing past).sort)) ∧
      (∀ rule, (g.rule? rule).bind Rule.body = Act.bodyOf past rule ∧
        (g.rule? rule).bind Rule.transform = Act.transformOf past rule) ∧
      (g.isSealed = true → ∀ later w', Registered id (past ++ later) w' →
        ∃ g', w'.grammar? id = some g' ∧ g'.isSealed = true ∧
          ∀ rule, (g'.rule? rule).bind Rule.body = (g.rule? rule).bind Rule.body ∧
            (g'.rule? rule).bind Rule.transform = (g.rule? rule).bind Rule.transform) := by
  obtain ⟨g, hg, hrecords⟩ := h.exists_records
  refine ⟨hrecords.reply_eq hg, fun a fault ha hreply => ⟨?_, .of_refused id ha hreply⟩, g, hg,
    hrecords.contains_eq, hrecords.names_eq, hrecords.isSealed, hrecords.outline_eq,
    congrArg Prod.fst hrecords.close_eq, fun rule => ⟨hrecords.body rule, hrecords.transform rule⟩,
    fun hsealed later w' hlater => ?_⟩
  · exact act_eq_of_refused ha ((hrecords.reply_eq hg a).trans hreply)
  · obtain ⟨g', hg', hrecords'⟩ := hlater.exists_records
    rw [hrecords.isSealed] at hsealed
    have hopening := Act.opening_append hsealed later
    refine ⟨g', hg', ?_, fun rule => ⟨?_, ?_⟩⟩
    · rw [hrecords'.isSealed, Act.hasSealed, List.any_append]
      exact Bool.or_eq_true_iff.mpr (.inl hsealed)
    · rw [hrecords'.body, hrecords.body, Act.bodyOf, hopening, Act.bodyOf]
    · rw [hrecords'.transform, hrecords.transform, Act.transformOf, hopening, Act.transformOf]

/-- A grammar of which one rule was looked up and another defined: the second keeps its body, and to
ask the first is a fault. -/
theorem registry_faithful_word :
    ∃ w : World Value, Registered 0 [.lookup "word", .define "letter" .any] w ∧
      (w.act 0 (.define "letter" .finish)).1 = .refused (.redefined "letter") ∧
      (w.act 0 (.request "word" ⟨.finish .start, .report 0, .report 0⟩)).1 =
        .effects [.halt (.undefined "word")] := by
  have h : Registered (V := Value) 0 [.lookup "word", .define "letter" .any] _ :=
    .acted (.acted (.opened (w := (({} : World Value).addGrammar .empty).2) rfl) _) _
  exact ⟨_, h, (registry_faithful h).1 _, (registry_faithful h).1 _⟩

end Worlds

end Humus.Peg
