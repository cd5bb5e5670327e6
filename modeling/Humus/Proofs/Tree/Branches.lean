import Humus.Proofs.Tree.Entries

/-!
# Chained conditionals

The branches of a conditional could be given by a rule that calls itself: a branch is an equation
and an expression, and perhaps one more branch behind `ELIF` or behind `ELSE` and `IF`, or else a
last expression behind `ELSE`. The rules of the syntax grammar repeat the branches behind `ELIF`,
and an `IF` behind an `ELSE` begins a conditional of its own. They match the same: what the
reduction nests from the last branch is what the recursion nests.

## Main definitions

* `Chained.rules`, `Chained.reductions`: the syntax grammar with the rule for branches
* `chainedEnd`: the front end with that grammar
* `Joins T x o o'`: what joins a branch or a last expression at `x` to the branch before

## Main results

* `replaces_chained`: every rule comes to the same over the chained rules
-/

namespace Humus.Syntactic

open Peg (Derives MatchesAll Pattern Refusal RefusesAll RefusesOne Repeats Rulebook RuleRef Tape
  Verdict World)
open Humus.Tree

/-! ## Rules -/

namespace Chained

/-- `ELSE` and `IF`. -/
def elseIf : Pattern Node :=
  .sequence [word .else, word .if]

/-- What joins a branch to the branch before: `ELIF`, or `ELSE` and `IF`. -/
def elif : Pattern Node :=
  .choice [word .elif, elseIf]

/-- What joins the last expression to the branch before: an `ELSE` without `IF`. -/
def otherwise : Pattern Node :=
  .sequence [.not elseIf, word .else]

/-- What may come behind a branch: one more, or the last expression. -/
def tail : Pattern Node :=
  .optional (.choice [
    .sequence [call "elif", call "branch"],
    .sequence [call "otherwise", call "expr"]])

/-- A branch of a conditional, with those behind it. -/
def branch : Pattern Node :=
  .sequence [call "eqtn", call "expr", tail]

/-- The expressions that are tried before conditionals. -/
def before : List (Pattern Node) := [
  .sequence [word .let, call "eqtn", word .in, call "expr"]]

/-- The expressions that are tried behind conditionals. -/
def behind : List (Pattern Node) := [
  .sequence [word .case, call "expr", word .of,
    .oneOrMore (.sequence [call "ptrn", punct ':', call "expr"]), word .end],
  .sequence [call "term", .optional (.sequence [punct ',', call "expr"])]]

/-- The expressions. -/
def expr : Pattern Node :=
  .choice (before ++ .sequence [word .if, call "branch"] :: behind)

/-- An expression. A conditional is what its first branch is. -/
def reduceExpr : Reduction
  | _, .list [.token (.keyword .if), .expr e] => .ok (.expr e)
  | rule, n => Syntactic.reduceExpr rule n

/-- A branch is a conditional. -/
def reduceBranch : Reduction
  | rule, .list [eqtn, body, tail] => return .expr (← conditional rule eqtn body (.list []) tail)
  | rule, n => malformed rule n

/-- The rules of the syntax grammar, with branches. -/
def rules : List (String × Pattern Node) :=
  (Syntactic.rules.map fun rule => (rule.1, if rule.1 = "expr" then expr else rule.2)) ++
    [("branch", branch), ("elif", elif), ("otherwise", otherwise)]

/-- The reductions for these rules. What joins a branch is left out. -/
def reductions : List (String × Reduction) :=
  (Syntactic.reductions.map fun rule =>
    (rule.1, if rule.1 = "expr" then reduceExpr else rule.2)) ++
    [("branch", reduceBranch), ("elif", fun _ _ => .ok .nothing)]

end Chained

/-- The front end with the rule for branches. -/
def chainedEnd : World Node :=
  { grammars := #[some Lexical.grammar, some (reducedGrammar Chained.rules Chained.reductions)] }

theorem grammar?_chainedEnd : chainedEnd.grammar? grammarId =
    some (reducedGrammar Chained.rules Chained.reductions) :=
  rfl

/-! ## Reductions -/

section Reductions

variable {rule : String} {n : Node} {e c : Expr} {q : Eqtn} {v w : Node} {vs : List Node}
  {last next : Option Expr}

theorem exprOf_eq_ok_iff : exprOf rule n = .ok e ↔ n = .expr e := by
  cases n <;> simp [exprOf, malformed]

theorem eqtnOf_eq_ok_iff : eqtnOf rule n = .ok q ↔ n = .eqtn q := by
  cases n <;> simp [eqtnOf, malformed]

theorem optionOf_eq_ok_iff {o : Option Node} : optionOf rule n = .ok o ↔ n = .list o.toList := by
  constructor
  · intro h
    unfold optionOf at h
    split at h <;> cases h <;> rfl
  · rintro rfl
    cases o <;> rfl

theorem exists_list_of_secondOf (h : secondOf rule n = .ok v) : ∃ a, n = .list [a, v] := by
  unfold secondOf at h
  split at h
  · cases h
    exact ⟨_, rfl⟩
  · cases h

/-- What comes behind a branch, and the expression that it is. -/
inductive Tail : Node → Option Expr → Prop where
  | none : Tail (.list []) none
  | some {a e} : Tail (.list [.list [a, .expr e]]) (some e)

/-- The parts of a conditional. -/
theorem exists_parts_of_conditional (h : conditional rule v w (.list vs) n = .ok c) :
    ∃ q e last next, v = .eqtn q ∧ w = .expr e ∧ Tail n last ∧
      nestElifs rule last vs = .ok next ∧ c = .cond q e next := by
  simp only [conditional, bind_eq_ok_iff, optionOf_eq_ok_iff] at h
  obtain ⟨_ | m, rfl, h⟩ := h
  · simp only [bind_eq_ok_iff, pure_eq_ok_iff, itemsOf, eqtnOf_eq_ok_iff, exprOf_eq_ok_iff] at h
    obtain ⟨_, rfl, _, ⟨⟩, next, hnext, q, rfl, e, rfl, rfl⟩ := h
    exact ⟨q, e, none, next, rfl, rfl, .none, hnext, rfl⟩
  · simp only [bind_eq_ok_iff, map_eq_ok_iff, pure_eq_ok_iff, itemsOf, eqtnOf_eq_ok_iff,
      exprOf_eq_ok_iff] at h
    obtain ⟨_, hm, _, ⟨l, rfl, rfl⟩, _, ⟨⟩, next, hnext, q, rfl, e, rfl, rfl⟩ := h
    obtain ⟨a, rfl⟩ := exists_list_of_secondOf hm
    exact ⟨q, e, some l, next, rfl, rfl, .some, hnext, rfl⟩

theorem conditional_of_tail (h : Tail n next) :
    conditional rule (.eqtn q) (.expr e) (.list []) n = .ok (.cond q e next) := by
  cases h <;> rfl

/-- The first of several branches behind `ELIF`. -/
theorem exists_branch_of_nestElifs (h : nestElifs rule last (v :: vs) = .ok next) :
    ∃ a q e n, v = .list [a, .eqtn q, .expr e] ∧ nestElifs rule last vs = .ok n ∧
      next = some (.cond q e n) := by
  simp only [nestElifs, bind_eq_ok_iff] at h
  obtain ⟨n, hn, h⟩ := h
  split at h
  · simp only [bind_eq_ok_iff, eqtnOf_eq_ok_iff, exprOf_eq_ok_iff, pure_eq_ok_iff] at h
    obtain ⟨q, rfl, e, rfl, rfl⟩ := h
    exact ⟨_, q, e, n, rfl, hn, rfl⟩
  · cases h

/-- A node that is no chained conditional is reduced as before. -/
theorem Chained.reduceExpr_of_reduceExpr {u : Node} (h : Syntactic.reduceExpr rule n = .ok u) :
    Chained.reduceExpr rule n = .ok u := by
  unfold Chained.reduceExpr
  split
  · cases h
  · exact h

/-- A branch reduces to an expression. -/
theorem Chained.exists_expr_of_reduceBranch (h : Chained.reduceBranch rule n = .ok v) :
    ∃ c, v = .expr c := by
  unfold Chained.reduceBranch at h
  split at h
  · simp only [bind_eq_ok_iff, pure_eq_ok_iff] at h
    obtain ⟨c, -, rfl⟩ := h
    exact ⟨c, rfl⟩
  · cases h

end Reductions

/-! ## Joints -/

section Joints

variable {C : Type} {T : Tape C Node} {x y z : C} {o o' : Verdict C Node} {e : Expr}

/-- What joins a branch at `x` to the branch before comes to the one verdict, and what joins a last
expression to the other. -/
inductive Joins (T : Tape C Node) (x : C) : Verdict C Node → Verdict C Node → Prop where
  | elif {y : C} : T.Holds x (.token (.keyword .elif)) y →
      Joins T x (.matched y .nothing) (.refused ⟨x, [.rule "otherwise"]⟩)
  | elseIf {y z : C} : T.Holds x (.token (.keyword .else)) y → T.Holds y (.token (.keyword .if)) z →
      Joins T x (.matched z .nothing) (.refused ⟨x, [.rule "otherwise"]⟩)
  | otherwise {y : C} : T.Holds x (.token (.keyword .else)) y →
      T.token? y ≠ some (.token (.keyword .if)) →
      Joins T x (.refused ⟨y, [.token (.token (.keyword .if))]⟩)
        (.matched y (.list [.nothing, .token (.keyword .else)]))
  | neither : T.token? x ≠ some (.token (.keyword .elif)) →
      T.token? x ≠ some (.token (.keyword .else)) →
      Joins T x (.refused ⟨x, [.rule "elif"]⟩) (.refused ⟨x, [.rule "otherwise"]⟩)

/-- At every place stands a joint or none. -/
theorem exists_joins (hT : T.Straight) (x : C) : ∃ o o', Joins T x o o' := by
  by_cases helif : T.token? x = some (.token (.keyword .elif))
  · obtain ⟨y, hx⟩ := hT.exists_holds helif
    exact ⟨_, _, .elif hx⟩
  by_cases helse : T.token? x = some (.token (.keyword .else))
  · obtain ⟨y, hx⟩ := hT.exists_holds helse
    by_cases hif : T.token? y = some (.token (.keyword .if))
    · obtain ⟨z, hy⟩ := hT.exists_holds hif
      exact ⟨_, _, .elseIf hx hy⟩
    · exact ⟨_, _, .otherwise hx hif⟩
  · exact ⟨_, _, .neither helif helse⟩

section Words

variable {R : Rulebook Node} {k k' : Keyword}

/-- Where one word stands, another one is refused. -/
theorem refused_word (hx : T.Holds x (.token (.keyword k)) y) (hk : k ≠ k') :
    Derives T R (.whole (word k')) x (.refused ⟨x, [.token (.token (.keyword k'))]⟩) := by
  apply Derives.terminal_refused
  rw [hx.token?]
  rintro ⟨⟩
  exact hk rfl

theorem matched_elseIf (hx : T.Holds x (.token (.keyword .else)) y)
    (hy : T.Holds y (.token (.keyword .if)) z) :
    Derives T R (.whole Chained.elseIf) x
      (.matched z (.list [.token (.keyword .else), .token (.keyword .if)])) :=
  (MatchesAll.cons hx.terminal (.cons hy.terminal .nil)).sequence

theorem refused_elseIf (hx : T.token? x ≠ some (.token (.keyword .else))) :
    Derives T R (.whole Chained.elseIf) x (.refused ⟨x, [.token (.token (.keyword .else))]⟩) :=
  RefusesOne.sequence (.head (.terminal_refused hx))

theorem refused_elseIf_behind (hx : T.Holds x (.token (.keyword .else)) y)
    (hy : T.token? y ≠ some (.token (.keyword .if))) :
    Derives T R (.whole Chained.elseIf) x (.refused ⟨y, [.token (.token (.keyword .if))]⟩) :=
  RefusesOne.sequence (.tail hx.terminal (.head (.terminal_refused hy)))

end Words

/-- What joins a branch is matched or refused as the tokens say. -/
theorem Joins.derives_elif (h : Joins T x o o') :
    Derives T chainedEnd.rulebook (.whole (call "elif")) x o := by
  have hrefused : ∀ {r}, Derives T chainedEnd.rulebook (.whole Chained.elif) x (.refused r) →
      Derives T chainedEnd.rulebook (.whole (call "elif")) x (.refused (T.relabel "elif" x r)) :=
    refused_rule_of_body grammar?_chainedEnd rfl
  cases h with
  | elif hx =>
    exact rule_of_body grammar?_chainedEnd rfl rfl (.choice (.alternativesStop hx.terminal rfl)) rfl
  | elseIf hx hy =>
    have helif : Derives T chainedEnd.rulebook (.whole (word .elif)) x _ :=
      refused_word hx (by decide)
    have hchoice : Derives T chainedEnd.rulebook (.whole Chained.elif) x _ :=
      .choice (.alternativesNext helif (.alternativesStop (matched_elseIf hx hy) rfl))
    exact rule_of_body grammar?_chainedEnd rfl rfl hchoice rfl
  | otherwise hx hy =>
    have helif : Derives T chainedEnd.rulebook (.whole (word .elif)) x _ :=
      refused_word hx (by decide)
    have hrule := hrefused (.choice (.alternativesNext helif
      (.alternativesNext (refused_elseIf_behind hx hy) .alternativesDone)))
    -- the second alternative got further
    have hlt := hx.lt
    simp only [Tape.mergeInto, Tape.merge, hlt, if_true, Option.getD_some, Tape.relabel, hlt.ne',
      if_false] at hrule
    exact hrule
  | neither helif helse =>
    have hrule := hrefused (.choice (.alternativesNext (.terminal_refused helif)
      (.alternativesNext (refused_elseIf helse) .alternativesDone)))
    simp only [Tape.mergeInto, Tape.merge, lt_irrefl, if_false, Option.getD_some, Tape.relabel,
      if_true] at hrule
    exact hrule

/-- What joins a last expression is matched or refused as the tokens say. -/
theorem Joins.derives_otherwise (h : Joins T x o o') :
    Derives T chainedEnd.rulebook (.whole (call "otherwise")) x o' := by
  have hrefused : ∀ {expected},
      RefusesOne T chainedEnd.rulebook [.not Chained.elseIf, word .else] x ⟨x, expected⟩ →
      Derives T chainedEnd.rulebook (.whole (call "otherwise")) x
        (.refused ⟨x, [.rule "otherwise"]⟩) := by
    intro expected hone
    have hrule : Derives T chainedEnd.rulebook (.whole (call "otherwise")) x _ :=
      refused_rule_of_body grammar?_chainedEnd rfl hone.sequence
    rwa [Tape.relabel, if_pos rfl] at hrule
  cases h with
  | elif hx =>
    have helse : Derives T chainedEnd.rulebook (.whole (word .else)) x _ :=
      refused_word hx (by decide)
    exact hrefused (.tail (.not (.sequence (.itemsStop helse rfl))) (.head helse))
  | elseIf hx hy => exact hrefused (.head (.not (matched_elseIf hx hy)))
  | otherwise hx hy =>
    have hnot : Derives T chainedEnd.rulebook (.whole (.not Chained.elseIf)) x _ :=
      .not (refused_elseIf_behind hx hy)
    have hall := (MatchesAll.cons hnot (.cons hx.terminal .nil)).sequence
    exact raw_rule_of_body grammar?_chainedEnd rfl rfl hall
  | neither helif helse =>
    exact hrefused (.tail (.not (refused_elseIf helse)) (.head (.terminal_refused helse)))

end Joints

/-! ## Conditionals -/

section Conditionals

variable {C : Type} {T : Tape C Node} {x y z : C} {o : Verdict C Node} {e : Expr} {v w : Node}
  {vs : List Node} {last next : Option Expr} {r : Refusal C Node} {rule : String}

/-- A branch behind `ELIF`. -/
def elifPart : Pattern Node :=
  .sequence [word .elif, call "eqtn", call "expr"]

/-- The last expression of a conditional. -/
def elsePart : Pattern Node :=
  .sequence [word .else, call "expr"]

/-! ### What comes behind a branch -/

theorem tail_of_branch (helif : Derives T chainedEnd.rulebook (.whole (call "elif")) x
      (.matched y .nothing))
    (hbranch : Derives T chainedEnd.rulebook (.whole (call "branch")) y (.matched z (.expr e))) :
    Derives T chainedEnd.rulebook (.whole Chained.tail) x
      (.matched z (.list [.list [.nothing, .expr e]])) :=
  .optional (.choice (.alternativesStop (MatchesAll.cons helif (.cons hbranch .nil)).sequence rfl))

theorem tail_of_otherwise (helif : Derives T chainedEnd.rulebook (.whole (call "elif")) x
      (.refused r))
    (hotherwise : Derives T chainedEnd.rulebook (.whole (call "otherwise")) x (.matched y v))
    (hexpr : Derives T chainedEnd.rulebook (.whole (call "expr")) y (.matched z (.expr e))) :
    Derives T chainedEnd.rulebook (.whole Chained.tail) x
      (.matched z (.list [.list [v, .expr e]])) := by
  have hbranch : RefusesOne T chainedEnd.rulebook [call "elif", call "branch"] x r := .head helif
  have hlast := (MatchesAll.cons hotherwise (.cons hexpr .nil)).sequence
  exact .optional ((RefusesAll.cons ⟨r, hbranch.sequence⟩ .nil).choice_next hlast [])

theorem tail_of_refused
    (hbranch : ∃ r, RefusesOne T chainedEnd.rulebook [call "elif", call "branch"] x r)
    (hlast : ∃ r, RefusesOne T chainedEnd.rulebook [call "otherwise", call "expr"] x r) :
    Derives T chainedEnd.rulebook (.whole Chained.tail) x (.matched x (.list [])) := by
  obtain ⟨r, hbranch⟩ := hbranch
  obtain ⟨r', hlast⟩ := hlast
  exact .optional_of_refused
    (RefusesAll.cons ⟨r, hbranch.sequence⟩ (.cons ⟨r', hlast.sequence⟩ .nil)).choice

/-- A branch with what comes behind it. -/
theorem branch_of_tail {q : Eqtn} {u : Node}
    (h : MatchesAll T chainedEnd.rulebook [call "eqtn", call "expr"] x [.eqtn q, .expr e] y)
    (htail : Derives T chainedEnd.rulebook (.whole Chained.tail) y (.matched z u))
    (hu : Tail u next) :
    Derives T chainedEnd.rulebook (.whole (call "branch")) x
      (.matched z (.expr (.cond q e next))) := by
  have hall := (h.append (.cons htail .nil)).sequence
  have hreduce : Chained.reduceBranch "branch" (.list [.eqtn q, .expr e, u]) =
      .ok (.expr (.cond q e next)) := by
    simp only [Chained.reduceBranch, conditional_of_tail hu]
    rfl
  exact rule_of_body grammar?_chainedEnd rfl rfl hall hreduce

/-- What a rule of the chained grammar cannot begin with. -/
theorem bars_chained {t : Option Node} (hx : T.token? x = t) :
    Peg.Bars T chainedEnd.rulebook (Peg.barsRule (bodyOf grammarId Chained.rules) t 6) t x :=
  ⟨hx, Peg.exists_refused_rule (rulebook_bodyOf rfl) hx⟩

section Straight

variable (hT : T.Straight)
include hT

/-- Where `IF` stands an expression is a conditional. -/
theorem exists_alike_of_if (hx : T.Holds x (.token (.keyword .if)) y)
    (h : Derives T chainedEnd.rulebook (.whole Chained.expr) x o) (hne : ∀ b, o ≠ .broken b) :
    ∃ o', Derives T chainedEnd.rulebook (.whole (.sequence [word .if, call "branch"])) x o' ∧
      o.Alike o' := by
  rcases h.choice_at_cases hne with
    ⟨p, hp, y', v, rfl, hv, -⟩ | ⟨-, ⟨y', v, rfl, hif⟩ | ⟨⟨r, hr⟩, failed, hbehind⟩⟩
  · -- what is tried before begins with `LET`
    obtain rfl := List.mem_singleton.mp hp
    have hlet : Derives T chainedEnd.rulebook (.whole (word .let)) x _ :=
      refused_word hx (by decide)
    obtain ⟨r, hr⟩ := Peg.exists_refused_sequence ⟨_, hlet⟩
    cases hT.derives_unique hv hr
  · exact ⟨_, hif, .matched⟩
  · refine ⟨_, hr, ?_⟩
    cases o with
    | matched y' v =>
      -- what is tried behind does not begin with `IF`
      obtain ⟨r, hr⟩ := Pattern.exists_refused_alternatives (bars_chained hx.token?) Chained.behind
        rfl failed
      cases hT.derives_unique hbehind hr
    | refused r => exact .refused
    | broken b => exact absurd rfl (hne b)

/-- Behind `IF` stands a branch. -/
theorem branch_of_expr (hx : T.Holds x (.token (.keyword .if)) y)
    (h : Derives T chainedEnd.rulebook (.whole (call "expr")) x (.matched z (.expr e))) :
    Derives T chainedEnd.rulebook (.whole (call "branch")) y (.matched z (.expr e)) := by
  obtain ⟨v, hbody, hu⟩ := exists_body_of_rule grammar?_chainedEnd rfl rfl h
  obtain ⟨_, hboth, ⟨⟩⟩ := exists_alike_of_if hT hx hbody Verdict.matched_ne_broken
  obtain ⟨vs, rfl, hall⟩ := hboth.exists_matchesAll
  obtain _ | ⟨hif, _ | ⟨hbranch, ⟨⟩⟩⟩ := hall
  cases hT.derives_unique hx.terminal hif
  obtain ⟨n, -, hn⟩ := exists_body_of_rule grammar?_chainedEnd rfl rfl hbranch
  obtain ⟨c, rfl⟩ := Chained.exists_expr_of_reduceBranch hn
  cases hu
  exact hbranch

theorem refused_branch_of_expr (hx : T.Holds x (.token (.keyword .if)) y)
    (h : Derives T chainedEnd.rulebook (.whole (call "expr")) x (.refused r)) :
    ∃ r, Derives T chainedEnd.rulebook (.whole (call "branch")) y (.refused r) := by
  obtain ⟨r, hbody⟩ := exists_refused_body_of_rule grammar?_chainedEnd rfl h
  obtain ⟨_, hboth, ⟨⟩⟩ := exists_alike_of_if hT hx hbody Verdict.refused_ne_broken
  rcases hboth.refusesOne with hif | ⟨hif, hbranch | ⟨-, ⟨⟩⟩⟩
  · cases hT.derives_unique hx.terminal hif
  · cases hT.derives_unique hx.terminal hif
    exact ⟨_, hbranch⟩

/-- An `ELSE` with its expression, or without as that is refused. -/
theorem else_cases (hx : T.Holds x (.token (.keyword .else)) y)
    (h : Derives T chainedEnd.rulebook (.whole (.optional elsePart)) x (.matched z v))
    (hv : Tail v last) :
    (∃ e, last = some e ∧
      Derives T chainedEnd.rulebook (.whole (call "expr")) y (.matched z (.expr e))) ∨
    z = x ∧ last = none ∧
      ∃ r, Derives T chainedEnd.rulebook (.whole (call "expr")) y (.refused r) := by
  rcases h.optional_cases Verdict.matched_ne_broken with ⟨_, n, ⟨⟩, hpart⟩ | ⟨r, ⟨⟩, hpart⟩
  · obtain ⟨vs, rfl, hall⟩ := hpart.exists_matchesAll
    obtain _ | ⟨helse, _ | ⟨hexpr, ⟨⟩⟩⟩ := hall
    cases hT.derives_unique hx.terminal helse
    cases hv
    exact .inl ⟨_, rfl, hexpr⟩
  · cases hv
    rcases hpart.refusesOne with helse | ⟨helse, hexpr | ⟨-, ⟨⟩⟩⟩
    · cases hT.derives_unique hx.terminal helse
    · cases hT.derives_unique hx.terminal helse
      exact .inr ⟨rfl, rfl, _, hexpr⟩

/-- Without an `ELSE` there is no last expression. -/
theorem else_none (hx : T.token? x ≠ some (.token (.keyword .else)))
    (h : Derives T chainedEnd.rulebook (.whole (.optional elsePart)) x (.matched z v))
    (hv : Tail v last) : z = x ∧ last = none := by
  have hnone : Derives T chainedEnd.rulebook (.whole (.optional elsePart)) x _ :=
    .optional (RefusesOne.head (.terminal_refused hx)).sequence
  cases hT.derives_unique h hnone
  cases hv
  exact ⟨rfl, rfl⟩

/-- Where a branch behind `ELIF` is refused, so is the branch. -/
theorem refused_branch_of_elifPart (hx : T.Holds x (.token (.keyword .elif)) y)
    (h : Derives T chainedEnd.rulebook (.whole elifPart) x (.refused r)) :
    ∃ r, Derives T chainedEnd.rulebook (.whole (call "branch")) y (.refused r) := by
  rcases h.refusesOne with helif | ⟨helif, hone⟩
  · cases hT.derives_unique hx.terminal helif
  · cases hT.derives_unique hx.terminal helif
    have hbranch := (hone.append [Chained.tail]).sequence
    exact ⟨_, refused_rule_of_body grammar?_chainedEnd rfl hbranch⟩

/-- **Where no further branch stands behind `ELIF`**, the branches end with an `ELSE`, with nothing,
or they go on behind `ELSE` and `IF`. -/
theorem exists_tail_of_elsePart
    (helif : Derives T chainedEnd.rulebook (.whole elifPart) x (.refused r))
    (h : Derives T chainedEnd.rulebook (.whole (.optional elsePart)) x (.matched z v))
    (hv : Tail v last) :
    ∃ u, Derives T chainedEnd.rulebook (.whole Chained.tail) x (.matched z u) ∧ Tail u last := by
  obtain ⟨o, o', hjoins⟩ := exists_joins hT x
  have hbranch := hjoins.derives_elif
  have hlast := hjoins.derives_otherwise
  cases hjoins with
  | elif hx =>
    -- the branch is refused, and there is no `ELSE`
    obtain ⟨rfl, rfl⟩ := else_none hT (by rw [hx.token?]; rintro ⟨⟩) h hv
    obtain ⟨r, hr⟩ := refused_branch_of_elifPart hT hx helif
    exact ⟨_, tail_of_refused ⟨r, .tail hbranch (.head hr)⟩ ⟨_, .head hlast⟩, .none⟩
  | elseIf hx hy =>
    rcases else_cases hT hx h hv with ⟨e, rfl, hexpr⟩ | ⟨rfl, rfl, r, hexpr⟩
    · exact ⟨_, tail_of_branch hbranch (branch_of_expr hT hy hexpr), .some⟩
    · obtain ⟨r, hr⟩ := refused_branch_of_expr hT hy hexpr
      exact ⟨_, tail_of_refused ⟨r, .tail hbranch (.head hr)⟩ ⟨_, .head hlast⟩, .none⟩
  | otherwise hx hy =>
    rcases else_cases hT hx h hv with ⟨e, rfl, hexpr⟩ | ⟨rfl, rfl, r, hexpr⟩
    · exact ⟨_, tail_of_otherwise hbranch hlast hexpr, .some⟩
    · exact ⟨_, tail_of_refused ⟨_, .head hbranch⟩ ⟨r, .tail hlast (.head hexpr)⟩, .none⟩
  | neither hx hx' =>
    obtain ⟨rfl, rfl⟩ := else_none hT hx' h hv
    exact ⟨_, tail_of_refused ⟨_, .head hbranch⟩ ⟨_, .head hlast⟩, .none⟩

/-- A branch behind `ELIF` has its word first. -/
theorem exists_word_of_elifPart
    (h : Derives T chainedEnd.rulebook (.whole elifPart) x (.matched y v)) :
    ∃ z a us, T.Holds x (.token (.keyword .elif)) z ∧ v = .list (a :: us) ∧
      MatchesAll T chainedEnd.rulebook [call "eqtn", call "expr"] z us y := by
  obtain ⟨vs, rfl, hall⟩ := h.exists_matchesAll
  obtain _ | ⟨hword, hall⟩ := hall
  obtain ⟨z, hx⟩ := hT.exists_holds hword.terminal_eq.2
  cases hT.derives_unique hx.terminal hword
  exact ⟨_, _, _, hx, rfl, hall⟩

/-- **Branches behind `ELIF` follow one another** as they are nested. -/
theorem exists_tail_of_elifs (h : Repeats T chainedEnd.rulebook elifPart x vs (.ok y))
    (helse : Derives T chainedEnd.rulebook (.whole (.optional elsePart)) y (.matched z v))
    (hv : Tail v last) (hvs : nestElifs rule last vs = .ok next) :
    ∃ u, Derives T chainedEnd.rulebook (.whole Chained.tail) x (.matched z u) ∧ Tail u next := by
  generalize hr : Except.ok y = r at h
  -- Induction on the branches. Each is nested around those behind it.
  induction h generalizing next with
  | refused helif =>
    cases hr
    cases hvs
    exact exists_tail_of_elsePart hT helif helse hv
  | idle helif hlt =>
    -- the word is consumed
    obtain ⟨z, a, us, hx, -, hall⟩ := exists_word_of_elifPart hT helif
    exact absurd (hx.lt.trans_le (hT.offset_le hall.sequence)) hlt
  | broken helif => cases hr
  | next helif _ _ ih =>
    obtain ⟨a, q, e, n, rfl, hn, rfl⟩ := exists_branch_of_nestElifs hvs
    obtain ⟨u, htail, hu⟩ := ih hn hr
    obtain ⟨z, a', us, hx, ⟨⟩, hall⟩ := exists_word_of_elifPart hT helif
    have hbranch := branch_of_tail hall htail hu
    exact ⟨_, tail_of_branch (Joins.elif hx).derives_elif hbranch, .some⟩

/-! ### Both forms of a conditional -/

/-- A conditional that matches is a first branch. -/
theorem branch_of_conditional {u : Node} (h : Derives T chainedEnd.rulebook (.whole (.sequence
      [word .if, call "eqtn", call "expr", .zeroOrMore elifPart, .optional elsePart])) x
      (.matched y v)) (hu : reduceExpr rule v = .ok u) :
    ∃ c, u = .expr c ∧
      Derives T chainedEnd.rulebook (.whole (.sequence [word .if, call "branch"])) x
        (.matched y (.list [.token (.keyword .if), .expr c])) := by
  obtain ⟨vs, rfl, hall⟩ := h.exists_matchesAll
  obtain _ | ⟨hif, _ | ⟨heqtn, _ | ⟨hexpr, _ | ⟨hrepeat, _ | ⟨helse, ⟨⟩⟩⟩⟩⟩⟩ := hall
  obtain ⟨rfl, -⟩ := hif.terminal_eq
  obtain ⟨elifs, r, helifs, heq⟩ := Derives.zeroOrMore_iff.mp hrepeat
  cases r with
  | error b => cases heq
  | ok z =>
    cases heq
    simp only [reduceExpr, itemsOf, bind_eq_ok_iff, pure_eq_ok_iff] at hu
    obtain ⟨_, ⟨⟩, c, hc, rfl⟩ := hu
    obtain ⟨q, e, last, next, rfl, rfl, hlast, hnext, rfl⟩ := exists_parts_of_conditional hc
    obtain ⟨u, htail, hu⟩ := exists_tail_of_elifs hT helifs helse hlast hnext
    have hbranch := branch_of_tail (.cons heqtn (.cons hexpr .nil)) htail hu
    exact ⟨_, rfl, (MatchesAll.cons hif (.cons hbranch .nil)).sequence⟩

end Straight

/-- A conditional that is refused has no first branch. -/
theorem refused_conditional (h : Derives T chainedEnd.rulebook (.whole (.sequence
      [word .if, call "eqtn", call "expr", .zeroOrMore elifPart, .optional elsePart])) x
      (.refused r)) :
    ∃ r, Derives T chainedEnd.rulebook (.whole (.sequence [word .if, call "branch"])) x
      (.refused r) := by
  rcases h.refusesOne with hif | ⟨hif, hone⟩
  · exact ⟨_, (RefusesOne.head hif).sequence⟩
  · have hone : RefusesOne T chainedEnd.rulebook ([call "eqtn", call "expr"] ++
      [.zeroOrMore elifPart, .optional elsePart]) _ r := hone
    rcases hone.exists_append with hone | ⟨vs, y, -, hrepeat | ⟨-, helse | ⟨-, ⟨⟩⟩⟩⟩
    · have hbranch : Derives T chainedEnd.rulebook (.whole (call "branch")) _ _ :=
        refused_rule_of_body grammar?_chainedEnd rfl (hone.append [Chained.tail]).sequence
      exact ⟨_, (RefusesOne.tail hif (.head hbranch)).sequence⟩
    -- neither a repetition nor an option is refused
    · obtain ⟨_, r, -, heq⟩ := Derives.zeroOrMore_iff.mp hrepeat
      cases r <;> cases heq
    · exact absurd helse Derives.optional_not_refused

end Conditionals

/-! ## Both grammars -/

section Both

variable {C : Type} {T : Tape C Node} {x : C} {o : Verdict C Node}

/-- **Expressions come to the same** over the chained rules. -/
theorem alike_chained_expr (hT : T.Straight)
    (h : Derives T chainedEnd.rulebook (.whole (.choice (Chained.before ++ .sequence
      [word .if, call "eqtn", call "expr", .zeroOrMore elifPart, .optional elsePart] ::
        Chained.behind))) x o)
    (hne : ∀ b, T.reduce "expr" (some fun rule n _ => reduceExpr rule n) x o ≠ .broken b) :
    ∃ o', Derives T chainedEnd.rulebook (.whole (call "expr")) x o' ∧
      (T.reduce "expr" (some fun rule n _ => reduceExpr rule n) x o).Alike o' := by
  have hbroken : ∀ b, o ≠ .broken b := by
    rintro b rfl
    exact hne b rfl
  rcases h.choice_at_cases hbroken with
    ⟨p, -, y, v, rfl, -, hall⟩ | ⟨hbefore, ⟨y, v, rfl, hif⟩ | ⟨⟨r, hif⟩, failed, hbehind⟩⟩
  -- a binding is tried before conditionals
  · obtain ⟨u, hu, hreduced⟩ := exists_reduced hne
    rw [hreduced]
    exact ⟨_, rule_of_body grammar?_chainedEnd rfl rfl (hall _)
      (Chained.reduceExpr_of_reduceExpr hu), .matched⟩
  -- a conditional is what its first branch is
  · obtain ⟨u, hu, hreduced⟩ := exists_reduced hne
    rw [hreduced]
    obtain ⟨c, rfl, hbranch⟩ := branch_of_conditional hT hif hu
    have hexpr := hbefore.choice_next hbranch Chained.behind
    exact ⟨_, rule_of_body grammar?_chainedEnd rfl rfl hexpr rfl, .matched⟩
  -- both forms of a conditional are refused, and the expressions behind decide
  · have hskipped := hbefore.append (.cons (refused_conditional hif) .nil)
    obtain ⟨o', ho', halike⟩ := hskipped.choice_alike hbehind hbroken
    rw [List.append_assoc, List.singleton_append] at ho'
    cases halike with
    | matched =>
      obtain ⟨u, hu, hreduced⟩ := exists_reduced hne
      rw [hreduced]
      exact ⟨_, rule_of_body grammar?_chainedEnd rfl rfl ho'
        (Chained.reduceExpr_of_reduceExpr hu), .matched⟩
    | refused => exact ⟨_, refused_rule_of_body grammar?_chainedEnd rfl ho', .refused⟩

/-- The other rules are the same in both grammars. -/
theorem rulebook_chainedEnd {ref : RuleRef} {body : Pattern Node}
    {transform : Option (Peg.Transform Node)}
    (hR : frontEnd.rulebook ref = .ok (body, transform)) (h : ref ≠ ⟨grammarId, "expr"⟩) :
    chainedEnd.rulebook ref = .ok (body, transform) := by
  obtain ⟨grammar, name⟩ := ref
  rcases grammar with _ | _ | grammar
  · exact hR
  · have hname : name ≠ "expr" := by
      rintro rfl
      exact h rfl
    have hfactored : frontEnd.grammar? 1 = some grammar := rfl
    have hchained : chainedEnd.grammar? 1 = _ := grammar?_chainedEnd
    cases hbody : rules.lookup name with
    | none => simp [World.rulebook, hfactored, grammar, rule?_reducedGrammar, hbody] at hR
    | some body' =>
      -- the new names are those of no rule
      have hnew : name ≠ "branch" ∧ name ≠ "elif" := by
        constructor <;> rintro rfl <;> cases hbody
      have hrules : Chained.rules.lookup name = some body' := by
        rw [Chained.rules, List.lookup_append,
          lookup_map rules fun name body => if name = "expr" then Chained.expr else body]
        simp [hbody, hname]
      have hreductions : Chained.reductions.lookup name = reductions.lookup name := by
        rw [Chained.reductions, List.lookup_append, lookup_map reductions
          fun name reduce => if name = "expr" then Chained.reduceExpr else reduce]
        have hnone : List.lookup name [("branch", Chained.reduceBranch),
            ("elif", fun _ _ => .ok .nothing)] = none := by
          simp [List.lookup_eq_none_iff, hnew]
        simp [hname, hnone]
      simp only [World.rulebook, Nat.zero_add, hfactored, hchained, grammar, rule?_reducedGrammar,
        hbody, hrules, hreductions] at hR ⊢
      exact hR
  · exact hR

/-- **Every rule comes to the same over the chained rules.** -/
theorem replaces_chained (hT : T.Straight) : frontEnd.rulebook.Replaces T chainedEnd.rulebook := by
  rintro ref body transform x o hR h hne
  by_cases hexpr : ref = ⟨grammarId, "expr"⟩
  · subst hexpr
    cases hR
    exact alike_chained_expr hT h hne
  · exact ⟨_, .rule (rulebook_chainedEnd hR hexpr) h, .refl hne⟩

end Both

end Humus.Syntactic
