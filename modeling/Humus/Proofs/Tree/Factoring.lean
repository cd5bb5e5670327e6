import Humus.Proofs.Peg.Lists
import Humus.Proofs.Peg.Openings
import Humus.Proofs.Peg.Replacing
import Humus.Proofs.Tree.Totality

/-!
# The factored syntax grammar

Expressions, applications and patterns could be given by rules that say plainly what they are: an
expression is a term, a comma and an expression, or else a term. The rules of the syntax grammar
match the term once and then look for a comma. They match the same, since no expression begins with
a closing parenthesis.

## Main definitions

* `Unfactored.rules`, `Unfactored.reductions`: the syntax grammar with the plain rules
* `unfactoredEnd`: the front end with that grammar

## Main results

* `replaces_unfactored`: every rule comes to the same over the plain rules
* `unfactored_agrees`: at every place of a list of tokens both grammars match alike
-/

namespace Humus.Syntactic

open Dispatch (Terminates)
open Peg (Derives MatchesAll MatchValue Pattern Refusal RefusesAll RefusesOne Rulebook RuleRef Tape
  Verdict World)
open Humus.Tree

/-! ## Plain rules -/

namespace Unfactored

/-- The expressions that begin with a reserved word. -/
def led : List (Pattern Node) := [
  .sequence [word .let, call "eqtn", word .in, call "expr"],
  .sequence [word .if, call "eqtn", call "expr",
    .zeroOrMore (.sequence [word .elif, call "eqtn", call "expr"]),
    .optional (.sequence [word .else, call "expr"])],
  .sequence [word .case, call "expr", word .of,
    .oneOrMore (.sequence [call "ptrn", punct ':', call "expr"]), word .end]]

/-- An identifier that is applied. -/
def appliedIdent : Pattern Node :=
  .sequence [call "ident", punct '(', .optional (call "expr"), punct ')']

/-- A group that is applied. -/
def appliedGroup : Pattern Node :=
  .sequence [punct '(', call "expr", punct ')', punct '(', .optional (call "expr"), punct ')']

/-- An expression in parentheses, or empty parentheses. -/
def group : Pattern Node :=
  .sequence [punct '(', .optional (call "expr"), punct ')']

/-- The rules that are not factored. -/
def bodies : List (String × Pattern Node) := [
  ("expr", .choice (led ++ [
    .sequence [call "term", punct ',', call "expr"],
    call "term"])),
  ("call", .choice [appliedIdent, appliedGroup, group, call "ident"]),
  ("ptrn", .choice [
    .sequence [call "pterm", punct ',', call "ptrn"],
    call "pterm"])]

/-- An expression: what begins with a reserved word, a pair, or a term. -/
def reduceExpr : Reduction
  | _, .expr e => .ok (.expr e)
  | rule, .list [head, _, tail] => return .expr (.pair (← exprOf rule head) (← exprOf rule tail))
  | rule, n => Syntactic.reduceExpr rule n

/-- An application of an identifier or of a group, a group, or an identifier. -/
def reduceCall : Reduction
  | _, .text name => .ok (.expr (.ident name))
  | rule, .list [name, _, arg, _] =>
    return .expr (.app (.ident (← nameOf rule name)) (← exprOrNil rule arg))
  | rule, .list [_, abs, _, _, arg, _] =>
    return .expr (.app (← exprOf rule abs) (← exprOrNil rule arg))
  | rule, .list [_, inner, _] => return .expr (← exprOrNil rule inner)
  | rule, n => malformed rule n

/-- A pair of patterns, or a pattern. -/
def reducePtrn : Reduction
  | _, .ptrn p => .ok (.ptrn p)
  | rule, .list [head, _, tail] => return .ptrn (.pair (← ptrnOf rule head) (← ptrnOf rule tail))
  | rule, n => malformed rule n

/-- The reductions of the rules that are not factored. -/
def plainReductions : List (String × Reduction) := [
  ("expr", reduceExpr),
  ("call", reduceCall),
  ("ptrn", reducePtrn)]

/-- The rules of the syntax grammar, those that are not factored in place of the factored ones. -/
def rules : List (String × Pattern Node) :=
  Syntactic.rules.map fun rule => (rule.1, (bodies.lookup rule.1).getD rule.2)

/-- The reductions for these rules. -/
def reductions : List (String × Reduction) :=
  Syntactic.reductions.map fun rule => (rule.1, (plainReductions.lookup rule.1).getD rule.2)

end Unfactored

/-- The front end with the rules that are not factored. -/
def unfactoredEnd : World Node :=
  { grammars := #[some Lexical.grammar,
      some (reducedGrammar Unfactored.rules Unfactored.reductions)] }

/-! ## Reductions -/

section Reductions

variable {rule : String} {v w a b a' b' : Node} {vs : List Node} {u : Node}

/-- The head of a pair, or a term that stands alone, is an expression. -/
theorem exists_expr_of_reduceExpr (h : reduceExpr rule (.list [v, w]) = .ok u) :
    ∃ e, v = .expr e := by
  cases v with
  | expr e => exact ⟨e, rfl⟩
  | token t =>
    rcases t with k | _ | _ | _ | _ | _ | _
    · cases k <;> cases h
    all_goals cases h
  | _ => cases h

theorem reduceExpr_tail (h : reduceExpr rule (.list [v, .list [.list [a, w]]]) = .ok u) :
    Unfactored.reduceExpr rule (.list [v, a, w]) = .ok u := by
  obtain ⟨e, rfl⟩ := exists_expr_of_reduceExpr h
  cases w with
  | expr e' => exact h
  | _ => cases h

theorem reduceExpr_bare (h : reduceExpr rule (.list [v, .list []]) = .ok u) :
    Unfactored.reduceExpr rule v = .ok u := by
  obtain ⟨e, rfl⟩ := exists_expr_of_reduceExpr h
  exact h

theorem reduceExpr_led (h : reduceExpr rule (.list vs) = .ok u) (hvs : vs.length ≠ 3) :
    Unfactored.reduceExpr rule (.list vs) = .ok u := by
  unfold Unfactored.reduceExpr
  split
  · simp_all
  · simp_all
  · exact h

theorem reduceCall_ident_tail (h : reduceCall rule (.list [v, .list [.list [a, w, b]]]) = .ok u) :
    Unfactored.reduceCall rule (.list [v, a, w, b]) = .ok u := by
  cases v with
  | text name => exact h
  | _ => cases h

theorem reduceCall_ident_bare (h : reduceCall rule (.list [v, .list []]) = .ok u) :
    Unfactored.reduceCall rule v = .ok u := by
  cases v with
  | text name => exact h
  | _ => cases h

theorem reduceCall_group_tail {t : Token}
    (h : reduceCall rule (.list [.token t, .list [v, b, .list [.list [a', w, b']]]]) = .ok u) :
    Unfactored.reduceCall rule (.list [.token t, v, b, a', w, b']) = .ok u :=
  h

theorem reduceCall_group_bare {t : Token}
    (h : reduceCall rule (.list [.token t, .list [v, b, .list []]]) = .ok u) :
    Unfactored.reduceCall rule (.list [.token t, .list [v], b]) = .ok u := by
  cases v with
  | expr e => exact h
  | _ => cases h

theorem reducePtrn_tail (h : reducePtrn rule (.list [v, .list [.list [a, w]]]) = .ok u) :
    Unfactored.reducePtrn rule (.list [v, a, w]) = .ok u := by
  cases v with
  | ptrn p => exact h
  | _ => cases h

theorem reducePtrn_bare (h : reducePtrn rule (.list [v, .list []]) = .ok u) :
    Unfactored.reducePtrn rule v = .ok u := by
  cases v with
  | ptrn p => exact h
  | _ => cases h

end Reductions

/-! ## Rules -/

section Rules

variable {C : Type} {T : Tape C Node} {x y : C} {name : String} {head body : Pattern Node}
  {before : List (Pattern Node)} {reduce reduce' : Reduction} {o o' : Verdict C Node}
  {r : Refusal C Node} {v w : Node}

/-- Over the plain rules, the rule comes at `x` to what the reduction makes of `o`. -/
def ComesTo (T : Tape C Node) (name : String) (reduce : Reduction) (x : C) (o : Verdict C Node) :
    Prop :=
  (∀ b, T.reduce name (some fun rule n _ => reduce rule n) x o ≠ .broken b) →
    ∃ o', Derives T unfactoredEnd.rulebook (.whole (call name)) x o' ∧
      (T.reduce name (some fun rule n _ => reduce rule n) x o).Alike o'

namespace ComesTo

/-- Nothing has to be shown of a match that is broken off. -/
theorem of_ne_broken (h : (∀ b, o ≠ .broken b) → ComesTo T name reduce x o) :
    ComesTo T name reduce x o := by
  cases o with
  | matched y v => exact h Verdict.matched_ne_broken
  | refused r => exact h Verdict.refused_ne_broken
  | broken b => exact fun hne => absurd rfl (hne b)

theorem of_alike (halike : o'.Alike o) (h : ComesTo T name reduce x o') :
    ComesTo T name reduce x o := by
  cases halike with
  | matched => exact h
  | refused =>
    intro _
    obtain ⟨_, ho, ⟨⟩⟩ := h Verdict.refused_ne_broken
    exact ⟨_, ho, .refused⟩

variable (hbody : Unfactored.rules.lookup name = some body)
include hbody

/-- The body of the plain rule is refused too. -/
theorem refused (h : ∃ r, Derives T unfactoredEnd.rulebook (.whole body) x (.refused r)) :
    ComesTo T name reduce x (.refused r) := by
  intro _
  obtain ⟨r, hr⟩ := h
  exact ⟨_, refused_rule_of_body rfl hbody hr, .refused⟩

/-- The body of the plain rule matches too, and both nodes are reduced to the same. -/
theorem matched (hreduction : Unfactored.reductions.lookup name = some reduce')
    (h : Derives T unfactoredEnd.rulebook (.whole body) x (.matched y w))
    (hreduce : ∀ {u}, reduce name v = .ok u → reduce' name w = .ok u) :
    ComesTo T name reduce x (.matched y v) := by
  intro hne
  -- the first reduction cannot fail
  obtain ⟨u, hu, hreduced⟩ := exists_reduced hne
  rw [hreduced]
  exact ⟨_, rule_of_body rfl hbody hreduction h (hreduce hu), .matched⟩

end ComesTo

/-- A part with an optional tail behind a comma comes to the same as two alternatives, behind
others that are refused. -/
theorem comesTo_pairing (hbody : Unfactored.rules.lookup name =
      some (.choice (before ++ [.sequence [head, punct ',', call name], head])))
    (hreduction : Unfactored.reductions.lookup name = some reduce')
    (hbefore : RefusesAll T unfactoredEnd.rulebook before x)
    (htail : ∀ {v a w u}, reduce name (.list [v, .list [.list [a, w]]]) = .ok u →
      reduce' name (.list [v, a, w]) = .ok u)
    (hbare : ∀ {v u}, reduce name (.list [v, .list []]) = .ok u → reduce' name v = .ok u)
    (h : Derives T unfactoredEnd.rulebook
      (.whole (.sequence [head, .optional (.sequence [punct ',', call name])])) x o) :
    ComesTo T name reduce x o := by
  apply ComesTo.of_ne_broken
  intro hne
  have h : Derives T unfactoredEnd.rulebook
      (.whole (.sequence ([head] ++ [.optional (.sequence [punct ',', call name])]))) x o := h
  rcases h.tail_cases hne with ⟨r, rfl, hhead | ⟨-, ⟨⟩⟩⟩ | ⟨vs, y, us, z, rfl, hhead, hpair⟩ |
    ⟨vs, y, r, rfl, hhead, hpair⟩
  · -- both alternatives begin with the part
    have hpair : RefusesOne T unfactoredEnd.rulebook [head, punct ',', call name] x r := .head hhead
    exact .refused hbody
      (hbefore.append (.cons ⟨r, hpair.sequence⟩ (.cons ⟨r, hhead⟩ .nil))).choice
  -- the pair matches, and is tried first
  · have hall := (hhead.append hpair).sequence
    obtain _ | ⟨-, ⟨⟩⟩ := hhead
    obtain _ | ⟨-, _ | ⟨-, ⟨⟩⟩⟩ := hpair
    exact .matched hbody hreduction (hbefore.choice_next hall [head]) htail
  -- no comma follows: the pair is refused, and the part alone matches
  · have hrefused := (hhead.refuses hpair).sequence
    obtain _ | ⟨hhead, ⟨⟩⟩ := hhead
    have hbefore : RefusesAll T unfactoredEnd.rulebook
        (before ++ [.sequence [head, punct ',', call name]]) x :=
      hbefore.append (.cons ⟨r, hrefused⟩ .nil)
    have hchoice := hbefore.choice_next hhead []
    rw [List.append_assoc] at hchoice
    exact .matched hbody hreduction hchoice hbare

/-- Patterns. -/
theorem comesTo_ptrn (h : Derives T unfactoredEnd.rulebook
      (.whole (.sequence [call "pterm", .optional (.sequence [punct ',', call "ptrn"])])) x o) :
    ComesTo T "ptrn" reducePtrn x o :=
  comesTo_pairing rfl rfl RefusesAll.nil reducePtrn_tail reducePtrn_bare h

/-- What begins with a reserved word is a list of more than three items. -/
theorem exists_list_of_led {p : Pattern Node} (hp : p ∈ Unfactored.led)
    (h : Derives T unfactoredEnd.rulebook (.whole p) x (.matched y v)) :
    ∃ vs : List Node, v = .list vs ∧ vs.length ≠ 3 := by
  obtain ⟨ps, rfl, hps⟩ : ∃ ps, p = .sequence ps ∧ ps.length ≠ 3 := by
    revert p
    simp [Unfactored.led]
  obtain ⟨vs, rfl, hall⟩ := h.exists_matchesAll
  exact ⟨vs, rfl, hall.length_eq ▸ hps⟩

/-- Expressions. -/
theorem comesTo_expr (h : Derives T unfactoredEnd.rulebook (.whole (.choice (Unfactored.led ++
      [.sequence [call "term", .optional (.sequence [punct ',', call "expr"])]]))) x o) :
    ComesTo T "expr" reduceExpr x o := by
  apply ComesTo.of_ne_broken
  intro hne
  rcases h.choice_cases hne with ⟨p, hp, y, v, rfl, hv, hchoice⟩ | ⟨hled, o', ho', halike⟩
  · obtain ⟨vs, rfl, hvs⟩ := exists_list_of_led hp hv
    exact .matched rfl rfl (hchoice _) fun hu => reduceExpr_led hu hvs
  · exact (comesTo_pairing rfl rfl hled reduceExpr_tail reduceExpr_bare ho').of_alike halike

/-! ## Applications -/

/-- An identifier, applied or not. -/
theorem comesTo_call_ident (hparen : T.token? x ≠ some (.token (.punct '(')))
    (h : Derives T unfactoredEnd.rulebook
      (.whole (.sequence [call "ident", .optional argument])) x o) :
    ComesTo T "call" reduceCall x o := by
  apply ComesTo.of_ne_broken
  intro hne
  have h : Derives T unfactoredEnd.rulebook (.whole (.sequence ([call "ident"] ++
      [.optional (.sequence [punct '(', .optional (call "expr"), punct ')'])]))) x o := h
  -- what begins with a parenthesis is refused
  have hopen := Peg.exists_refused_terminal (R := unfactoredEnd.rulebook) hparen
  have hgroups : RefusesAll T unfactoredEnd.rulebook
      [Unfactored.appliedGroup, Unfactored.group] x :=
    .cons (Peg.exists_refused_sequence hopen) (.cons (Peg.exists_refused_sequence hopen) .nil)
  rcases h.tail_cases hne with ⟨r, rfl, hident⟩ | ⟨vs, y, us, z, rfl, hident, harg⟩ |
    ⟨vs, y, r, rfl, hident, harg⟩
  · have happlied := (hident.append [punct '(', .optional (call "expr"), punct ')']).sequence
    rcases hident with hident | ⟨-, ⟨⟩⟩
    exact .refused rfl
      (RefusesAll.cons ⟨r, happlied⟩ (hgroups.append (.cons ⟨r, hident⟩ .nil))).choice
  · have happlied := (hident.append harg).sequence
    obtain _ | ⟨-, ⟨⟩⟩ := hident
    obtain _ | ⟨-, _ | ⟨-, _ | ⟨-, ⟨⟩⟩⟩⟩ := harg
    exact .matched rfl rfl (RefusesAll.nil.choice_next happlied _) reduceCall_ident_tail
  · have happlied := (hident.refuses harg).sequence
    obtain _ | ⟨hident, ⟨⟩⟩ := hident
    exact .matched rfl rfl ((RefusesAll.cons ⟨r, happlied⟩ hgroups).choice_next hident [])
      reduceCall_ident_bare

/-- What comes behind the opening parenthesis of a group: an expression, and perhaps an argument, or
no expression and the end of the group. -/
theorem inner_cases (h : Derives T unfactoredEnd.rulebook (.whole (.choice [
      .sequence [call "expr", punct ')', .optional argument], punct ')'])) x o)
    (hne : ∀ b, o ≠ .broken b) :
    (∃ vs y us z, o = .matched z (.list (vs ++ [.list [.list us]])) ∧
      MatchesAll T unfactoredEnd.rulebook [call "expr", punct ')'] x vs y ∧
      MatchesAll T unfactoredEnd.rulebook [punct '(', .optional (call "expr"), punct ')'] y us z) ∨
    (∃ vs y r, o = .matched y (.list (vs ++ [.list []])) ∧
      MatchesAll T unfactoredEnd.rulebook [call "expr", punct ')'] x vs y ∧
      RefusesOne T unfactoredEnd.rulebook [punct '(', .optional (call "expr"), punct ')'] y r) ∨
    (∃ y, o = .matched y (.token (.punct ')')) ∧
      (∃ r, Derives T unfactoredEnd.rulebook (.whole (call "expr")) x (.refused r)) ∧
      Derives T unfactoredEnd.rulebook (.whole (punct ')')) x o) ∨
    ∃ r, o = .refused r ∧ 
      (∃ r, RefusesOne T unfactoredEnd.rulebook [call "expr", punct ')'] x r) ∧
      ∃ r, RefusesOne T unfactoredEnd.rulebook [.optional (call "expr"), punct ')'] x r := by
  have h : Derives T unfactoredEnd.rulebook (.whole (.choice ([.sequence ([call "expr",
    punct ')'] ++ [.optional argument])] ++ [punct ')']))) x o := h
  rcases h.choice_cases hne with ⟨p, hp, y, v, rfl, hv, -⟩ | ⟨hrefused, o', hclose, halike⟩
  · obtain rfl := List.mem_singleton.mp hp
    rcases hv.tail_cases hne with ⟨r, ⟨⟩, -⟩ | happlied | hbare
    · exact .inl happlied
    · exact .inr (.inl hbare)
  · obtain ⟨r, hr⟩ := List.forall_mem_singleton.mp hrefused
    cases halike with
    | matched =>
      -- no expression begins with a closing parenthesis
      obtain ⟨rfl, hx⟩ := hclose.terminal_eq
      have hbars : Peg.barsRule (bodyOf grammarId Unfactored.rules)
        (some (.token (.punct ')'))) 6 ⟨grammarId, "expr"⟩ = true := rfl
      have hexpr := Peg.exists_refused_rule (rulebook_bodyOf (w := unfactoredEnd) rfl) hx hbars
      exact .inr (.inr (.inl ⟨_, rfl, hexpr, hclose⟩))
    | refused =>
      right; right; right
      refine ⟨_, rfl, ?_⟩
      rcases hr.tail_cases Verdict.refused_ne_broken with ⟨r, -, hone⟩ | ⟨_, _, _, _, ⟨⟩, -⟩ |
        ⟨_, _, _, ⟨⟩, -⟩
      refine ⟨⟨r, hone⟩, ?_⟩
      rcases hone with hexpr | ⟨hexpr, hone⟩
      · exact ⟨_, .tail (.optional hexpr) (.head hclose)⟩
      · exact ⟨_, .tail (.optional hexpr) hone⟩

/-- A group, applied or not. -/
theorem comesTo_call_group
    (hident : ∃ r, Derives T unfactoredEnd.rulebook (.whole (call "ident")) x (.refused r))
    (h : Derives T unfactoredEnd.rulebook (.whole (.sequence [punct '(', .choice [
      .sequence [call "expr", punct ')', .optional argument], punct ')']])) x o) :
    ComesTo T "call" reduceCall x o := by
  apply ComesTo.of_ne_broken
  intro hne
  have happlied : RefusesAll T unfactoredEnd.rulebook [Unfactored.appliedIdent] x :=
    .cons (Peg.exists_refused_sequence hident) .nil
  rcases h.sequence_cases hne with ⟨y, vs, rfl, hall⟩ | ⟨r, rfl, hone⟩
  · obtain _ | ⟨hopen, _ | ⟨hinner, ⟨⟩⟩⟩ := hall
    obtain ⟨rfl, -⟩ := hopen.terminal_eq
    rcases inner_cases hinner Verdict.matched_ne_broken with ⟨vs, y, us, z, hv, hexpr, harg⟩ |
      ⟨vs, y, r, hv, hexpr, harg⟩ | ⟨y, hv, ⟨r, hexpr⟩, hclose⟩ | ⟨r, ⟨⟩, -⟩
    · cases hv
      -- a group with an argument
      have hall := ((MatchesAll.cons hopen hexpr).append harg).sequence
      obtain _ | ⟨-, _ | ⟨-, ⟨⟩⟩⟩ := hexpr
      obtain _ | ⟨-, _ | ⟨-, _ | ⟨-, ⟨⟩⟩⟩⟩ := harg
      exact .matched rfl rfl (happlied.choice_next hall _) reduceCall_group_tail
    · cases hv
      -- a group without an argument
      have hgroup := ((MatchesAll.cons hopen hexpr).refuses harg).sequence
      obtain _ | ⟨hexpr, _ | ⟨hclose, ⟨⟩⟩⟩ := hexpr
      have hall := (MatchesAll.cons hopen (.cons (.optional hexpr) (.cons hclose .nil))).sequence
      have hbefore := happlied.append (.cons ⟨r, hgroup⟩ .nil)
      exact .matched rfl rfl (hbefore.choice_next hall _) reduceCall_group_bare
    · cases hv
      -- a group without an expression
      have hgroup : RefusesOne T unfactoredEnd.rulebook [punct '(', call "expr", punct ')',
        punct '(', .optional (call "expr"), punct ')'] x r := .tail hopen (.head hexpr)
      have hall := (MatchesAll.cons hopen (.cons (.optional hexpr) (.cons hclose .nil))).sequence
      have hbefore := happlied.append (.cons ⟨r, hgroup.sequence⟩ .nil)
      exact .matched rfl rfl (hbefore.choice_next hall _) fun hu => hu
  · have hgroups : RefusesAll T unfactoredEnd.rulebook
        [Unfactored.appliedGroup, Unfactored.group] x := by
      rcases hone with hopen | ⟨hopen, hinner | ⟨-, ⟨⟩⟩⟩
      · exact .cons (Peg.exists_refused_sequence ⟨r, hopen⟩)
          (.cons (Peg.exists_refused_sequence ⟨r, hopen⟩) .nil)
      · rcases inner_cases hinner Verdict.refused_ne_broken with ⟨_, _, _, _, ⟨⟩, -⟩ |
          ⟨_, _, _, ⟨⟩, -⟩ | ⟨_, ⟨⟩, -⟩ | ⟨-, -, ⟨r, happlied⟩, r', hgroup⟩
        have happlied := RefusesOne.tail hopen
          (happlied.append [punct '(', .optional (call "expr"), punct ')'])
        have hgroup := RefusesOne.tail hopen hgroup
        exact .cons ⟨r, happlied.sequence⟩ (.cons ⟨r', hgroup.sequence⟩ .nil)
    exact .refused rfl (happlied.append (hgroups.append (.cons hident .nil))).choice

/-- Applications. -/
theorem comesTo_call (hT : ∀ x r r', T.next x r → T.next x r' → r' = r)
    (h : Derives T unfactoredEnd.rulebook (.whole (.choice [
      .sequence [call "ident", .optional argument],
      .sequence [punct '(', .choice [
        .sequence [call "expr", punct ')', .optional argument], punct ')']]])) x o) :
    ComesTo T "call" reduceCall x o := by
  apply ComesTo.of_ne_broken
  intro hne
  have h : Derives T unfactoredEnd.rulebook (.whole (.choice ([.sequence ([call "ident"] ++
    [.optional argument])] ++ [.sequence [punct '(', .choice [
        .sequence [call "expr", punct ')', .optional argument], punct ')']]]))) x o := h
  rcases h.choice_cases hne with ⟨p, hp, y, v, rfl, hv, -⟩ | ⟨hrefused, o', ho', halike⟩
  · obtain rfl := List.mem_singleton.mp hp
    -- an identifier is no parenthesis
    have hparen : T.token? x ≠ some (.token (.punct '(')) := by
      intro hx
      have hbars : Peg.barsRule (bodyOf grammarId Unfactored.rules)
        (some (.token (.punct '('))) 6 ⟨grammarId, "ident"⟩ = true := rfl
      obtain ⟨r, hr⟩ := Peg.exists_refused_sequence
        (Peg.exists_refused_rule (rulebook_bodyOf (w := unfactoredEnd) rfl) hx hbars)
      exact hv.ne_refused hT hr
    exact comesTo_call_ident hparen hv
  · obtain ⟨r, hr⟩ := List.forall_mem_singleton.mp hrefused
    rcases hr.tail_cases Verdict.refused_ne_broken with ⟨r, -, hident | ⟨-, ⟨⟩⟩⟩ |
      ⟨_, _, _, _, ⟨⟩, -⟩ |
      ⟨_, _, _, ⟨⟩, -⟩
    exact (comesTo_call_group ⟨r, hident⟩ ho').of_alike halike

/-! ## Both grammars -/

/-- What a rule of the syntax grammar comes to over tokens, it comes to over a grammar that replaces
it. -/
theorem exists_alike_of_replaces {tokens : List Node} {R : Rulebook Node}
    (hR : frontEnd.rulebook.Replaces (Peg.Input.items tokens).tape R)
    (hname : name ∈ rules.map Prod.fst) (k : Nat) :
    ∃ o o', Derives (Peg.Input.items tokens).tape frontEnd.rulebook (.whole (call name)) k o ∧
      Derives (Peg.Input.items tokens).tape R (.whole (call name)) k o' ∧ o.Alike o' := by
  -- the syntax grammar is total, so that no match over it is broken off
  have hsettles : Peg.Settles (Peg.Input.items tokens).tape frontEnd.rulebook (call name) _ :=
    total_syntactic.settles (fun _ _ => trivial) _ rfl ⟨rfl, hname⟩
  obtain ⟨o, ho, hsat, -⟩ := hsettles k
  have hne : ∀ b, o ≠ .broken b := by
    rintro b rfl
    exact hsat
  obtain ⟨o', ho', halike⟩ := ho.replace hR hne .whole
  exact ⟨o, o', ho, ho', halike⟩

/-- A rule is found where it is, whatever is made of each rule. -/
theorem lookup_map {α : Type} (l : List (String × α)) (f : String → α → α) :
    (l.map fun rule => (rule.1, f rule.1 rule.2)).lookup name = (l.lookup name).map (f name) := by
  induction l with
  | nil => rfl
  | cons rule l ih =>
    rw [List.map_cons, List.lookup_cons, List.lookup_cons]
    by_cases hname : name = rule.1
    · rw [← hname, beq_self_eq_true]
      rfl
    · rw [beq_eq_false_iff_ne.mpr hname]
      exact ih

/-- The other rules are the same in both grammars. -/
theorem rulebook_unfactoredEnd {ref : RuleRef}
    (h : ref.grammar = grammarId → ref.name ∉ ["expr", "call", "ptrn"]) :
    unfactoredEnd.rulebook ref = frontEnd.rulebook ref := by
  obtain ⟨grammar, name⟩ := ref
  rcases grammar with _ | _ | grammar
  · rfl
  · have hname : name ≠ "expr" ∧ name ≠ "call" ∧ name ≠ "ptrn" := by simpa using h rfl
    have hbodies : Unfactored.bodies.lookup name = none := by
      simp [Unfactored.bodies, List.lookup_eq_none_iff, hname]
    have hreductions : Unfactored.plainReductions.lookup name = none := by
      simp [Unfactored.plainReductions, List.lookup_eq_none_iff, hname]
    have hrules : Unfactored.rules.lookup name = rules.lookup name := by
      refine (lookup_map rules fun name body => (Unfactored.bodies.lookup name).getD body).trans ?_
      simp [hbodies]
    have hreduced : Unfactored.reductions.lookup name = reductions.lookup name := by
      refine (lookup_map reductions fun name reduce =>
        (Unfactored.plainReductions.lookup name).getD reduce).trans ?_
      simp [hreductions]
    have hplain : unfactoredEnd.grammar? 1 =
      some (reducedGrammar Unfactored.rules Unfactored.reductions) := rfl
    have hfactored : frontEnd.grammar? 1 = some grammar := rfl
    simp only [World.rulebook, Nat.zero_add, hplain, hfactored, grammar, rule?_reducedGrammar,
      hrules, hreduced]
  · rfl

/-- **Every rule comes to the same over the plain rules.** -/
theorem replaces_unfactored (hT : ∀ x r r', T.next x r → T.next x r' → r' = r) :
    frontEnd.rulebook.Replaces T unfactoredEnd.rulebook := by
  rintro ⟨grammar, name⟩ body transform x o hR h hne
  by_cases hplain : grammar = grammarId ∧ name ∈ ["expr", "call", "ptrn"]
  · obtain ⟨rfl, hname⟩ := hplain
    simp only [List.mem_cons, List.not_mem_nil, or_false] at hname
    rcases hname with rfl | rfl | rfl <;> cases hR
    · exact comesTo_expr h hne
    · exact comesTo_call hT h hne
    · exact comesTo_ptrn h hne
  · refine ⟨_, .rule ?_ h, .refl hne⟩
    rw [rulebook_unfactoredEnd fun hgrammar hname => hplain ⟨hgrammar, hname⟩]
    exact hR

end Rules

/-- **The factored grammar matches as the plain one does.** At every place of every list of tokens,
every rule matches over the one grammar if and only if it matches over the other. The matches end at
the same position, and they have the same value. -/
theorem unfactored_agrees (tokens : List Node) (k : Nat) (hk : k ≤ tokens.length) (name : String)
    (hname : name ∈ rules.map Prod.fst) :
    ∃ outcome outcome',
      Terminates (fun fuel =>
        Peg.parseAt fuel none (call name) (Peg.valueCursor k (tokens.drop k)) frontEnd)
        (·.1 = outcome) ∧
      Terminates (fun fuel =>
        Peg.parseAt fuel none (call name) (Peg.valueCursor k (tokens.drop k)) unfactoredEnd)
        (·.1 = outcome') ∧
      outcome.Alike outcome' := by
  have hT : (Peg.Input.items tokens).tape.Straight := Peg.Input.straight_items tokens
  obtain ⟨o, o', ho, ho', halike⟩ :=
    exists_alike_of_replaces (replaces_unfactored fun _ _ _ => hT.unique) hname k
  exact Peg.parseAt_alike hk ho ho' halike

/-- In `( x ) ( ) , (` an application stands before a tail that fails halfway. -/
theorem unfactored_agrees_halfway :
    let tokens : List Node := [.token (.punct '('), .token (.ident "x"), .token (.punct ')'),
      .token (.punct '('), .token (.punct ')'), .token (.punct ','), .token (.punct '(')]
    0 ≤ tokens.length ∧ "expr" ∈ rules.map Prod.fst ∧ ∃ outcome outcome',
      Terminates (fun fuel =>
        Peg.parseAt fuel none (call "expr") (Peg.valueCursor 0 (tokens.drop 0)) frontEnd)
        (·.1 = outcome) ∧
      Terminates (fun fuel =>
        Peg.parseAt fuel none (call "expr") (Peg.valueCursor 0 (tokens.drop 0)) unfactoredEnd)
        (·.1 = outcome') ∧
      outcome.Alike outcome' := by
  intro tokens
  have hname : "expr" ∈ rules.map Prod.fst := by decide
  exact ⟨Nat.zero_le _, hname, unfactored_agrees tokens 0 (Nat.zero_le _) "expr" hname⟩

end Humus.Syntactic
