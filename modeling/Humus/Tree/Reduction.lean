import Humus.Tree.Grammar
import Humus.Reduction

/-!
# Reductions of the syntax grammar

What the rules of the syntax grammar make of the nodes below them. Every rule for a part of the
syntax tree reduces to that part, so that a reduction has only to tell the alternatives of its own
rule apart. An identifier is left as a text, since what it names depends on where it stands.

## Main definitions

* `reductions`: the reduction of each rule that has one
* `grammar`: the syntax grammar
-/

namespace Humus.Syntactic

open Humus.Tree

/-! ## Parts -/

/-- The items of a list. -/
def itemsOf (rule : String) : Node → Except String (List Node)
  | .list items => .ok items
  | n => malformed rule n

/-- The item of an option. -/
def optionOf (rule : String) : Node → Except String (Option Node)
  | .list [] => .ok none
  | .list [n] => .ok (some n)
  | n => malformed rule n

/-- The expression that a node is. -/
def exprOf (rule : String) : Node → Except String Expr
  | .expr e => .ok e
  | n => malformed rule n

/-- The pattern that a node is. -/
def ptrnOf (rule : String) : Node → Except String Ptrn
  | .ptrn p => .ok p
  | n => malformed rule n

/-- The equation that a node is. -/
def eqtnOf (rule : String) : Node → Except String Eqtn
  | .eqtn e => .ok e
  | n => malformed rule n

/-- The statement that a node is. -/
def stmtOf (rule : String) : Node → Except String Stmt
  | .stmt s => .ok s
  | n => malformed rule n

/-- The name that a node is. -/
def nameOf (rule : String) : Node → Except String String
  | .text name => .ok name
  | n => malformed rule n

/-- An optional expression, `NIL` if there is none. -/
def exprOrNil (rule : String) (n : Node) : Except String Expr := do
  match ← optionOf rule n with
  | some e => exprOf rule e
  | none => return .const .nil

/-- An optional pattern, `NIL` if there is none. -/
def ptrnOrNil (rule : String) (n : Node) : Except String Ptrn := do
  match ← optionOf rule n with
  | some p => ptrnOf rule p
  | none => return .const .nil

/-- The second of two nodes. -/
def secondOf (rule : String) : Node → Except String Node
  | .list [_, n] => .ok n
  | n => malformed rule n

/-- The reserved word at the head of a list. -/
def leadingWord? (items : List Node) : Option Keyword :=
  items.head?.bind Node.keyword?

/-! ## Programs and statements -/

/-- The statements of a program. -/
def reduceHumus : Reduction
  | _, .list [stmts, _] => .ok stmts
  | rule, n => malformed rule n

/-- The statements of a block. -/
def reduceBlock : Reduction
  | rule, .list [_, stmts, _] => do
    let stmts ← (← itemsOf rule stmts).mapM (stmtOf rule)
    return .expr (.block stmts)
  | rule, n => malformed rule n

/-- A sending, perhaps after a delay. -/
def sending (rule : String) (after msg recipient : Node) : Except String Stmt := do
  let msg ← exprOf rule msg
  let recipient ← exprOf rule recipient
  match ← optionOf rule after with
  | none => return .send msg recipient
  | some after => return .afterSend (← exprOf rule (← secondOf rule after)) msg recipient

/-- A statement that begins with a reserved word or with a delay. -/
def statement (rule : String) (items : List Node) : Except String Stmt :=
  match leadingWord? items, items with
  | some .let, [_, eqtn, _] => return .bind (← eqtnOf rule eqtn)
  | some .create, [_, name, _, expr] =>
    return .create (← nameOf rule name) (← exprOf rule expr)
  | some .become, [_, expr] => return .become (← exprOf rule expr)
  | some .throw, [_, expr] => return .throw (← exprOf rule expr)
  | some .let, _ | some .create, _ | some .become, _ | some .throw, _ =>
    malformed rule (.list items)
  | _, [after, _, msg, _, recipient] => sending rule after msg recipient
  | _, _ => malformed rule (.list items)

/-- A statement. An expression is a statement too. -/
def reduceStmt : Reduction
  | _, .expr e => .ok (.stmt (.expr e))
  | rule, n => return .stmt (← statement rule (← itemsOf rule n))

/-! ## Expressions -/

/-- The branches of a conditional, nested from the last one. -/
def nestElifs (rule : String) (next : Option Expr) : List Node → Except String (Option Expr)
  | [] => .ok next
  | elif :: elifs => do
    let next ← nestElifs rule next elifs
    match elif with
    | .list [_, eqtn, body] => return some (.cond (← eqtnOf rule eqtn) (← exprOf rule body) next)
    | n => malformed rule n

/-- A conditional. -/
def conditional (rule : String) (eqtn body elifs otherwise : Node) : Except String Expr := do
  let last ← match ← optionOf rule otherwise with
    | some n => some <$> exprOf rule (← secondOf rule n)
    | none => pure none
  let next ← nestElifs rule last (← itemsOf rule elifs)
  return .cond (← eqtnOf rule eqtn) (← exprOf rule body) next

/-- An arm of a case distinction. -/
def armOf (rule : String) : Node → Except String Arm
  | .list [ptrn, _, expr] => return .mk (← ptrnOf rule ptrn) (← exprOf rule expr)
  | n => malformed rule n

/-- A case distinction. -/
def distinction (rule : String) (subject arms : Node) : Except String Expr := do
  let arms ← (← itemsOf rule arms).mapM (armOf rule)
  return .case (← exprOf rule subject) arms

/-- A term, or a pair of a term and an expression. -/
def pairing (rule : String) (head tail : Node) : Except String Expr := do
  let head ← exprOf rule head
  match ← optionOf rule tail with
  | none => return head
  | some tail => return .pair head (← exprOf rule (← secondOf rule tail))

/-- The expression of a list of nodes. -/
def expression (rule : String) (items : List Node) : Except String Expr :=
  match leadingWord? items, items with
  | some .let, [_, eqtn, _, body] => return .letIn (← eqtnOf rule eqtn) (← exprOf rule body)
  | some .if, [_, eqtn, body, elifs, otherwise] => conditional rule eqtn body elifs otherwise
  | some .case, [_, subject, _, arms, _] => distinction rule subject arms
  | some .let, _ | some .if, _ | some .case, _ => malformed rule (.list items)
  | _, [head, tail] => pairing rule head tail
  | _, _ => malformed rule (.list items)

/-- An expression. -/
def reduceExpr : Reduction := fun rule n =>
  return .expr (← expression rule (← itemsOf rule n))

/-- A term. All but the creation of an actor are expressions already. -/
def reduceTerm : Reduction
  | _, .expr e => .ok (.expr e)
  | rule, .list items =>
    match leadingWord? items, items with
    | some .new, [_, term] => return .expr (.new (← exprOf rule term))
    | _, _ => malformed rule (.list items)
  | rule, n => malformed rule n

/-- An expression, applied if there is an argument. -/
def application (rule : String) (abs : Expr) (argument : Node) : Except String Node := do
  match ← optionOf rule argument with
  | some (.list [_, arg, _]) => return .expr (.app abs (← exprOrNil rule arg))
  | some n => malformed rule n
  | none => return .expr abs

/-- An identifier or an expression in parentheses, applied if there is an argument. -/
def reduceCall : Reduction
  | rule, .list [.text name, argument] => application rule (.ident name) argument
  | rule, .list [_, .list [inner, _, argument]] => do
    application rule (← exprOf rule inner) argument
  | rule, .list [_, .list items] => malformed rule (.list items)
  | _, .list [_, _] => .ok (.expr (.const .nil))
  | rule, n => malformed rule n

/-! ## Patterns -/

/-- An equation between patterns, or the definition of a function. -/
def reduceEqtn : Reduction
  | rule, .list [left, _, right] =>
    return .eqtn (.mk (← ptrnOf rule left) (← ptrnOf rule right))
  | rule, .list [name, _, param, _, _, body] => do
    let param ← ptrnOrNil rule param
    let body ← exprOf rule body
    return .eqtn (.mk (.ident (← nameOf rule name)) (.value (.abs param body)))
  | rule, n => malformed rule n

/-- A pattern, or a pair of patterns. -/
def reducePtrn : Reduction
  | rule, .list [head, tail] => do
    let head ← ptrnOf rule head
    match ← optionOf rule tail with
    | none => return .ptrn head
    | some tail => return .ptrn (.pair head (← ptrnOf rule (← secondOf rule tail)))
  | rule, n => malformed rule n

/-- The pattern of an expression that is a constant. -/
def constPtrn : Expr → Ptrn
  | .const value => .const value
  | .literal value => .literal value
  | .self => .self
  | e => .value e

/-- A pattern that is no pair, unless it stands in parentheses. -/
def reducePterm : Reduction
  | _, .token (.keyword .any) => .ok (.ptrn .any)
  | _, .expr e => .ok (.ptrn (constPtrn e))
  | _, .text name => .ok (.ptrn (.ident name))
  | rule, .list [_, term] => return .ptrn (.value (← exprOf rule term))
  | rule, .list [_, inner, _] => return .ptrn (← ptrnOrNil rule inner)
  | rule, n => malformed rule n

/-- A constant. -/
def reduceConst : Reduction
  | _, .expr e => .ok (.expr e)
  | _, .token (.keyword .self) => .ok (.expr .self)
  | _, .token (.keyword .nil) => .ok (.expr (.const .nil))
  | _, .token (.keyword .true) => .ok (.expr (.const (.bool true)))
  | _, .token (.keyword .false) => .ok (.expr (.const (.bool false)))
  | _, .token (.keyword .undefined) => .ok (.expr (.const .undefined))
  | _, .token (.symbol name) => .ok (.expr (.literal (.symbol name)))
  | _, .token (.number n) => .ok (.expr (.literal (.number n)))
  | _, .token (.char c) => .ok (.expr (.literal (.char c)))
  | _, .token (.string s) => .ok (.expr (.literal (.string s)))
  | rule, .list [_, ptrn, _, body] =>
    return .expr (.abs (← ptrnOf rule ptrn) (← exprOf rule body))
  | rule, n => malformed rule n

/-- The name of an identifier. -/
def reduceIdent : Reduction
  | _, .token (.ident name) => .ok (.text name)
  | rule, n => malformed rule n

/-- The reductions of the syntax grammar. -/
def reductions : List (String × Reduction) := [
  ("humus", reduceHumus),
  ("block", reduceBlock),
  ("stmt", reduceStmt),
  ("expr", reduceExpr),
  ("term", reduceTerm),
  ("call", reduceCall),
  ("eqtn", reduceEqtn),
  ("ptrn", reducePtrn),
  ("pterm", reducePterm),
  ("const", reduceConst),
  ("ident", reduceIdent)]

/-- The syntax grammar. -/
def grammar : Peg.Grammar Node :=
  reducedGrammar rules reductions

end Humus.Syntactic
