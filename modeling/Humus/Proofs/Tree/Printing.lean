import Humus.Tree.Basic
import Humus.Token.Basic

/-!
# Printing syntax trees

The tokens by which a syntax tree can be written. Wherever a part could take in what follows it,
the part stands in parentheses. Case distinctions and expressions that are statements are left out:
a tree without them is `Plain`.

## Main definitions

* `Expr.tokens`, `Stmt.tokens`, `Ptrn.tokens`, `Eqtn.tokens`: the tokens of a part of a tree
* `Expr.Plain`: the tree has no case distinction and no expression as a statement
-/

namespace Humus.Tree

/-- The token of a constant. -/
def Constant.token : Constant → Token
  | .nil => .keyword .nil
  | .bool true => .keyword .true
  | .bool false => .keyword .false
  | .undefined => .keyword .undefined

/-- The token of a literal. -/
def Literal.token : Literal → Token
  | .symbol name => .symbol name
  | .number n => .number n
  | .char c => .char c
  | .string s => .string s

/-- Tokens in parentheses. -/
def inParens (ts : List Token) : List Token :=
  .punct '(' :: (ts ++ [.punct ')'])

mutual

/-- The tokens of an expression. A case distinction has none. -/
def Expr.tokens : Expr → List Token
  | .pair head tail => inParens head.tokens ++ .punct ',' :: tail.tokens
  | .letIn eqtn body => .keyword .let :: (eqtn.tokens ++ .keyword .in :: body.tokens)
  | .cond eqtn body next =>
    .keyword .if :: (eqtn.tokens ++ (inParens body.tokens ++ Expr.tokensOfElse next))
  | .case _ _ => []
  | .new expr => .keyword .new :: inParens expr.tokens
  | .app abs arg => inParens abs.tokens ++ inParens arg.tokens
  | .ident name => [.ident name]
  | .block stmts => .punct '[' :: (Stmt.tokensOfAll stmts ++ [.punct ']'])
  | .self => [.keyword .self]
  | .abs ptrn body => .punct '\\' :: (inParens ptrn.tokens ++ .punct '.' :: body.tokens)
  | .const value => [value.token]
  | .literal value => [value.token]

/-- The tokens of the second branch of a conditional. -/
def Expr.tokensOfElse : Option Expr → List Token
  | none => []
  | some next => .keyword .else :: next.tokens

/-- The tokens of a statement. An expression that is a statement has none. -/
def Stmt.tokens : Stmt → List Token
  | .expr _ => []
  | .bind eqtn => .keyword .let :: eqtn.tokens
  | .send msg recipient =>
    .keyword .send :: (msg.tokens ++ .keyword .to :: recipient.tokens)
  | .afterSend delay msg recipient =>
    .keyword .after :: (delay.tokens ++
      .keyword .send :: (msg.tokens ++ .keyword .to :: recipient.tokens))
  | .create name expr => .keyword .create :: .ident name :: .keyword .with :: expr.tokens
  | .become expr => .keyword .become :: expr.tokens
  | .throw expr => .keyword .throw :: expr.tokens

/-- The tokens of some statements. -/
def Stmt.tokensOfAll : List Stmt → List Token
  | [] => []
  | stmt :: stmts => stmt.tokens ++ Stmt.tokensOfAll stmts

/-- The tokens of a pattern. -/
def Ptrn.tokens : Ptrn → List Token
  | .pair head tail => inParens head.tokens ++ .punct ',' :: tail.tokens
  | .any => [.keyword .any]
  | .value expr => .punct '$' :: inParens expr.tokens
  | .ident name => [.ident name]
  | .self => [.keyword .self]
  | .const value => [value.token]
  | .literal value => [value.token]

/-- The tokens of an equation. -/
def Eqtn.tokens : Eqtn → List Token
  | .mk left right => inParens left.tokens ++ .punct '=' :: inParens right.tokens

end

mutual

/-- No part of the expression is a case distinction, or an expression as a statement. -/
def Expr.Plain : Expr → Prop
  | .pair head tail => head.Plain ∧ tail.Plain
  | .letIn eqtn body => eqtn.Plain ∧ body.Plain
  | .cond eqtn body next => eqtn.Plain ∧ body.Plain ∧ Expr.PlainElse next
  | .case _ _ => False
  | .new expr => expr.Plain
  | .app abs arg => abs.Plain ∧ arg.Plain
  | .block stmts => Stmt.AllPlain stmts
  | .abs ptrn body => ptrn.Plain ∧ body.Plain
  | .ident _ | .self | .const _ | .literal _ => True

/-- The second branch of a conditional, if there is one, is plain. -/
def Expr.PlainElse : Option Expr → Prop
  | none => True
  | some next => next.Plain

/-- The statement is no expression, and its parts are plain. -/
def Stmt.Plain : Stmt → Prop
  | .expr _ => False
  | .bind eqtn => eqtn.Plain
  | .send msg recipient => msg.Plain ∧ recipient.Plain
  | .afterSend delay msg recipient => delay.Plain ∧ msg.Plain ∧ recipient.Plain
  | .create _ expr | .become expr | .throw expr => expr.Plain

/-- All statements are plain. -/
def Stmt.AllPlain : List Stmt → Prop
  | [] => True
  | stmt :: stmts => stmt.Plain ∧ Stmt.AllPlain stmts

/-- The expressions of which the pattern takes the values are plain. -/
def Ptrn.Plain : Ptrn → Prop
  | .pair head tail => head.Plain ∧ tail.Plain
  | .value expr => expr.Plain
  | .any | .ident _ | .self | .const _ | .literal _ => True

/-- Both patterns are plain. -/
def Eqtn.Plain : Eqtn → Prop
  | .mk left right => left.Plain ∧ right.Plain

end

end Humus.Tree
