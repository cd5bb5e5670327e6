import Humus.Peg.Parse

/-!
# Recipes and classes

A small vocabulary of transforms and of token tests for grammars over characters.

## Main definitions

* `Recipe`, `Recipe.transform`: the transforms
* `TokenClass`, `TokenClass.test`: the tests
-/

namespace Humus.Workbench

open Peg (Value Transform)

/-- A transform over the values of characters. -/
inductive Recipe where
  /-- The value itself. -/
  | identity
  /-- The text of the value. -/
  | text
  | nothing
  /-- The region that was consumed. -/
  | span
  /-- The name of the rule, then the value. -/
  | tag
  /-- The number of items. -/
  | length
  /-- The value as a message shows it. -/
  | describe
  /-- One item. -/
  | item (index : Nat)
  /-- An operand, followed by pairs of an operator and an operand, grouped from the left. -/
  | operators
  | const (value : Value)
  /-- Refuse every value. -/
  | refuse (reason : String)
  /-- Refuse a value with this text. -/
  | refuseText (text : String)
  /-- Take note of the value first. -/
  | noted (recipe : Recipe)
  deriving Inhabited

namespace Recipe

/-- How many notes one use of the transform takes. -/
def notes : Recipe → Nat
  | .noted r => r.notes + 1
  | _ => 0

/-- Operators and operands behind `acc`, grouped from the left and written before their
operands. `none` unless every item is a pair. -/
def group (acc : String) : List Value → Option String
  | [] => some acc
  | .list [op, operand] :: rest =>
    group ("(" ++ op.flatten ++ " " ++ acc ++ " " ++ operand.flatten ++ ")") rest
  | _ => none

/-- The transform. -/
def transform : Recipe → Transform Value
  | .identity, _, v, _ => .ok v
  | .text, _, v, _ => .ok (.text v.flatten)
  | .nothing, _, _, _ => .ok .nothing
  | .span, _, _, s => .ok (.text s.text)
  | .tag, rule, v, _ => .ok (.list [.text rule, v])
  | .length, _, v, _ => .ok (.text (toString (v.items?.getD []).length))
  | .describe, _, v, _ => .ok (.text v.describe)
  | .item i, _, v, _ =>
    match (v.items?.getD [])[i]? with
    | some found => .ok found
    | none => .error ("no item " ++ toString i ++ " in " ++ v.describe)
  | .operators, rule, v, _ =>
    let grouped := match v with
      | .list [head, .list rest] => group head.flatten rest
      | _ => none
    match grouped with
    | some s => .ok (.text s)
    | none => .error ("unexpected shape for " ++ rule)
  | .const value, _, _, _ => .ok value
  | .refuse reason, _, _, _ => .error reason
  | .refuseText refused, rule, v, _ =>
    if v.flatten = refused then .error (rule ++ " rejects " ++ v.describe) else .ok v
  | .noted r, rule, v, s => r.transform rule v s

end Recipe

/-- A class of tokens. -/
inductive TokenClass where
  | digit
  | lower
  | upper
  | alpha
  /-- Every character. -/
  | char
  /-- The characters of a string. -/
  | oneOf (chars : String)
  /-- Every text. -/
  | text
  /-- Every list. -/
  | list
  /-- Every token. -/
  | all
  /-- No token. -/
  | none

namespace TokenClass

/-- Whether a token is in the class. Letters and digits are those of ASCII. -/
def test (k : TokenClass) (v : Value) : Bool :=
  match k, v with
  | .digit, .char c => c.isDigit
  | .lower, .char c => c.isLower
  | .upper, .char c => c.isUpper
  | .alpha, .char c => c.isAlpha
  | .char, .char _ => true
  | .oneOf chars, .char c => chars.toList.contains c
  | .text, .text _ => true
  | .list, .list _ => true
  | .all, _ => true
  | _, _ => false

end TokenClass

end Humus.Workbench
