import Humus.Text.Outline
import Humus.Text.Json

/-!
# Number literals

A number literal keeps its digits as they were written. It has a value if the digits are valid in
its radix and the value fits a signed word of 64 bits.

## Main definitions

* `Number`: a literal
* `Number.value?`: its value
* `Number.text`: how it is written
* `Number.decimal`: the literal for an integer
-/

namespace Humus

open Text (Outline Json)

/-- A number literal such as `-16#2a`. -/
structure Number where
  sign : Option Char
  radix : Nat
  /-- The digits as they were written. -/
  digits : String
  deriving DecidableEq

namespace Number

/-- The digit that `c` stands for in a radix of at most 36. Letters of either case continue the
digits. -/
def digit? (radix : Nat) (c : Char) : Option Nat :=
  let d :=
    if '0' ≤ c ∧ c ≤ '9' then some (c.toNat - 48)
    else if 'a' ≤ c ∧ c ≤ 'z' then some (c.toNat - 87)
    else if 'A' ≤ c ∧ c ≤ 'Z' then some (c.toNat - 55)
    else none
  d.filter (· < radix)

/-- The number that digits denote behind those already read. -/
def magnitudeFrom? (radix : Nat) (acc : Nat) : List Char → Option Nat
  | [] => some acc
  | c :: cs => (digit? radix c).bind fun d => magnitudeFrom? radix (acc * radix + d) cs

/-- The number that digits denote; there is at least one. -/
def magnitude? (radix : Nat) : List Char → Option Nat
  | [] => none
  | cs => magnitudeFrom? radix 0 cs

/-- Whether an integer fits a signed word of 64 bits. -/
def fitsWord (n : Int) : Bool :=
  -9223372036854775808 ≤ n && n ≤ 9223372036854775807

/-- The number that digits denote, with a sign in front of them or without, if it fits a signed
word of 64 bits. -/
def word? (radix : Nat) (digits : List Char) : Option Int :=
  let n := match digits with
    | '-' :: cs => (magnitude? radix cs).map fun m => -(m : Int)
    | '+' :: cs => (magnitude? radix cs).map fun m => (m : Int)
    | cs => (magnitude? radix cs).map fun m => (m : Int)
  n.filter fitsWord

/-- The negative of a word. The least word is its own negative. -/
def negate (n : Int) : Int :=
  if fitsWord (-n) then -n else n

/-- The value of the literal. The digits alone have to fit a word, before the sign is applied. -/
def value? (n : Number) : Option Int :=
  if 2 ≤ n.radix ∧ n.radix ≤ 36 then
    (word? n.radix n.digits.toList).map fun v => if n.sign = some '-' then negate v else v
  else none

/-- The literal for an integer. -/
def decimal (value : Int) : Number where
  sign := if value < 0 then some '-' else none
  radix := 10
  digits := toString value.natAbs

/-- How the literal is written. The radix ten is left out. -/
def text (n : Number) : String :=
  (n.sign.map Char.toString).getD "" ++ (if n.radix = 10 then "" else toString n.radix ++ "#")
    ++ n.digits

/-- The literal in a trace. -/
def outline (n : Number) : Outline :=
  .record "Number" [
    ("sign", .option .char n.sign),
    ("radix", .nat n.radix),
    ("digits", .string n.digits),
    ("value", .option .int n.value?)]

/-- The literal as a document. -/
def json (n : Number) : Json :=
  .object [
    ("sign", .option .char n.sign),
    ("radix", .nat n.radix),
    ("digits", .string n.digits),
    ("value", .option .int n.value?)]

end Number

end Humus
