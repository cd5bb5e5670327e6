/-!
# Error codes

Every diagnostic carries a code, so that its message can be looked up. The first digit of a code
names the phase that raised the error.

## Main definitions

* `ErrorCode`: the codes
* `ErrorCode.text`, `ErrorCode.description`: how a code is written, and what it stands for
* `ErrorCode.lookup?`, `ErrorCode.lookupAnyCase?`: the code that is written so
-/

namespace Humus

/-- What a diagnostic is about. -/
inductive ErrorCode where
  /-- Text that is no token. -/
  | lexical
  /-- A token that does not fit. -/
  | unexpectedToken
  /-- An input that ends too early. -/
  | unexpectedEnd
  /-- A program that has no behavior tree. -/
  | lowering
  /-- A mistake in a grammar. -/
  | grammar
  /-- A run that delivered too many messages. -/
  | dispatchLimit
  deriving DecidableEq

namespace ErrorCode

/-- All codes, in increasing order. -/
def all : List ErrorCode :=
  [.lexical, .unexpectedToken, .unexpectedEnd, .lowering, .grammar, .dispatchLimit]

/-- How the code is written. -/
def text : ErrorCode → String
  | .lexical => "E0001"
  | .unexpectedToken => "E1001"
  | .unexpectedEnd => "E1002"
  | .lowering => "E2001"
  | .grammar => "E9001"
  | .dispatchLimit => "E9002"

/-- What the code stands for. -/
def description : ErrorCode → String
  | .lexical => "lexical error"
  | .unexpectedToken => "unexpected token"
  | .unexpectedEnd => "unexpected end of input"
  | .lowering => "lowering error"
  | .grammar => "grammar configuration error"
  | .dispatchLimit => "dispatch limit exceeded"

/-- Whether the token grammar raised the error. -/
def isLexer : ErrorCode → Bool
  | .lexical => true
  | _ => false

/-- Whether the syntax grammar raised the error. -/
def isParser : ErrorCode → Bool
  | .unexpectedToken | .unexpectedEnd => true
  | _ => false

/-- Whether the error is no fault of the program that was read. -/
def isInternal : ErrorCode → Bool
  | .grammar | .dispatchLimit => true
  | _ => false

/-- The code that is written so. -/
def lookup? (s : String) : Option ErrorCode :=
  all.find? fun code => code.text = s

/-- A letter of ASCII in lower case; any other character as it is. -/
def foldCase (c : Char) : Char :=
  c.toLower

/-- The code that is written so, letters of ASCII in either case. -/
def lookupAnyCase? (s : String) : Option ErrorCode :=
  all.find? fun code => code.text.toList.map foldCase = s.toList.map foldCase

end ErrorCode

end Humus
