/-!
# Command-line options

## Main definitions

* `Options`: the options of a phase
* `Options.parse`: options and a path from the arguments of a command
* `OptionError`: why arguments are refused
-/

namespace Humus

/-- The form in which a phase shows its result. -/
inductive Form where
  | json
  /-- The outline of the result. -/
  | outline
  deriving DecidableEq

namespace Form

/-- The form of this name. -/
def ofName? : String → Option Form
  | "json" => some .json
  | "debug" => some .outline
  | _ => none

end Form

/-- The options of a phase. -/
structure Options where
  /-- How many messages each event loop may deliver, `none` when any number. -/
  limit : Option Nat := none
  form : Form := .json
  deriving DecidableEq

/-- Why arguments are refused. -/
inductive OptionError where
  /-- The limit is no number of 64 bits. -/
  | invalidLimit (text : String)
  | unknownForm (name : String)
  | unknownOption (argument : String)
  /-- A path was already given. -/
  | unexpected (argument : String)
  deriving DecidableEq

namespace OptionError

/-- The error in one sentence. -/
def message : OptionError → String
  | .invalidLimit text => "invalid dispatch limit '" ++ text ++ "'"
  | .unknownForm name => "unknown emit format '" ++ name ++ "'"
  | .unknownOption argument => "unknown option '" ++ argument ++ "'"
  | .unexpected argument => "unexpected argument '" ++ argument ++ "'"

end OptionError

namespace Options

/-- The number that decimal digits denote behind those already read. -/
def digitsFrom? (acc : Nat) : List Char → Option Nat
  | [] => some acc
  | c :: cs => if c.isDigit then digitsFrom? (acc * 10 + (c.toNat - 48)) cs else none

/-- The number of 64 bits that a text denotes. A plus sign may precede the digits. -/
def limit? (text : String) : Option Nat :=
  let digits := match text.toList with
    | '+' :: cs => cs
    | cs => cs
  if digits.isEmpty then none else (digitsFrom? 0 digits).filter (· < UInt64.size)

/-- What follows `start` at the head of a text. -/
def after? (start text : String) : Option String :=
  if start.toList.isPrefixOf text.toList then
    some (String.ofList (text.toList.drop start.length))
  else none

/-- Take account of one argument. -/
def addArgument (options : Options) (path : Option String) (argument : String) :
    Except OptionError (Options × Option String) :=
  match after? "--limit=" argument, after? "--emit=" argument with
  | some text, _ =>
    match limit? text with
    | some limit => .ok ({ options with limit := some limit }, path)
    | none => .error (.invalidLimit text)
  | none, some name =>
    match Form.ofName? name with
    | some form => .ok ({ options with form }, path)
    | none => .error (.unknownForm name)
  | none, none =>
    if argument.toList.head? = some '-' then .error (.unknownOption argument)
    else if path.isNone then .ok (options, some argument)
    else .error (.unexpected argument)

/-- The options and the path among the arguments of a command, which may stand in any order. -/
def parse (arguments : List String) : Except OptionError (Options × Option String) :=
  arguments.foldlM (fun (options, path) argument => addArgument options path argument) ({}, none)

end Options

end Humus
