import Humus.Text.Outline

/-!
# Faults of a grammar

A fault is a mistake in how a grammar was put together. It is no failure of a match: it stops
whatever is running.

## Main definitions

* `Fault`: the mistakes
* `Fault.message`: the mistake in one sentence
-/

namespace Humus.Peg

open Text (Outline)

/-- How a sealed grammar was to be changed. -/
inductive Change where
  | define
  | transform
  deriving DecidableEq

namespace Change

/-- The verb for the change. -/
def verb : Change → String
  | .define => "define"
  | .transform => "transform"

end Change

/-- A mistake in how a grammar was put together. -/
inductive Fault where
  /-- A rule was matched that has no body. -/
  | undefined (rule : String)
  /-- Rules were mentioned that have no body. -/
  | unresolved (rules : List String)
  /-- A rule was matched whose grammar no longer exists. -/
  | detached (rule : String)
  /-- A rule was given a second body. -/
  | redefined (rule : String)
  /-- A grammar was to be changed after matching had begun. -/
  | sealed (rule : String) (change : Change)
  /-- A transform refused the value of its rule. -/
  | transform (rule : String) (reason : String)
  deriving DecidableEq

namespace Fault

/-- The fault in one sentence. -/
def message : Fault → String
  | .undefined rule => "rule `" ++ rule ++ "` is referenced but was never defined"
  | .unresolved rules => "rules referenced but never defined: " ++ ", ".intercalate rules
  | .detached rule => "rule `" ++ rule ++ "` outlived the namespace that defined it"
  | .redefined rule => "rule `" ++ rule ++ "` is already defined"
  | .sealed rule change => "cannot " ++ change.verb ++ " rule `" ++ rule
      ++ "`: the grammar is sealed once matching begins"
  | .transform rule reason => "transform for rule `" ++ rule ++ "` failed: " ++ reason

/-- The fault in a trace. -/
def outline : Fault → Outline
  | .undefined rule => .applied "Undefined" [.string rule]
  | .unresolved rules => .applied "Unresolved" [.items (rules.map .string)]
  | .detached rule => .applied "Detached" [.string rule]
  | .redefined rule => .applied "Redefined" [.string rule]
  | .sealed rule change =>
    .record "Sealed" [("name", .string rule), ("action", .string change.verb)]
  | .transform rule reason =>
    .record "Transform" [("rule", .string rule),
      ("source", .record "TransformError" [("message", .string reason)])]

end Fault

end Humus.Peg
