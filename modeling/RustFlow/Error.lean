/-
# Why lowering fails

An `Error` is a cause with the place it points at; `Error.message` is its
wording.  `Attempt σ α` is a computation on a state that may fail and keeps the
state it reached: what was interned or added to a graph before a failure stays.
-/

import RustFlow.Construct
import RustFlow.Location

namespace RustFlow

/-- The two jumps that leave an iteration of a loop. -/
inductive Jump where
  | leave
  | next
deriving DecidableEq, Repr

namespace Jump

/-- The keyword of a jump. -/
def keyword : Jump → String
  | leave => "break"
  | next => "continue"

end Jump

/-- The cause of a failed lowering. -/
inductive Error where
  /-- A construct outside the modelled part of the language. -/
  | unsupported (construct : Construct) (place : Location)
  /-- A name that no struct or enum of the module carries. -/
  | unresolvedType (name : String) (place : Location)
  /-- An enum whose variant names and shapes differ in number. -/
  | arityMismatch (name : String) (variants shapes : Nat)
  /-- A path to the end of a value-returning function without a value. -/
  | missingReturnValue (function : String) (place : Location)
  /-- A jump with no loop to leave. -/
  | strayJump (jump : Jump) (place : Location)
deriving DecidableEq, Repr

namespace Error

/-- The place an error points at, if it has one. -/
def place? : Error → Option Location
  | unsupported _ l => some l
  | unresolvedType _ l => some l
  | arityMismatch _ _ _ => none
  | missingReturnValue _ l => some l
  | strayJump _ l => some l

/-- The wording of an error. -/
def message : Error → String
  | unsupported c l => "unsupported construct `" ++ c.describe ++ "` at " ++ l.render
  | unresolvedType n l => "unresolved type `" ++ n ++ "` at " ++ l.render
  | arityMismatch n v s =>
    "enum `" ++ n ++ "` declares " ++ toString v ++ " variants but " ++ toString s ++ " field lists"
  | missingReturnValue f l =>
    "function `" ++ f ++ "` can complete without a return value at " ++ l.render
  | strayJump j l => "`" ++ j.keyword ++ "` outside of a matching loop at " ++ l.render

end Error

/-- A computation on a state `σ` that may fail and keeps the state it reached. -/
abbrev Attempt (σ α : Type) := ExceptT Error (StateM σ) α

namespace Attempt

/-- Runs a computation on a part of a larger state. -/
def zoom {σ τ α : Type} (view : σ → τ) (put : τ → σ → σ) (m : Attempt τ α) : Attempt σ α :=
  fun s =>
    let out := m (view s)
    (out.1, put out.2 s)

end Attempt

end RustFlow
