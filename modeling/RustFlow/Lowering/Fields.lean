/-
# Packing field values

Specification, section 4 (*Expression and Pattern Lowering*), Literals.

A struct literal names its fields in any order; its term lists their values in
the order of declaration.  `packFields` takes the values one declared field after
the other.  What is left over afterwards, or missing on the way, is an error.
-/

import RustFlow.Construct

namespace RustFlow

/-- Takes out the element at an index; the last element fills its place. -/
def swapRemove? {α : Type} (xs : List α) (i : Nat) : Option (α × List α) := do
  let x ← xs[i]?
  let last ← xs.getLast?
  return (x, if i + 1 = xs.length then xs.dropLast else xs.dropLast.set i last)

/-- Takes out the first field of a name. -/
def takeField? {α : Type} (name : String) (supplied : List (String × α)) :
    Option ((String × α) × List (String × α)) := do
  let i ← supplied.findIdx? fun f => f.1 == name
  swapRemove? supplied i

/-- The values of the declared fields in order. -/
def packFields {α : Type} (owner : String) :
    List String → List (String × α) → Except Construct (List α)
  | [], [] => .ok []
  | [], (extra, _) :: _ => .error (.unknownField owner extra)
  | name :: names, supplied =>
    match takeField? name supplied with
    | some (field, rest) => do
      let values ← packFields owner names rest
      return field.2 :: values
    | none => .error (.missingField owner name)

end RustFlow
