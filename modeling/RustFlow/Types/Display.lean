/-
# Types as text

Specification, section 2 (*Type Lattice and Interning*), Operations: Rendering.

Types read as they are written in source: `&mut [u8; 3]`, `*T`, `(A, B)`.  The
unknown type is `untyped`, a tuple of one element has no comma, and a struct or
enum is its name alone.
-/

import RustFlow.Error
import RustFlow.Types.Arena

namespace RustFlow
namespace Arena

/-- The marker of a mutable pointer or reference. -/
def mutMarker (mutable : Bool) : String := if mutable then "mut " else ""

/-- The text of a type, to a given depth. -/
def displayWithin (a : Arena) : Nat → TypeId → String
  | 0, _ => "untyped"
  | n + 1, t =>
    match a.form t with
    | .unknown => "untyped"
    | .unit => "()"
    | .bool => "bool"
    | .char => "char"
    | .str => "str"
    | .int w => "i" ++ w.suffix
    | .uint w => "u" ++ w.suffix
    | .float w => w.name
    | .pointer inner m => "*" ++ mutMarker m ++ displayWithin a n inner
    | .reference inner m => "&" ++ mutMarker m ++ displayWithin a n inner
    | .array e len => "[" ++ displayWithin a n e ++ "; " ++ toString len ++ "]"
    | .tuple es => "(" ++ ", ".intercalate (es.map (displayWithin a n)) ++ ")"
    | .struct name _ => name
    | .enum name _ => name

/-- The text of a type. -/
def display (a : Arena) (t : TypeId) : String := a.displayWithin a.depth t

/-- The first type with a given text. -/
def findByText (a : Arena) (text : String) : Option TypeId :=
  ((List.range a.size).map TypeId.mk).find? fun t => a.display t == text

/-- Gives an enum its variants.  Names and shapes are paired in order, and there
must be as many of the one as of the other. -/
def defineEnum (a : Arena) (t : TypeId) (names : List String) (shapes : List VariantShape) :
    Except Error Arena :=
  if names.length = shapes.length then
    .ok (a.setLayout t (.enum (List.zipWith Variant.mk names shapes)))
  else
    .error (.arityMismatch (a.display t) names.length shapes.length)

end Arena
end RustFlow
