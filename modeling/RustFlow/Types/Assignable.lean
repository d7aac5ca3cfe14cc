/-
# Assignability

Specification, section 2 (*Type Lattice and Interning*), Operations:
`can_be_assigned_to` and `common_supertype`.

`a.assignable s t` says whether a value of type `s` may flow into a place of
type `t`.  The unknown type is on top.  Below it nothing widens:

* a primitive flows into itself only;
* pointers and references agree in mutability and flow if their targets do;
* arrays agree in length and flow if their elements do;
* tuples agree element by element;
* structs and enums agree in name, owner and member types.

`a.common s t` is the smaller of the two bounds when one type flows into the
other, and the unknown type otherwise.
-/

import RustFlow.Types.Arena

namespace RustFlow
namespace Arena

/-- The member types of a struct or enum, in declaration order. -/
def memberTypes (a : Arena) (t : TypeId) : List TypeId :=
  match a.layout? t with
  | some (.struct fs) => fs.map Field.type
  | some (.enum vs) => vs.flatMap fun v => v.shape.types
  | none => []

/-- Assignability, to a given depth. -/
def assignableWithin (a : Arena) : Nat → TypeId → TypeId → Bool
  | 0, _, _ => false
  | n + 1, s, t =>
    if t = .unknown then true
    else
      match a.form s, a.form t with
      | .pointer x mx, .pointer y my => mx == my && assignableWithin a n x y
      | .reference x mx, .reference y my => mx == my && assignableWithin a n x y
      | .array x lx, .array y ly => lx == ly && assignableWithin a n x y
      | .tuple xs, .tuple ys => xs == ys
      | .struct nx ox, .struct ny oy => nx == ny && ox == oy && a.memberTypes s == a.memberTypes t
      | .enum nx ox, .enum ny oy => nx == ny && ox == oy && a.memberTypes s == a.memberTypes t
      | .unknown, _ => false
      | _, _ => s == t && s.isPrimitive

/-- Whether a value of type `s` may flow into a place of type `t`. -/
def assignable (a : Arena) (s t : TypeId) : Bool := a.assignableWithin a.depth s t

/-- The bound of two types: the one the other flows into, or unknown. -/
def common (a : Arena) (s t : TypeId) : TypeId :=
  if a.assignable s t then t
  else if a.assignable t s then s
  else .unknown

/-- The type of an operator over operands of two types. -/
def operatorResult (_ : Arena) (s t : TypeId) : TypeId :=
  if s = t then s else .unknown

end Arena
end RustFlow
