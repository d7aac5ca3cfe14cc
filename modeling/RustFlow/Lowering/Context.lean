/-
# The context of lowering

Specification, section 4 (*Expression and Pattern Lowering*), Node kinds: every use of a
variable carries the mutability it was declared with.

While a body is lowered, its context holds the type arena and the local variables
seen so far.  A later binding of a name hides an earlier one, and no binding is
ever taken back.
-/

import RustFlow.Term
import RustFlow.Types.Display
import RustFlow.Types.Resolve

namespace RustFlow

/-- What is known about a local variable. -/
structure Local where
  type : TypeId
  mutable : Bool
deriving DecidableEq, Repr

/-- The local variables by name, the latest first. -/
abbrev Locals := List (String × Local)

namespace Locals

/-- Records a variable. -/
def bind (l : Locals) (v : Variable) (type : TypeId) : Locals := (v.name, ⟨type, v.mutable⟩) :: l

end Locals

/-- The state of lowering. -/
structure Context where
  arena : Arena
  locals : Locals

namespace Context

instance : Inhabited Context := ⟨⟨.empty, []⟩⟩

/-- The variable of a name as it was last bound. -/
def local? (c : Context) (name : String) : Option Local := c.locals.lookup name

/-- The type of a variable; unknown if it is not bound. -/
def localType (c : Context) (name : String) : TypeId :=
  ((c.local? name).map Local.type).getD .unknown

/-- A reference to a variable, with the mutability it was bound with. -/
def mention (c : Context) (name : String) : Variable :=
  ⟨name, ((c.local? name).map Local.mutable).getD false⟩

/-- Records a variable. -/
def bind (c : Context) (v : Variable) (type : TypeId) : Context :=
  { c with locals := c.locals.bind v type }

/-- Runs a computation on the arena of a context. -/
def onArena {α : Type} (m : Attempt Arena α) : Attempt Context α :=
  m.zoom arena fun a c => { c with arena := a }

end Context

namespace Scope

/-- The struct of a name; `Self` names the type of the scope. -/
def structNamed (s : Scope) (a : Arena) (name : String) : Option TypeId :=
  if name == "Self" then s.selfType.filter a.isStruct else a.findStruct name s.owner

/-- The enum of a name; `Self` names the type of the scope. -/
def enumNamed (s : Scope) (a : Arena) (name : String) : Option TypeId :=
  if name == "Self" then s.selfType.filter a.isEnum else a.findEnum name s.owner

/-- A variant of an enum that a path ends in. -/
structure EnumVariant where
  type : TypeId
  enumName : String
  variant : Variant

/-- The variant that the last two segments of a path name. -/
def variantOf (s : Scope) (a : Arena) (p : Ast.Path) : Option EnumVariant := do
  let owner ← p.qualifier.getLast?
  let type ← s.enumNamed a owner.name
  let variant ← a.variant? type p.last.name
  return ⟨type, a.display type, variant⟩

/-- The struct that a path names if it is a single identifier. -/
def structOf (s : Scope) (a : Arena) (p : Ast.Path) : Option TypeId :=
  p.ident?.bind (s.structNamed a)

/-- The text of a written type: as the arena shows it, or as written if it is
unknown there. -/
def typeText (a : Arena) (written : Ast.TypeAnn) (type : TypeId) : String :=
  if type = .unknown then written.text else a.display type

/-- Fails on a construct that is not modelled. -/
def refuse {σ α : Type} (s : Scope) (what : Construct) (pos : Position) : Attempt σ α :=
  throw (.unsupported what (s.locate pos))

end Scope

end RustFlow
