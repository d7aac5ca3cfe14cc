/-
# Resolution of written types

Specification, section 2 (*Type Lattice and Interning*), Operations: `resolve`.

`resolve` finds the arena index of a written type and interns what is missing.

* `(T)` is `T`; tuples, arrays, pointers and references are built over their
  resolved parts, an array only if its length is a literal;
* a plain name is a primitive, `Self`, or a generic parameter, which is unknown;
* the last name of any other path is a struct or an enum of the module.  If there
  is none, a strict scope fails and a lenient one gives the unknown type;
* every other form is unknown.
-/

import RustFlow.Ast.Path
import RustFlow.Error
import RustFlow.Types.Arena

namespace RustFlow

/-- The names visible while the types of one item are resolved. -/
structure Scope where
  /-- The unit whose structs and enums are visible. -/
  owner : UnitId
  /-- What `Self` stands for. -/
  selfType : Option TypeId
  /-- The generic parameters. -/
  generics : List String
  /-- Whether an unknown name is an error. -/
  strict : Bool
  file : String

namespace Scope

/-- A place in the scope's file. -/
def locate (s : Scope) (p : Position) : Location := ⟨s.file, p⟩

/-- The scope inside an `impl` or a definition of a type. -/
def withSelf (s : Scope) (t : TypeId) : Scope := { s with selfType := some t }

/-- The scope with more generic parameters. -/
def withGenerics (s : Scope) (names : List String) : Scope :=
  { s with generics := s.generics ++ names }

/-- The type of a path. -/
def resolvePath (s : Scope) (p : Ast.Path) : Attempt Arena TypeId := do
  let a ← get
  let name := p.last.name
  match (if p.isPlain then TypeId.primitive? name else none) with
  | some t => return t
  | none =>
    if p.isPlain && name == "Self" then return s.selfType.getD .unknown
    else if p.isPlain && s.generics.contains name then return .unknown
    else
      match a.findNamed name s.owner with
      | some t => return t
      | none =>
        if s.strict then throw (.unresolvedType p.text (s.locate p.pos))
        else return .unknown

mutual

/-- The type of a written type. -/
def resolve (s : Scope) : Ast.TypeExpr → Attempt Arena TypeId
  | .paren t => resolve s t
  | .tuple ts => do
    let es ← resolveAll s ts
    modifyGet fun a => a.tuple es
  | .array t length => do
    let e ← resolve s t
    match length with
    | some n => modifyGet fun a => a.array e n
    | none => return .unknown
  | .pointer mutable t => do
    let target ← resolve s t
    modifyGet fun a => a.pointer target mutable
  | .reference mutable t => do
    let target ← resolve s t
    modifyGet fun a => a.reference target mutable
  | .path p => if p.qualified then return .unknown else s.resolvePath p
  | .bareBound _ | .other => return .unknown

/-- The types of a list of written types, left to right. -/
def resolveAll (s : Scope) : List Ast.TypeExpr → Attempt Arena (List TypeId)
  | [] => return []
  | t :: ts => do
    let e ← resolve s t
    let es ← resolveAll s ts
    return e :: es

end

/-- The result type of a function; unit if none is written. -/
def resolveResult (s : Scope) : Option Ast.TypeAnn → Attempt Arena TypeId
  | none => return .unit
  | some t => s.resolve t.type

end Scope

end RustFlow
