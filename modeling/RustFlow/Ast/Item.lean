/-
# Items

The top level of a file: structs, enums, functions, `impl` blocks and constants.
Declarations that the analysis skips or refuses keep what a message about them
needs.
-/

import RustFlow.Ast.Expr

namespace RustFlow
namespace Ast

/-- A field of a struct or of a variant; positional fields have no name. -/
structure FieldDecl where
  pos : Position
  name : Option String
  type : TypeAnn

/-- The fields of a struct or of a variant. -/
inductive Fields where
  | unit
  | positional (fields : List FieldDecl)
  | named (fields : List FieldDecl)

namespace Fields

/-- The fields in order. -/
def toList : Fields → List FieldDecl
  | unit => []
  | positional fs => fs
  | named fs => fs

end Fields

/-- A variant of an enum. -/
structure VariantDecl where
  name : String
  fields : Fields

/-- A parameter of a function. -/
inductive Param where
  /-- `self` by value or behind a reference, possibly `mut`. -/
  | receiver (pos : Position) (byRef mutable : Bool)
  | typed (pos : Position) (pat : Pat) (type : TypeAnn)

/-- A function or method with its body. -/
structure FnDecl where
  name : String
  /-- The place of the name. -/
  pos : Position
  isAsync : Bool
  isVariadic : Bool
  /-- The names of its type parameters. -/
  generics : List String
  params : List Param
  result : Option TypeAnn
  body : Block

/-- A member of an `impl` block. -/
inductive Member where
  | method (fn : FnDecl)
  | const (name : String) (pos : Position) (type : TypeAnn)
  | other (pos : Position)

/-- An item of a file. -/
inductive Item where
  | struct (name : String) (pos : Position) (generics : List String) (fields : Fields)
  | enum (name : String) (pos : Position) (generics : List String) (variants : List VariantDecl)
  | function (fn : FnDecl)
  | impl (generics : List String) (self : TypeAnn) (members : List Member)
  /-- A `const` or `static`. -/
  | const (name : String) (pos : Position) (type : TypeAnn)
  | useDecl
  | externCrate
  /-- An item the analysis does not model, with the name messages give it. -/
  | other (pos : Position) (what : Construct) (name : String)

end Ast
end RustFlow
