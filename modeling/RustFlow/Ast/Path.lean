/-
# Paths, written types and literals

The leaves of the syntax tree.  A path keeps the names of its segments and, for
each, whether generic arguments were written.  A type keeps the forms that have
a place in the type arena; every other form is `other`.  A `TypeAnn` is a type as
it stands in the source, with its place and its tokens as text.
-/

import RustFlow.Binary64
import RustFlow.Location

namespace RustFlow
namespace Ast

/-- One name of a path. -/
structure Segment where
  name : String
  /-- Whether generic arguments follow the name. -/
  generic : Bool
deriving DecidableEq, Repr, Inhabited

/-- A path `a::b::c`. -/
structure Path where
  pos : Position
  /-- Whether a self type in angle brackets stands before it, as in `<T as A>::B`. -/
  qualified : Bool
  /-- Whether it starts with `::`. -/
  rooted : Bool
  /-- The segments before the last. -/
  qualifier : List Segment
  last : Segment
  /-- Its tokens as text. -/
  text : String
deriving DecidableEq, Repr, Inhabited

namespace Path

/-- The segments in order. -/
def segments (p : Path) : List Segment := p.qualifier ++ [p.last]

/-- The names joined by `::`. -/
def joined (p : Path) : String := "::".intercalate (p.segments.map Segment.name)

/-- Whether the path is one name without generic arguments; a leading `::` may
stand before it. -/
def isPlain (p : Path) : Bool := p.qualifier.isEmpty && !p.last.generic

/-- The name of a path that is a single identifier. -/
def ident? (p : Path) : Option String :=
  if p.isPlain && !p.rooted then some p.last.name else none

/-- The names joined by `::` before the last one, if there are any. -/
def qualifierText? (p : Path) : Option String :=
  match p.qualifier with
  | [] => none
  | q => some ("::".intercalate (q.map Segment.name))

end Path

/-- A type as written, as far as the arena has a form for it. -/
inductive TypeExpr where
  | path (p : Path)
  | paren (inner : TypeExpr)
  | tuple (elements : List TypeExpr)
  /-- An array; the length is kept if it is an integer literal below `2 ^ 64`. -/
  | array (element : TypeExpr) (length : Option Nat)
  | pointer (mutable : Bool) (target : TypeExpr)
  | reference (mutable : Bool) (target : TypeExpr)
  /-- A single trait bound without `dyn`, as in `for<'a> F<'a>`; the flag says that
  the bound stands in parentheses. -/
  | bareBound (enclosed : Bool)
  /-- Any other form: a slice, a function pointer, a trait object, `_`, `!` and so on. -/
  | other
deriving Repr, Inhabited

/-- A type with its place and its tokens as text. -/
structure TypeAnn where
  type : TypeExpr
  pos : Position
  text : String
deriving Repr, Inhabited

/-- A literal. -/
inductive Lit where
  /-- An integer with its suffix.  A sign can stand before it in patterns. -/
  | int (negative : Bool) (magnitude : Nat) (suffix : String)
  | float (value : Binary64) (suffix : String)
  | bool (value : Bool)
  | char (value : Char)
  | byte (value : Nat)
  | str (value : String)
  /-- A byte string, a C string, or a literal that has no value. -/
  | bytes
deriving DecidableEq, Repr

namespace Lit

/-- What the value of an integer has to stay below, `2 ^ 128`. -/
def intBound : Nat := 0x100000000000000000000000000000000

/-- What the length of an array has to stay below, `2 ^ 64`. -/
def lengthBound : Nat := 0x10000000000000000

/-- What the index of a field has to stay below, `2 ^ 32`. -/
def fieldBound : Nat := 0x100000000

/-- The value of an integer literal that is at least zero and below `bound`. -/
def natBelow? (bound : Nat) : Lit → Option Nat
  | int false n _ => if n < bound then some n else none
  | _ => none

end Lit

end Ast
end RustFlow
