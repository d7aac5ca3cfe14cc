/-
# Typed terms and patterns

Graph nodes evaluate terms.  A `Term` is a form over smaller terms with the type
of its value and its place in the source.  A `Pattern` binds variables and may
hold terms as literals and range ends, so the two are defined together.

Calls are left unresolved: a call keeps the name it calls and its arguments, and
a method call has its receiver as first argument.
-/

import RustFlow.Binary64
import RustFlow.Location
import RustFlow.Operator
import RustFlow.Types.Arena

namespace RustFlow

/-- A constant. -/
inductive Literal where
  | int (value : Nat)
  | float (value : Binary64)
  | bool (value : Bool)
  | char (value : Char)
  | str (value : String)
  | unit
deriving DecidableEq, Repr

/-- A variable with the mutability it was declared with. -/
structure Variable where
  name : String
  mutable : Bool
deriving DecidableEq, Repr

/-- How a variant literal carries its values. -/
inductive Payload where
  | unit | tuple | struct
deriving DecidableEq, Repr

mutual

/-- A term with its type and its place. -/
inductive Term where
  | mk (form : TermForm) (type : TypeId) (pos : Position)

/-- What a term computes. -/
inductive TermForm where
  | literal (value : Literal)
  | var (v : Variable)
  /-- A path that names no variable. -/
  | path (path : String)
  /-- A macro call, left unexpanded. -/
  | macroCall (path tokens : String)
  /-- What an exhausted iterator gives. -/
  | exhausted
  | binary (op : BinaryOp) (left right : Term)
  | unary (op : UnaryOp) (operand : Term)
  | borrow (mutable : Bool) (operand : Term)
  | cast (operand : Term) (target : String)
  | range (start stop : Option Term) (inclusive : Bool)
  | declare (pat : Pattern) (ascription : Option String) (init : Option Term)
  | assign (target value : Term)
  /-- Whether a value matches a pattern, whose variables it then binds. -/
  | test (pat : Pattern) (scrutinee : Term)
  /-- A pattern read as a value. -/
  | pattern (pat : Pattern)
  | index (base idx : Term)
  | tupleField (base : Term) (idx : Nat)
  | field (base : Term) (name : String)
  | call (target : String) (qualifier : Option String) (method : Bool) (args : List Term)
  /-- Field values in declaration order. -/
  | structLit (name : String) (fields : List Term)
  | enumLit (name variant : String) (payload : Payload) (values : List Term)
  | tuple (elements : List Term)
  | array (elements : List Term)
  | arrayRepeat (element : Term) (length : Nat)

/-- A pattern of `let`, `for`, `match` and `if let`. -/
inductive Pattern where
  | binding (var : Variable)
  | reference (mutable : Bool) (inner : Pattern)
  | struct (name : String) (type : TypeId) (fields : List FieldPattern) (rest : Bool)
  | tupleStruct (path : String) (elements : List Pattern)
  | path (path : String)
  | tuple (elements : List Pattern)
  | literal (value : Term)
  | range (start stop : Option Term) (inclusive : Bool)
  | alternatives (cases : List Pattern)
  | rest
  | wildcard

/-- A field of a struct pattern. -/
inductive FieldPattern where
  | mk (name : String) (pat : Pattern)

end

instance : Inhabited Term := ⟨.mk .exhausted .unknown .start⟩
instance : Inhabited Pattern := ⟨.wildcard⟩

namespace Term

def form : Term → TermForm
  | mk f _ _ => f

def type : Term → TypeId
  | mk _ t _ => t

def pos : Term → Position
  | mk _ _ p => p

end Term

namespace Pattern

/-- The type a pattern shows by itself: that of a struct pattern or a literal. -/
def staticType : Pattern → TypeId
  | struct _ t _ _ => t
  | literal v => v.type
  | _ => .unknown

/-- Whether a pattern matches every value without looking at it. -/
def isCatchAll : Pattern → Bool
  | wildcard | binding _ => true
  | _ => false

mutual

/-- The variables a pattern binds, left to right. -/
def bindings : Pattern → List Variable
  | binding v => [v]
  | reference _ p => bindings p
  | struct _ _ fs _ => bindingsOfFields fs
  | tupleStruct _ ps => bindingsOfAll ps
  | tuple ps => bindingsOfAll ps
  | alternatives ps => bindingsOfAll ps
  | path _ | literal _ | range _ _ _ | rest | wildcard => []

/-- The variables a list of patterns binds. -/
def bindingsOfAll : List Pattern → List Variable
  | [] => []
  | p :: ps => bindings p ++ bindingsOfAll ps

/-- The variables a list of field patterns binds. -/
def bindingsOfFields : List FieldPattern → List Variable
  | [] => []
  | .mk _ p :: fs => bindings p ++ bindingsOfFields fs

end

end Pattern

namespace Term

/-- A pattern read as a value; a binding is a reference to its variable. -/
def ofPattern (p : Pattern) (pos : Position) : Term :=
  match p with
  | .binding v => mk (.var v) p.staticType pos
  | p => mk (.pattern p) p.staticType pos

/-- The receiver of a method call. -/
def receiver? : Term → Option Term
  | mk (.call _ _ true args) _ _ => args.head?
  | _ => none

end Term

end RustFlow
