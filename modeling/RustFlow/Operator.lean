/-
# Operators

The binary and unary operators that the syntax and the typed terms share, with
the symbols they are written by.
-/

namespace RustFlow

/-- A binary operator. -/
inductive BinaryOp where
  | add | sub | mul | div | rem
  | and | or
  | bitAnd | bitOr | bitXor | shl | shr
  | eq | ne | lt | le | gt | ge
deriving DecidableEq, Repr

namespace BinaryOp

/-- Every operator. -/
def all : List BinaryOp :=
  [add, sub, mul, div, rem, and, or, bitAnd, bitOr, bitXor, shl, shr, eq, ne, lt, le, gt, ge]

/-- The symbol of an operator. -/
def symbol : BinaryOp → String
  | add => "+"
  | sub => "-"
  | mul => "*"
  | div => "/"
  | rem => "%"
  | and => "&&"
  | or => "||"
  | bitAnd => "&"
  | bitOr => "|"
  | bitXor => "^"
  | shl => "<<"
  | shr => ">>"
  | eq => "=="
  | ne => "!="
  | lt => "<"
  | le => "<="
  | gt => ">"
  | ge => ">="

/-- The operator of a symbol. -/
def ofSymbol? (s : String) : Option BinaryOp := all.find? fun op => op.symbol == s

/-- Whether an operator compares its operands. -/
def isComparison : BinaryOp → Bool
  | eq | ne | lt | le | gt | ge => true
  | _ => false

/-- Whether an operator gives a truth value: comparisons, `&&` and `||`. -/
def isBoolean : BinaryOp → Bool
  | and | or => true
  | op => op.isComparison

end BinaryOp

/-- A unary operator. -/
inductive UnaryOp where
  | neg | not | deref
deriving DecidableEq, Repr

namespace UnaryOp

/-- Every operator. -/
def all : List UnaryOp := [neg, not, deref]

/-- The symbol of an operator. -/
def symbol : UnaryOp → String
  | neg => "-"
  | not => "!"
  | deref => "*"

/-- The operator of a symbol. -/
def ofSymbol? (s : String) : Option UnaryOp := all.find? fun op => op.symbol == s

end UnaryOp

end RustFlow
