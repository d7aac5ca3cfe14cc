/-
# Patterns, expressions and statements

The syntax tree of function bodies.  Every node carries the place of its first
token, attributes included.  Forms that the analysis does not model are `other`
nodes that say what they are; expressions among them keep their operands.  A form
that is only read as tokens is a `verbatim` node.

An `if` chain is one node: its clauses in order and the final `else` block.
-/

import RustFlow.Ast.Path
import RustFlow.Construct
import RustFlow.Operator

namespace RustFlow
namespace Ast

/-- An end of a range pattern. -/
inductive Bound where
  | literal (pos : Position) (lit : Lit)
  | path (p : Path)
  | constBlock (pos : Position)
deriving Repr

mutual

/-- A pattern. -/
inductive Pat where
  | binding (pos : Position) (name : String) (mutable : Bool)
  | reference (pos : Position) (mutable : Bool) (inner : Pat)
  | struct (pos : Position) (path : Path) (fields : List FieldPat) (rest : Bool)
  | tupleStruct (pos : Position) (path : Path) (elements : List Pat)
  | path (pos : Position) (path : Path)
  | tuple (pos : Position) (elements : List Pat)
  | literal (pos : Position) (lit : Lit)
  | range (pos : Position) (start stop : Option Bound) (inclusive : Bool)
  | alternatives (pos : Position) (cases : List Pat)
  | rest (pos : Position)
  | wild (pos : Position)
  | paren (pos : Position) (inner : Pat)
  | other (pos : Position) (what : Construct)

/-- A field of a struct pattern. -/
inductive FieldPat where
  | mk (name : String) (pat : Pat)

end

namespace Pat

/-- The place of the first token. -/
def pos : Pat → Position
  | binding p _ _ | reference p _ _ | struct p _ _ _ | tupleStruct p _ _ | path p _ | tuple p _
  | literal p _ | range p _ _ _ | alternatives p _ | rest p | wild p | paren p _ | other p _ => p

end Pat

mutual

/-- An expression. -/
inductive Expr where
  | literal (pos : Position) (lit : Lit)
  | path (pos : Position) (path : Path)
  | binary (pos : Position) (op : BinaryOp) (left right : Expr)
  /-- A compound assignment `left op= right`. -/
  | compound (pos : Position) (op : BinaryOp) (left right : Expr)
  | unary (pos : Position) (op : UnaryOp) (operand : Expr)
  | borrow (pos : Position) (mutable : Bool) (operand : Expr)
  | cast (pos : Position) (operand : Expr) (target : TypeAnn)
  | range (pos : Position) (start stop : Option Expr) (inclusive : Bool)
  | assign (pos : Position) (left right : Expr)
  /-- A condition `let pat = scrutinee`. -/
  | test (pos : Position) (pat : Pat) (scrutinee : Expr)
  | index (pos : Position) (base idx : Expr)
  | tupleField (pos : Position) (base : Expr) (idx : Nat)
  | field (pos : Position) (base : Expr) (name : String)
  | methodCall (pos : Position) (receiver : Expr) (method : String) (args : List Expr)
  | call (pos : Position) (callee : Expr) (args : List Expr)
  /-- A struct literal; `rest` says that `..` ends its fields. -/
  | structLit (pos : Position) (path : Path) (fields : List FieldInit) (rest : Bool)
  | tuple (pos : Position) (elements : List Expr)
  | array (pos : Position) (elements : List Expr)
  /-- An array `[element; length]`; the length is kept if it is an integer literal
  below `2 ^ 64`. -/
  | arrayRepeat (pos : Position) (element : Expr) (length : Option Nat)
  | paren (pos : Position) (inner : Expr)
  | macroCall (pos : Position) (path tokens : String) (braced : Bool)
  | block (pos : Position) (label : Option String) (body : Block)
  | unsafeBlock (pos : Position) (body : Block)
  | branch (pos : Position) (clauses : List Clause) (otherwise : Option Block)
  | matchOn (pos : Position) (scrutinee : Expr) (arms : List Arm)
  | whileLoop (pos : Position) (label : Option String) (condition : Expr) (body : Block)
  | loop (pos : Position) (label : Option String) (body : Block)
  | forLoop (pos : Position) (label : Option String) (pat : Pat) (iterable : Expr) (body : Block)
  | ret (pos : Position) (value : Option Expr)
  | leave (pos : Position) (label : Option String) (value : Option Expr)
  | next (pos : Position) (label : Option String)
  | other (pos : Position) (what : Construct) (operands : List Expr)
  /-- An expression that is only read as tokens; `braced` says that it ends with a
  group in braces. -/
  | verbatim (pos : Position) (braced : Bool)

/-- A field of a struct literal. -/
inductive FieldInit where
  | mk (name : String) (value : Expr)

/-- A condition of an `if` chain with its block. -/
inductive Clause where
  | mk (condition : Expr) (body : Block)

/-- An arm of a `match`. -/
inductive Arm where
  | mk (pat : Pat) (guard : Option Expr) (body : Expr)

/-- A block of statements. -/
inductive Block where
  | mk (pos : Position) (stmts : List Stmt)

/-- A statement. -/
inductive Stmt where
  /-- A `let` statement; `diverges` says that an `else` block ends it. -/
  | bind (pos : Position) (pat : Pat) (ascription : Option TypeAnn) (init : Option Expr)
      (diverges : Bool)
  /-- An expression, with or without a semicolon after it. -/
  | expr (e : Expr) (semi : Bool)
  /-- A `use` declaration. -/
  | useDecl
  /-- Any other item. -/
  | item (pos : Position)

end

namespace Expr

/-- The place of the first token. -/
def pos : Expr → Position
  | literal p _ | path p _ | binary p _ _ _ | compound p _ _ _ | unary p _ _ | borrow p _ _
  | cast p _ _ | range p _ _ _ | assign p _ _ | test p _ _ | index p _ _ | tupleField p _ _
  | field p _ _ | methodCall p _ _ _ | call p _ _ | structLit p _ _ _ | tuple p _ | array p _
  | arrayRepeat p _ _ | paren p _ | macroCall p _ _ _ | block p _ _ | unsafeBlock p _
  | branch p _ _ | matchOn p _ _ | whileLoop p _ _ _ | loop p _ _ | forLoop p _ _ _ _ | ret p _
  | leave p _ _ | next p _ | other p _ _ | verbatim p _ => p

/-- The same expression with another place. -/
def withPos (p : Position) : Expr → Expr
  | literal _ a => literal p a
  | path _ a => path p a
  | binary _ a b c => binary p a b c
  | compound _ a b c => compound p a b c
  | unary _ a b => unary p a b
  | borrow _ a b => borrow p a b
  | cast _ a b => cast p a b
  | range _ a b c => range p a b c
  | assign _ a b => assign p a b
  | test _ a b => test p a b
  | index _ a b => index p a b
  | tupleField _ a b => tupleField p a b
  | field _ a b => field p a b
  | methodCall _ a b c => methodCall p a b c
  | call _ a b => call p a b
  | structLit _ a b c => structLit p a b c
  | tuple _ a => tuple p a
  | array _ a => array p a
  | arrayRepeat _ a b => arrayRepeat p a b
  | paren _ a => paren p a
  | macroCall _ a b c => macroCall p a b c
  | block _ a b => block p a b
  | unsafeBlock _ a => unsafeBlock p a
  | branch _ a b => branch p a b
  | matchOn _ a b => matchOn p a b
  | whileLoop _ a b c => whileLoop p a b c
  | loop _ a b => loop p a b
  | forLoop _ a b c d => forLoop p a b c d
  | ret _ a => ret p a
  | leave _ a b => leave p a b
  | next _ a => next p a
  | other _ a b => other p a b
  | verbatim _ a => verbatim p a

/-- The expression behind attributes that start at a place.  An expression that is
only read as tokens has none. -/
def withAttributes (p : Position) : Expr → Expr
  | verbatim q braced => verbatim q braced
  | e => e.withPos p

/-- The statement behind attributes that start at a place: they belong to the
operand that it begins with, if that is the left side of an operator, assignment
or cast. -/
def startAt (p : Position) : Expr → Expr
  | binary _ op l r =>
    let l := startAt p l
    binary l.pos op l r
  | compound _ op l r =>
    let l := startAt p l
    compound l.pos op l r
  | assign _ l r =>
    let l := startAt p l
    assign l.pos l r
  | cast _ e t =>
    let e := startAt p e
    cast e.pos e t
  | e => e.withAttributes p

/-- The length an array has if it is given by this expression: an integer
literal below `2 ^ 64`, parentheses aside. -/
def literalLength : Expr → Option Nat
  | literal _ lit => lit.natBelow? Lit.lengthBound
  | paren _ e => literalLength e
  | _ => none

/-- Whether an expression branches, loops or jumps, and so is lowered to nodes
of its own.  A labelled block does not count. -/
def isControlFlow : Expr → Bool
  | branch .. | matchOn .. | loop .. | whileLoop .. | forLoop .. | ret .. | leave .. | next ..
  | unsafeBlock .. => true
  | block _ label _ => label.isNone
  | _ => false

end Expr

namespace Block

/-- The place of the opening brace. -/
def pos : Block → Position
  | mk p _ => p

/-- The statements in order. -/
def stmts : Block → List Stmt
  | mk _ s => s

end Block

end Ast
end RustFlow
