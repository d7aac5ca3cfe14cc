/-
# What syntax does to names

The *scoping* of a pattern, expression or block says what it does to names, in the
order in which it is lowered: it mentions names, binds names, and opens scopes that
end again.

| syntax | its scope |
| --- | --- |
| block | the statements |
| clause of an `if` chain | the condition and the block |
| arm of a `match` | the pattern, the guard and the value |
| `while` | the condition and the block |
| `for` | the iterable, the pattern and the block |

A name is *stale* where a scope that bound it has ended and no later binding stands
for it.  `Scoping.stale` follows the stale names through a piece of syntax and fails
where one of them is mentioned.
-/

import RustFlow.Ast.Expr

namespace RustFlow

/-- What a piece of syntax does to names, in order. -/
inductive Scoping where
  | nothing
  | mention (name : String)
  | bind (names : List String)
  | seq (first second : Scoping)
  /-- What is bound inside ends here. -/
  | scope (inner : Scoping)
deriving DecidableEq, Repr

namespace Scoping

/-- The names that are bound, in inner scopes too. -/
def bound : Scoping → List String
  | nothing | mention _ => []
  | bind names => names
  | seq a b => a.bound ++ b.bound
  | scope a => a.bound

/-- The names that are bound or mentioned. -/
def words : Scoping → List String
  | nothing => []
  | mention name => [name]
  | bind names => names
  | seq a b => a.words ++ b.words
  | scope a => a.words

/-- The stale names afterwards, given those before; none if one is mentioned. -/
def stale (before : List String) : Scoping → Option (List String)
  | nothing => some before
  | mention name => if name ∈ before then none else some before
  | bind names => some (before.filter (· ∉ names))
  | seq a b => (a.stale before).bind fun between => b.stale between
  | scope a => (a.stale before).map fun _ => before ++ a.bound

theorem mem_words_of_mem_bound {k : Scoping} {name : String} (h : name ∈ k.bound) :
    name ∈ k.words := by
  induction k with
  | nothing => exact h
  | mention => cases h
  | bind => exact h
  | seq a b iha ihb =>
    rcases List.mem_append.1 h with h | h
    · exact List.mem_append_left _ (iha h)
    · exact List.mem_append_right _ (ihb h)
  | scope a ih => exact ih h

end Scoping

namespace Ast

/-- A path of one name mentions it. -/
def Path.scoping (p : Path) : Scoping :=
  match p.ident? with
  | some name => .mention name
  | none => .nothing

def Bound.scoping : Option Bound → Scoping
  | some (.path p) => p.scoping
  | _ => .nothing

namespace Pat

mutual

/-- The names a pattern binds, left to right. -/
def names : Pat → List String
  | binding _ name _ => [name]
  | reference _ _ p => names p
  | struct _ _ fields _ => namesOfFields fields
  | tupleStruct _ _ ps => namesOfAll ps
  | tuple _ ps => namesOfAll ps
  | alternatives _ ps => namesOfAll ps
  | paren _ p => names p
  | path _ _ | literal _ _ | range _ _ _ _ | rest _ | wild _ | other _ _ => []

def namesOfAll : List Pat → List String
  | [] => []
  | p :: ps => names p ++ namesOfAll ps

def namesOfFields : List FieldPat → List String
  | [] => []
  | .mk _ p :: fields => names p ++ namesOfFields fields

end

mutual

/-- A pattern mentions the names at the ends of its ranges; it is read before it
binds. -/
def scoping : Pat → Scoping
  | reference _ _ p => scoping p
  | struct _ _ fields _ => scopingOfFields fields
  | tupleStruct _ _ ps => scopingOfAll ps
  | tuple _ ps => scopingOfAll ps
  | range _ start stop _ => .seq (Bound.scoping start) (Bound.scoping stop)
  | alternatives _ ps => scopingOfAll ps
  | paren _ p => scoping p
  | binding _ _ _ | path _ _ | literal _ _ | rest _ | wild _ | other _ _ => .nothing

def scopingOfAll : List Pat → Scoping
  | [] => .nothing
  | p :: ps => .seq (scoping p) (scopingOfAll ps)

def scopingOfFields : List FieldPat → Scoping
  | [] => .nothing
  | .mk _ p :: fields => .seq (scoping p) (scopingOfFields fields)

end

end Pat

mutual

/-- The scoping of an expression.  Forms that are refused have none. -/
def Expr.scoping : Expr → Scoping
  | .path _ p => p.scoping
  | .binary _ _ l r | .compound _ _ l r | .assign _ l r => .seq l.scoping r.scoping
  | .unary _ _ e | .borrow _ _ e | .cast _ e _ => e.scoping
  | .range _ start stop _ => .seq (Expr.scopingOfOption start) (Expr.scopingOfOption stop)
  | .test _ p e => .seq e.scoping (.seq p.scoping (.bind p.names))
  | .index _ b i => .seq b.scoping i.scoping
  | .tupleField _ b _ | .field _ b _ => b.scoping
  | .methodCall _ receiver _ args => .seq receiver.scoping (Expr.scopingOfAll args)
  | .call _ _ args => Expr.scopingOfAll args
  | .structLit _ _ fields _ => FieldInit.scopingOfAll fields
  | .tuple _ es | .array _ es => Expr.scopingOfAll es
  | .arrayRepeat _ e _ | .paren _ e => e.scoping
  | .block _ _ body | .unsafeBlock _ body | .loop _ _ body => body.scoping
  | .branch _ clauses otherwise =>
    .seq (Clause.scopingOfAll clauses) (Block.scopingOfOption otherwise)
  | .matchOn _ scrutinee arms => .seq scrutinee.scoping (Arm.scopingOfAll arms)
  | .whileLoop _ _ condition body => .scope (.seq condition.scoping body.scoping)
  | .forLoop _ _ pat iterable body =>
    .scope (.seq iterable.scoping (.seq pat.scoping (.seq (.bind pat.names) body.scoping)))
  | .ret _ value => Expr.scopingOfOption value
  | .literal _ _ | .macroCall _ _ _ _ | .leave _ _ _ | .next _ _ | .other _ _ _ | .verbatim _ _ =>
    .nothing

def Expr.scopingOfOption : Option Expr → Scoping
  | none => .nothing
  | some e => e.scoping

def Expr.scopingOfAll : List Expr → Scoping
  | [] => .nothing
  | e :: es => .seq e.scoping (Expr.scopingOfAll es)

def FieldInit.scopingOfAll : List FieldInit → Scoping
  | [] => .nothing
  | .mk _ e :: fields => .seq e.scoping (FieldInit.scopingOfAll fields)

def Clause.scopingOfAll : List Clause → Scoping
  | [] => .nothing
  | .mk condition body :: rest =>
    .seq (.scope (.seq condition.scoping body.scoping)) (Clause.scopingOfAll rest)

def Arm.scopingOfAll : List Arm → Scoping
  | [] => .nothing
  | .mk pat guard body :: rest =>
    let test := .seq pat.scoping (.seq (.bind pat.names) (Expr.scopingOfOption guard))
    .seq (.scope (.seq test body.scoping)) (Arm.scopingOfAll rest)

def Block.scopingOfOption : Option Block → Scoping
  | none => .nothing
  | some body => body.scoping

def Block.scoping : Block → Scoping
  | .mk _ stmts => .scope (Stmt.scopingOfAll stmts)

def Stmt.scopingOfAll : List Stmt → Scoping
  | [] => .nothing
  | s :: rest => .seq s.scoping (Stmt.scopingOfAll rest)

/-- The scoping of a statement.  The value of a `let` does not see its variables. -/
def Stmt.scoping : Stmt → Scoping
  | .bind _ pat _ init _ =>
    .seq pat.scoping (.seq (Expr.scopingOfOption init) (.bind pat.names))
  | .expr e _ => e.scoping
  | .useDecl | .item _ => .nothing

end

/-- Whether no name is mentioned where a scope that bound it has ended and no later
binding stands for it. -/
def Block.keepsScopes (body : Block) : Bool := (body.scoping.stale []).isSome

end Ast

end RustFlow
