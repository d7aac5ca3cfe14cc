/-
# Statements

A statement is what a graph node does: evaluate a term, nothing, or leave the
function.  A `return` as written is a kind of its own until the exits of the
graph are closed.
-/

import RustFlow.Term.Render

namespace RustFlow

/-- What a node does. -/
inductive StatementKind where
  /-- Evaluates a term, for its effect or as a branch guard. -/
  | expression (term : Term)
  | noOp
  /-- Leaves a function that returns nothing. -/
  | ret
  /-- Leaves a function with a value. -/
  | returnValue (term : Term)
  /-- A `return` as written in the source. -/
  | writtenReturn (term : Option Term)

/-- A node's statement and its place. -/
structure Statement where
  kind : StatementKind
  pos : Position

namespace Statement

instance : Inhabited Statement := ⟨⟨.noOp, .start⟩⟩

/-- The statement that evaluates a term, placed where the term is. -/
def ofTerm (t : Term) : Statement := ⟨.expression t, t.pos⟩

/-- A statement without effect. -/
def noOp (pos : Position) : Statement := ⟨.noOp, pos⟩

def isNoOp (s : Statement) : Bool :=
  match s.kind with
  | .noOp => true
  | _ => false

def isWrittenReturn (s : Statement) : Bool :=
  match s.kind with
  | .writtenReturn _ => true
  | _ => false

/-- The term a statement evaluates. -/
def term? (s : Statement) : Option Term :=
  match s.kind with
  | .expression t => some t
  | .returnValue t => some t
  | .writtenReturn t => t
  | .noOp => none
  | .ret => none

/-- The type of the term, or unit without one. -/
def type (s : Statement) : TypeId :=
  match s.term? with
  | some t => t.type
  | none => .unit

/-- The text of a statement. -/
def render (s : Statement) : String :=
  match s.kind with
  | .expression t => t.render
  | .noOp => "no-op"
  | .ret => "ret"
  | .returnValue t => "return " ++ t.render
  | .writtenReturn (some t) => "return " ++ t.render
  | .writtenReturn none => "return"

end Statement

end RustFlow
