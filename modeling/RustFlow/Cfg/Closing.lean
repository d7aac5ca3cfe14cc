/-
# Closing the exits of a graph

Specification, section 3 (*CFG Builder*), Post-lowering normalization: steps 1 to 5
and 7, around the simplification of step 6.

Lowering leaves `return` nodes as written and lets control run out at the end of
the body.  Closing gives every function the same kind of exits.

* A function without a result ends in one `ret` node.  A bare `return` is
  replaced by an edge to it, and one with a value still evaluates the value
  first.
* A function with a result ends in `return` nodes with values.  An expression
  that nothing follows, such as a call that never comes back, counts as the
  value; running out of statements or a bare `return` is an error.

Nodes that no entry reaches are dropped.  A function with a result never has a
graph of a single node: a no-op entry is put before it.
-/

import RustFlow.Cfg
import RustFlow.Config
import RustFlow.Error
import RustFlow.Graph.Contraction

namespace RustFlow
namespace Cfg

/-- Sends one written `return` of a function without a result to its `ret` node. -/
def closeUnitReturn (ret : NodeId) (g : Graph) (n : NodeId) : Graph :=
  match (g.node? n).map Statement.kind with
  | some (.writtenReturn (some value)) =>
    ((g.setKind n (.expression value)).clearOutgoing n).addEdge n ret .sequential
  | some (.writtenReturn none) => g.redirect n ret
  | _ => g

/-- Joins an exit to the `ret` node. -/
def joinExit (ret : NodeId) (g : Graph) (n : NodeId) : Graph :=
  if n == ret then g else g.addEdge n ret .sequential

/-- Closes the graph of a function without a result. -/
def closeUnit (pos : Position) (g : Graph) : Graph :=
  let (ret, g) := g.addNode ⟨.ret, pos⟩
  let g := (g.findNodes Statement.isWrittenReturn).foldl (closeUnitReturn ret) g
  let g := g.removeUnreachable [ret]
  g.exits.foldl (joinExit ret) g

/-- The error of a path that ends in a node without a value.  The place is that of the
node; all nodes of a graph are in the file of its function. -/
def missingValue (sig : Signature) (g : Graph) (n : NodeId) : Error :=
  let pos := ((g.node? n).map Statement.pos).getD sig.location.position
  .missingReturnValue sig.name ⟨sig.location.file, pos⟩

/-- Turns one written `return` of a function with a result into its final form. -/
def closeValueReturn (sig : Signature) (g : Graph) (n : NodeId) : Except Error Graph :=
  match (g.node? n).map Statement.kind with
  | some (.writtenReturn (some value)) => .ok ((g.setKind n (.returnValue value)).clearOutgoing n)
  | some (.writtenReturn none) => .error (missingValue sig g n)
  | _ => .ok g

/-- Turns one exit of a function with a result into a `return` node. -/
def closeExit (sig : Signature) (g : Graph) (n : NodeId) : Except Error Graph :=
  match (g.node? n).map Statement.kind with
  | some (.expression value) => .ok (g.setKind n (.returnValue value))
  | some .noOp => .error (missingValue sig g n)
  | _ => .ok g

/-- Closes the graph of a function with a result. -/
def closeValue (sig : Signature) (g : Graph) : Except Error Graph := do
  let g ← (g.findNodes Statement.isWrittenReturn).foldlM (closeValueReturn sig) g
  let g := g.removeUnreachable []
  g.exits.foldlM (closeExit sig) g

/-- Closes the exits of a lowered graph. -/
def closeExits (sig : Signature) (g : Graph) : Except Error Graph :=
  if sig.returnsUnit then .ok (closeUnit sig.location.position g) else closeValue sig g

/-- Puts a no-op entry before the only node of a graph. -/
def guardSingle (sig : Signature) (g : Graph) : Graph :=
  match g.entries with
  | [] => g
  | only :: _ =>
    let pos := ((g.node? only).map Statement.pos).getD sig.location.position
    let (entry, g) := g.addNode (.noOp pos)
    { g.addEdge entry only .sequential with entries := [entry] }

/-- Puts a no-op entry before the graph of a function with a result if it is a
single node. -/
def finish (sig : Signature) (g : Graph) : Graph :=
  if !sig.returnsUnit && g.nodeCount == 1 then guardSingle sig g else g

/-- Closes the exits of a lowered graph and splices out pass-through nodes. -/
def close (config : Config) (sig : Signature) (g : Graph) : Except Error Graph := do
  let g ← closeExits sig g
  return finish sig (if config.simplify then g.simplify else g)

end Cfg
end RustFlow
