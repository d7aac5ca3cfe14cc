/-
# Contraction of pass-through nodes

Specification, section 3 (*CFG Builder*), Post-lowering normalization, step 6.

A node with one edge in and one edge out, neither of them a self-loop, can be
spliced out: its predecessor is joined to its successor by an edge of the
incoming kind.  `simplify` splices out no-op nodes other than entries until none
is left that can be.
-/

import RustFlow.Graph

namespace RustFlow
namespace Graph

/-- Splices out a node; `none` if it is not a pass-through node. -/
def splice? (g : Graph) (n : NodeId) : Option Graph :=
  match g.incoming n, g.outgoing n with
  | [i], [o] =>
    if i.source == n || o.target == n then none
    else some ((g.removeNode n).addEdge i.source o.target i.kind)
  | _, _ => none

/-- Splices out each of a list of nodes that is no entry and can be; the flag says
whether any was. -/
def spliceEach : List NodeId → Graph → Bool × Graph
  | [], g => (false, g)
  | n :: ns, g =>
    if g.isEntry n then spliceEach ns g
    else
      match g.splice? n with
      | some g' => (true, (spliceEach ns g').2)
      | none => spliceEach ns g

/-- At most a given number of rounds over the no-op nodes, until a round changes
nothing. -/
def simplifyWithin : Nat → Graph → Graph
  | 0, g => g
  | k + 1, g =>
    match spliceEach (g.findNodes Statement.isNoOp) g with
    | (true, g') => simplifyWithin k g'
    | (false, g') => g'

/-- Splices out pass-through no-op nodes until none is left.  Each round but the
last removes a node, which bounds their number. -/
def simplify (g : Graph) : Graph := simplifyWithin (g.nodeCount + 1) g

end Graph
end RustFlow
