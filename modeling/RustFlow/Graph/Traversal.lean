/-
# Depth-first traversal

A traversal keeps a stack of nodes.  The node on top is looked at: if it was not
discovered it is marked, and its undiscovered successors are pushed, the newest
edge first; otherwise it is popped and, the first time, listed.  Each node is
listed after the nodes found below it, which gives the postorder of the nodes
reachable from one entry.

With several entries each one starts afresh, the last entry first, and a node is
listed once.
-/

import RustFlow.Graph

namespace RustFlow
namespace Graph

/-- The marks of a traversal. -/
structure Walk where
  stack : List NodeId
  discovered : List NodeId
  /-- The listed nodes, the latest first. -/
  finished : List NodeId

namespace Walk

/-- One look at the top of the stack. -/
def step (g : Graph) (w : Walk) : Walk :=
  match w.stack with
  | [] => w
  | n :: rest =>
    if w.discovered.contains n then
      { w with
        stack := rest
        finished := if w.finished.contains n then w.finished else n :: w.finished }
    else
      let discovered := n :: w.discovered
      let fresh := ((g.outgoing n).map Edge.target).filter fun m => !discovered.contains m
      { w with stack := fresh.reverse ++ w.stack, discovered }

/-- A number of steps, or fewer if the stack runs empty. -/
def run (g : Graph) : Nat → Walk → Walk
  | 0, w => w
  | k + 1, w => if w.stack.isEmpty then w else run g k (step g w)

end Walk

/-- The steps that any traversal ends within: each node is discovered once, and
each edge and the entry is pushed and popped at most once. -/
def walkBound (g : Graph) : Nat := g.slots.length + g.edges.length + 2

/-- The nodes reachable from one entry, in postorder. -/
def postorderFrom (g : Graph) (entry : NodeId) : List NodeId :=
  (Walk.run g g.walkBound ⟨[entry], [], []⟩).finished.reverse

/-- The nodes reachable from the entries, in postorder. -/
def postorder (g : Graph) : List NodeId :=
  g.entries.reverse.foldl
    (fun order entry =>
      if order.contains entry then order
      else order ++ (g.postorderFrom entry).filter fun n => !order.contains n)
    []

/-- The nodes reachable from the entries, each before the nodes found below it. -/
def reversePostorder (g : Graph) : List NodeId := g.postorder.reverse

/-- Removes the nodes that no entry reaches, except those in `keep`. -/
def removeUnreachable (g : Graph) (keep : List NodeId) : Graph :=
  let reachable := g.postorder
  let dead := g.nodes.filter fun n => !reachable.contains n && !keep.contains n
  dead.foldl removeNode g

/-- One line per reachable node: its number, its text and its outgoing edges.
Entries are marked by `>`. -/
def renderNode (g : Graph) (n : NodeId) : String :=
  (if g.isEntry n then ">" else " ") ++ " n" ++ toString n ++ ": " ++
    ((g.node? n).map Statement.render).getD "" ++
    String.join ((g.outgoing n).map fun e => " -" ++ e.kind.name ++ "-> n" ++ toString e.target) ++
    "\n"

/-- The reachable nodes as lines of text. -/
def render (g : Graph) : String := String.join (g.reversePostorder.map g.renderNode)

end Graph
end RustFlow
