/-
# Graphs of statements

Specification, section 3 (*CFG Builder*), Types: the graph of a `Cfg`, with stable
node ids and edge retargeting.

A graph keeps its nodes in slots.  The index of a slot is the node's identity: it
stays when other nodes are removed, and a new node takes the slot that was
vacated last, or else a fresh one at the end.

Edges are kept in one list, the newest first, so the edges into and out of a node
are read off newest first.  Parallel edges and self-loops are allowed.
-/

import RustFlow.Statement

namespace RustFlow

/-- The index of a node in a graph. -/
abbrev NodeId := Nat

/-- The condition under which an edge is taken. -/
inductive EdgeKind where
  | sequential
  | whenTrue
  | whenFalse
deriving DecidableEq, Repr

namespace EdgeKind

/-- The name of an edge kind. -/
def name : EdgeKind → String
  | sequential => "seq"
  | whenTrue => "true"
  | whenFalse => "false"

/-- The edge kind of a name. -/
def ofName? : String → Option EdgeKind
  | "seq" => some sequential
  | "true" => some whenTrue
  | "false" => some whenFalse
  | _ => none

end EdgeKind

/-- An edge. -/
structure Edge where
  source : NodeId
  target : NodeId
  kind : EdgeKind
deriving DecidableEq, Repr

/-- A graph of statements with its entry nodes. -/
structure Graph where
  /-- The nodes by index; a removed node leaves its slot empty. -/
  slots : List (Option Statement)
  /-- The empty slots, the last vacated first. -/
  vacant : List NodeId
  /-- The edges, the newest first. -/
  edges : List Edge
  entries : List NodeId
  /-- The edges that were asked for without both their ends.  Such a request is a fault,
  and no operation takes it from the record. -/
  faults : List Edge := []

namespace Graph

/-- The graph without nodes. -/
def empty : Graph := ⟨[], [], [], [], []⟩

instance : Inhabited Graph := ⟨empty⟩

/-- The statement of a node. -/
def node? (g : Graph) (n : NodeId) : Option Statement := g.slots[n]?.join

/-- Whether a node is in the graph. -/
def contains (g : Graph) (n : NodeId) : Bool := (g.node? n).isSome

/-- The nodes in ascending order. -/
def nodes (g : Graph) : List NodeId := (List.range g.slots.length).filter g.contains

def nodeCount (g : Graph) : Nat := g.nodes.length

def edgeCount (g : Graph) : Nat := g.edges.length

/-- Adds a node, in the slot vacated last or at the end. -/
def addNode (g : Graph) (s : Statement) : NodeId × Graph :=
  match g.vacant with
  | [] => (g.slots.length, { g with slots := g.slots ++ [some s] })
  | n :: rest => (n, { g with slots := g.slots.set n (some s), vacant := rest })

/-- Adds an edge.  Both its ends have to be nodes; it is a fault if one is missing. -/
def addEdge (g : Graph) (source target : NodeId) (kind : EdgeKind) : Graph :=
  let e : Edge := ⟨source, target, kind⟩
  { g with
    edges := e :: g.edges
    faults := if g.contains source && g.contains target then g.faults else e :: g.faults }

/-- Makes a node an entry, unless it is one. -/
def addEntry (g : Graph) (n : NodeId) : Graph :=
  if g.entries.contains n then g else { g with entries := g.entries ++ [n] }

def isEntry (g : Graph) (n : NodeId) : Bool := g.entries.contains n

/-- Gives a node another statement kind; its place stays. -/
def setKind (g : Graph) (n : NodeId) (kind : StatementKind) : Graph :=
  match g.node? n with
  | some s => { g with slots := g.slots.set n (some { s with kind }) }
  | none => g

/-- The edges out of a node, the newest first. -/
def outgoing (g : Graph) (n : NodeId) : List Edge := g.edges.filter fun e => e.source == n

/-- The edges into a node, the newest first. -/
def incoming (g : Graph) (n : NodeId) : List Edge := g.edges.filter fun e => e.target == n

/-- The newest edge from one node to another. -/
def edgeBetween? (g : Graph) (source target : NodeId) : Option Edge :=
  g.edges.find? fun e => e.source == source && e.target == target

/-- The nodes without an outgoing edge, in ascending order. -/
def exits (g : Graph) : List NodeId := g.nodes.filter fun n => (g.outgoing n).isEmpty

/-- The nodes whose statement has a property, in ascending order. -/
def findNodes (g : Graph) (p : Statement → Bool) : List NodeId :=
  g.nodes.filter fun n => (g.node? n).any p

/-- The first node with a given text. -/
def findByText (g : Graph) (text : String) : Option NodeId :=
  (g.findNodes fun s => s.render == text).head?

/-- Removes a node with its edges. -/
def removeNode (g : Graph) (n : NodeId) : Graph :=
  if g.contains n then
    { g with
      slots := g.slots.set n none
      vacant := n :: g.vacant
      edges := g.edges.filter fun e => e.source != n && e.target != n }
  else g

/-- Removes the edges out of a node. -/
def clearOutgoing (g : Graph) (n : NodeId) : Graph :=
  { g with edges := g.edges.filter fun e => e.source != n }

/-- Puts one entry in place of another; an entry that is already there is not
listed twice. -/
def replaceEntry (g : Graph) (old new : NodeId) : Graph :=
  if g.entries.contains old then
    if g.entries.contains new then { g with entries := g.entries.erase old }
    else { g with entries := g.entries.replace old new }
  else g

/-- Removes a node and sends the edges that entered it to another node, each with
its kind.  The edges out of the node are dropped. -/
def redirect (g : Graph) (n target : NodeId) : Graph :=
  let moved := (g.incoming n).filter fun e => e.source != n
  (moved.foldl (fun g e => g.addEdge e.source target e.kind) (g.removeNode n)).replaceEntry n target

end Graph

end RustFlow
