/-
# Fragments

Specification, section 3 (*CFG Builder*), Lowering rules, construct by construct.

A construct is lowered to a *fragment* of the graph: the node that control enters
it by and, if control can fall out of it, the node it leaves by.

The combinators here build the fragment of a compound construct from actions that
lower its parts.  They only add nodes and edges, and every edge joins two nodes of
the construct itself.

| construct | nodes of its own, in order | leaves by |
| --- | --- | --- |
| `if` chain | convergence, then one guard per clause | convergence |
| `match` | convergence, then one guard per arm | convergence, if it is reached |
| `while` | guard, convergence | convergence |
| `loop` | convergence after the body, if there is a `break` | convergence, or as its body |
| `for` | iterator, first step, guard, convergence, later step | convergence |
| `break`, `continue` | a hop | never |
-/

import RustFlow.Cfg
import RustFlow.Lowering.Expr

namespace RustFlow

/-- The entry of a lowered construct and its exit, if control falls out of it. -/
structure Fragment where
  entry : NodeId
  exit : Option NodeId
deriving DecidableEq, Repr

/-- Where the value of a tail expression goes. -/
inductive Sink where
  | discard
  | returned
  | assigned (target : Term)

namespace Sink

def isDiscard : Sink → Bool
  | discard => true
  | _ => false

def isReturned : Sink → Bool
  | returned => true
  | _ => false

def isAssigned : Sink → Bool
  | assigned _ => true
  | _ => false

end Sink

/-- A loop whose body is being lowered, with the hops that wait for its targets. -/
structure LoopFrame where
  label : Option String
  breaks : List NodeId
  continues : List NodeId
deriving DecidableEq, Repr

namespace LoopFrame

/-- The frame of a loop without jumps. -/
def ofLabel (label : Option String) : LoopFrame := ⟨label, [], []⟩

/-- Adds a hop. -/
def addHop (f : LoopFrame) (jump : Jump) (hop : NodeId) : LoopFrame :=
  match jump with
  | .leave => { f with breaks := f.breaks ++ [hop] }
  | .next => { f with continues := f.continues ++ [hop] }

end LoopFrame

/-- The state of lowering a body. -/
structure Body where
  context : Context
  graph : Graph
  /-- The loops around the current statement, the innermost first. -/
  loops : List LoopFrame
  /-- The number of iterators named so far. -/
  fresh : Nat

/-- What stays the same while a body is lowered. -/
structure Setting where
  scope : Scope
  /-- What the names of the iterators behind `for` loops start with. -/
  freshStem : String
  /-- Whether the function has no result. -/
  returnsUnit : Bool

namespace Body

/-- The state before the first statement. -/
def start (context : Context) : Body := ⟨context, .empty, [], 0⟩

/-- Runs a computation on the context. -/
def onContext {α : Type} (m : Attempt Context α) : Attempt Body α :=
  m.zoom context fun c b => { b with context := c }

/-- Adds a node. -/
def add (s : Statement) : Attempt Body NodeId :=
  modifyGet fun b =>
    let (n, g) := b.graph.addNode s
    (n, { b with graph := g })

/-- Adds an edge. -/
def edge (source target : NodeId) (kind : EdgeKind) : Attempt Body Unit :=
  modify fun b => { b with graph := b.graph.addEdge source target kind }

/-- Adds an edge from an exit, if there is one. -/
def connect (exit : Option NodeId) (target : NodeId) : Attempt Body Unit :=
  match exit with
  | some n => edge n target .sequential
  | none => return

/-- A construct of one node. -/
def single (s : Statement) : Attempt Body Fragment := do
  let n ← add s
  return ⟨n, some n⟩

/-- Puts one fragment after another.  Once control has left, what follows stays
unconnected. -/
def chain (previous : Option Fragment) (next : Fragment) : Attempt Body Fragment :=
  match previous with
  | none => return next
  | some p =>
    match p.exit with
    | some n => do
      edge n next.entry .sequential
      return ⟨p.entry, next.exit⟩
    | none => return p

/-- Sends the value of a term to a sink. -/
def sendTo (sink : Sink) (t : Term) : Attempt Body Fragment :=
  match sink with
  | .discard => single (.ofTerm t)
  | .returned => do
    let n ← add ⟨.returnValue t, t.pos⟩
    return ⟨n, none⟩
  | .assigned target => single (.ofTerm (.mk (.assign target t) .unit t.pos))

/-- The node of a `let` without a value. -/
def declare (p : Pattern) (ascription : Option String) (type : TypeId) (pos : Position) :
    Attempt Body Fragment :=
  single (.ofTerm (.mk (.declare p ascription none) type pos))

/-! ### Branches -/

/-- One guarded branch: the guard takes the false edge of the guard before it, and
its true edge leads into the body, whose exit goes to the convergence. -/
def guarded (convergence : NodeId) (pending : Option NodeId) (condition : Term)
    (body : Attempt Body Fragment) : Attempt Body NodeId := do
  let guard ← add (.ofTerm condition)
  match pending with
  | some previous => edge previous guard .whenFalse
  | none => pure ()
  let taken ← body
  edge guard taken.entry .whenTrue
  connect taken.exit convergence
  return guard

/-- The first and the last of a chain of guards. -/
structure Guards where
  first : NodeId
  last : NodeId

/-- An `if` chain, given how to lower its guarded branches towards the convergence
and its last block. -/
def ifChain (pos : Position) (clauses : NodeId → Attempt Body (Option Guards))
    (otherwise : Option (Attempt Body Fragment)) : Attempt Body Fragment := do
  let convergence ← add (.noOp pos)
  match ← clauses convergence with
  | none => return ⟨convergence, some convergence⟩
  | some guards =>
    match otherwise with
    | some body =>
      let taken ← body
      edge guards.last taken.entry .whenFalse
      connect taken.exit convergence
    | none => edge guards.last convergence .whenFalse
    return ⟨guards.first, some convergence⟩

/-- A `match`, given how to lower its arms towards the convergence; with the guards
comes whether the last arm takes every value.  Where the value is returned, the
last arm cannot fail either. -/
def matchChain (pos : Position) (sink : Sink)
    (arms : NodeId → Attempt Body (Option (Guards × Bool))) : Attempt Body Fragment := do
  let convergence ← add (.noOp pos)
  match ← arms convergence with
  | none => return ⟨convergence, some convergence⟩
  | some (guards, exhaustive) =>
    if !exhaustive && !sink.isReturned then edge guards.last convergence .whenFalse
    let reached := !((← get).graph.incoming convergence).isEmpty
    return ⟨guards.first, if reached then some convergence else none⟩

/-! ### Loops -/

/-- Lowers the body of a loop with its jumps pending.  The frame is taken off again
whether or not the body can be lowered. -/
def inLoop (label : Option String) (body : Attempt Body Fragment) :
    Attempt Body (Fragment × LoopFrame) :=
  fun b =>
    let (out, after) := body { b with loops := .ofLabel label :: b.loops }
    let frame := after.loops.head?.getD (.ofLabel none)
    (out.map fun fragment => (fragment, frame), { after with loops := after.loops.tail })

/-- Leads the pending hops of a loop to their targets. -/
def resolveJumps (frame : LoopFrame) (leaveTarget nextTarget : NodeId) : Attempt Body Unit := do
  frame.breaks.forM fun hop => edge hop leaveTarget .sequential
  frame.continues.forM fun hop => edge hop nextTarget .sequential

/-- A `while` loop. -/
def whileLoop (pos : Position) (label : Option String) (condition : Term)
    (body : Attempt Body Fragment) : Attempt Body Fragment := do
  let guard ← add (.ofTerm condition)
  let convergence ← add (.noOp pos)
  let (inner, frame) ← inLoop label body
  edge guard inner.entry .whenTrue
  connect inner.exit guard
  edge guard convergence .whenFalse
  resolveJumps frame convergence guard
  return ⟨guard, some convergence⟩

/-- An unconditional loop.  Without a `break` the exit of the body is the exit of
the loop. -/
def plainLoop (pos : Position) (label : Option String) (body : Attempt Body Fragment) :
    Attempt Body Fragment := do
  let (inner, frame) ← inLoop label body
  connect inner.exit inner.entry
  if frame.breaks.isEmpty then
    resolveJumps frame inner.entry inner.entry
    return inner
  else
    let convergence ← add (.noOp pos)
    resolveJumps frame convergence inner.entry
    return ⟨inner.entry, some convergence⟩

/-- The term `let pat = iterator.next()`. -/
def nextStep (c : Context) (iterator : String) (p : Pattern) (pos : Position) : Term :=
  let receiver := Term.mk (.var (c.mention iterator)) (c.localType iterator) pos
  let call := Term.mk (.call "next" none true [receiver]) .unknown pos
  .mk (.declare p none (some call)) .unknown pos

/-- The name of the next iterator. -/
def freshName (set : Setting) : Attempt Body String :=
  modifyGet fun b => (set.freshStem ++ toString b.fresh, { b with fresh := b.fresh + 1 })

/-- A `for` loop: an iterator over the iterable is stepped before the first guard
and after each turn, and the guard tests whether a step gave a value. -/
def forLoop (set : Setting) (pos : Position) (label : Option String) (pat : Ast.Pat)
    (iterable : Ast.Expr) (body : Attempt Body Fragment) : Attempt Body Fragment := do
  let iterator ← freshName set
  let source ← onContext (set.scope.lowerExpr iterable)
  let v : Variable := ⟨iterator, true⟩
  let init ← add (.ofTerm (.mk (.declare (.binding v) none (some source)) source.type pos))
  onContext (modify fun c => c.bind v source.type)
  let p ← onContext (set.scope.lowerPat pat)
  onContext (modify fun c => c.bindPattern p .unknown)
  let first ← add (.ofTerm (nextStep (← get).context iterator p pat.pos))
  edge init first .sequential
  let exhausted := Term.mk .exhausted .unknown pat.pos
  let guard ← add (.ofTerm (.binary .ne (.ofPattern p pat.pos) exhausted pat.pos))
  edge first guard .sequential
  let convergence ← add (.noOp pos)
  let (inner, frame) ← inLoop label body
  let step ← add (.ofTerm (nextStep (← get).context iterator p pat.pos))
  edge guard inner.entry .whenTrue
  edge guard convergence .whenFalse
  connect inner.exit step
  edge step guard .sequential
  resolveJumps frame convergence step
  return ⟨init, some convergence⟩

/-- The loop that a jump refers to: the innermost one, or the innermost one with
the given label. -/
def targetLoop (loops : List LoopFrame) (label : Option String) : Option Nat :=
  match label with
  | none => if loops.isEmpty then none else some 0
  | some name => loops.findIdx? fun f => f.label == some name

/-- A jump: a hop that waits for the target of its loop. -/
def jump (scope : Scope) (kind : Jump) (label : Option String) (pos : Position) :
    Attempt Body Fragment := do
  match targetLoop (← get).loops label with
  | none => throw (.strayJump kind (scope.locate pos))
  | some i =>
    let hop ← add (.noOp pos)
    modify fun b => { b with loops := b.loops.modify i fun f => f.addHop kind hop }
    return ⟨hop, none⟩

end Body

end RustFlow
