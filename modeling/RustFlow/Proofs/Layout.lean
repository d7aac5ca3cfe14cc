/-
# The layout of a lowered body

`Block.Drawn` says where the constructs of a body are in a graph: which fragment stands
for which construct, and how the nodes of a construct lead to those of its parts.  It is
read off the syntax, given where the jumps of each loop around go (`Targets`).  So it says
of every `break` and `continue` which node it leads to.

| loop | `break` leads to | `continue` leads to |
| --- | --- | --- |
| `while` | the convergence, its exit | the guard |
| `for` | the convergence, its exit | the later step |
| `loop` | the convergence, its exit | the entry of its body |

A layout has no place for a jump inside a term, and an expression that becomes a term has
none (`Expr.Becomes`).  `Block.jumps` lists all jumps of a body, wherever they are, each
with the loops around it.
-/

import RustFlow.Proofs.Behaviour

namespace RustFlow

/-! ### Jumps -/

/-- A `break` or `continue` and the labels of the loops around it, the innermost first. -/
structure JumpSite where
  kind : Jump
  label : Option String
  pos : Position
  loops : List (Option String)
deriving DecidableEq

/-- There is no loop around a jump, or none with its label. -/
def JumpSite.Stray (s : JumpSite) : Prop :=
  match s.label with
  | none => s.loops = []
  | some name => some name ∉ s.loops

/-- The loop that a `break` leaves, counted from the outermost, which is `0`. -/
def JumpSite.leaves? (s : JumpSite) : Option Nat :=
  match s.kind with
  | .leave => (targetDepth s.loops s.label).map fun i => s.loops.length - 1 - i
  | .next => none

namespace Ast

mutual

/-- The jumps of an expression, given the loops around it. -/
def Expr.jumps (loops : List (Option String)) : Expr → List JumpSite
  | .binary _ _ l r | .compound _ _ l r | .assign _ l r | .index _ l r =>
    l.jumps loops ++ r.jumps loops
  | .unary _ _ e | .borrow _ _ e | .cast _ e _ | .test _ _ e | .tupleField _ e _ | .field _ e _
  | .arrayRepeat _ e _ | .paren _ e => e.jumps loops
  | .range _ start stop _ => jumpsOption loops start ++ jumpsOption loops stop
  | .methodCall _ e _ es | .call _ e es => e.jumps loops ++ jumpsAll loops es
  | .structLit _ _ fields _ => jumpsInits loops fields
  | .tuple _ es | .array _ es | .other _ _ es => jumpsAll loops es
  | .block _ _ body | .unsafeBlock _ body => body.jumps loops
  -- no text has an `if` without a clause, and its last block would not be lowered
  | .branch _ clauses otherwise =>
    jumpsClauses loops clauses ++ if clauses.isEmpty then [] else jumpsOtherwise loops otherwise
  | .matchOn _ scrutinee arms => scrutinee.jumps loops ++ jumpsArms loops arms
  | .whileLoop _ label condition body => condition.jumps loops ++ body.jumps (label :: loops)
  | .loop _ label body => body.jumps (label :: loops)
  | .forLoop _ label _ iterable body => iterable.jumps loops ++ body.jumps (label :: loops)
  | .ret _ value => jumpsOption loops value
  | .leave pos label value => ⟨.leave, label, pos, loops⟩ :: jumpsOption loops value
  | .next pos label => [⟨.next, label, pos, loops⟩]
  | .literal .. | .path .. | .macroCall .. | .verbatim .. => []

def jumpsOption (loops : List (Option String)) : Option Expr → List JumpSite
  | none => []
  | some e => e.jumps loops

def jumpsAll (loops : List (Option String)) : List Expr → List JumpSite
  | [] => []
  | e :: es => e.jumps loops ++ jumpsAll loops es

def jumpsInits (loops : List (Option String)) : List FieldInit → List JumpSite
  | [] => []
  | .mk _ e :: fields => e.jumps loops ++ jumpsInits loops fields

def Block.jumps (loops : List (Option String)) : Block → List JumpSite
  | .mk _ stmts => jumpsStmts loops stmts

def jumpsStmts (loops : List (Option String)) : List Stmt → List JumpSite
  | [] => []
  | s :: rest => s.jumps loops ++ jumpsStmts loops rest

def Stmt.jumps (loops : List (Option String)) : Stmt → List JumpSite
  | .bind _ _ _ init _ => jumpsOption loops init
  | .expr e _ => e.jumps loops
  | .useDecl | .item _ => []

def jumpsClauses (loops : List (Option String)) : List Clause → List JumpSite
  | [] => []
  | .mk condition body :: rest =>
    condition.jumps loops ++ body.jumps loops ++ jumpsClauses loops rest

def jumpsOtherwise (loops : List (Option String)) : Option Block → List JumpSite
  | none => []
  | some body => body.jumps loops

def jumpsArms (loops : List (Option String)) : List Arm → List JumpSite
  | [] => []
  | .mk _ guard body :: rest => jumpsOption loops guard ++ body.jumps loops ++ jumpsArms loops rest

end

end Ast

/-! ### Places of control flow -/

/-- An expression that may be lowered to several nodes, the loops around it, and whether its
value is returned. -/
structure Place where
  expr : Ast.Expr
  loops : List (Option String)
  returned : Bool

namespace Ast

mutual

/-- The places of an expression; `unit` says that the function has no result. -/
def Expr.places (unit : Bool) (loops : List (Option String)) (returned : Bool) (e : Expr) :
    List Place :=
  ⟨e, loops, returned⟩ ::
    match e with
    | .branch _ clauses otherwise =>
      placesClauses unit loops returned clauses ++ placesOtherwise unit loops returned otherwise
    | .matchOn _ _ arms => placesArms unit loops returned arms
    | .whileLoop _ label _ body => body.places unit (label :: loops) false
    | .loop _ label body => body.places unit (label :: loops) false
    | .forLoop _ label _ _ body => body.places unit (label :: loops) false
    | .block _ _ body => body.places unit loops returned
    | .unsafeBlock _ body => body.places unit loops returned
    | .ret _ (some value) => value.places unit loops (!unit)
    | .assign _ _ value => value.places unit loops false
    | _ => []

def Block.places (unit : Bool) (loops : List (Option String)) (returned : Bool) :
    Block → List Place
  | .mk _ stmts => placesStmts unit loops returned stmts

def placesStmts (unit : Bool) (loops : List (Option String)) (returned : Bool) :
    List Stmt → List Place
  | [] => []
  | s :: rest =>
    s.places unit loops (rest.isEmpty && returned) ++ placesStmts unit loops returned rest

def Stmt.places (unit : Bool) (loops : List (Option String)) (returned : Bool) : Stmt → List Place
  | .bind _ _ _ (some e) _ => e.places unit loops false
  | .expr e semi => e.places unit loops (!semi && returned)
  | _ => []

def placesClauses (unit : Bool) (loops : List (Option String)) (returned : Bool) :
    List Clause → List Place
  | [] => []
  | .mk _ body :: rest => body.places unit loops returned ++ placesClauses unit loops returned rest

def placesOtherwise (unit : Bool) (loops : List (Option String)) (returned : Bool) :
    Option Block → List Place
  | none => []
  | some body => body.places unit loops returned

def placesArms (unit : Bool) (loops : List (Option String)) (returned : Bool) :
    List Arm → List Place
  | [] => []
  | .mk _ _ body :: rest => body.places unit loops returned ++ placesArms unit loops returned rest

end

end Ast

/-! ### Fragments in a graph -/

/-- Where the jumps of a loop go.  A loop that no `break` leaves need not have a node for
them to go to. -/
structure Targets where
  label : Option String
  leave : Option NodeId
  next : NodeId

/-- The target of a jump. -/
def Targets.of (ts : Targets) : Jump → Option NodeId
  | .leave => ts.leave
  | .next => some ts.next

/-- The loop that a jump refers to: the innermost one, or the innermost one with the given
label. -/
def Targets.find? (T : List Targets) : Option String → Option Targets
  | none => T.head?
  | some name => List.find? (fun ts => ts.label == some name) T

namespace Graph

/-- A fragment of one node. -/
def Single (g : Graph) (s : Statement) (f : Fragment) : Prop :=
  g.node? f.entry = some s ∧ f.exit = some f.entry

/-- The node by which the value of a term goes to a sink. -/
def Delivers (g : Graph) (sink : Sink) (t : Term) (f : Fragment) : Prop :=
  match sink with
  | .discard => g.Single (.ofTerm t) f
  | .returned => g.node? f.entry = some ⟨.returnValue t, t.pos⟩ ∧ f.exit = none
  | .assigned target => g.Single (.ofTerm (.mk (.assign target t) .unit t.pos)) f

/-- A hop to the target of a jump, with no other edge out of it. -/
def Routed (g : Graph) (T : List Targets) (kind : Jump) (label : Option String) (pos : Position)
    (f : Fragment) : Prop :=
  ∃ hop ts t, f = ⟨hop, none⟩ ∧ Targets.find? T label = some ts ∧ ts.of kind = some t ∧
    g.node? hop = some (.noOp pos) ∧ g.outgoing hop = [⟨hop, t, .sequential⟩]

/-- A fragment that is another one put after what came before. -/
def Joins (g : Graph) (previous : Option Fragment) (next f : Fragment) : Prop :=
  match previous with
  | none => f = next
  | some p =>
    match p.exit with
    | some x => f = ⟨p.entry, next.exit⟩ ∧ ⟨x, next.entry, .sequential⟩ ∈ g.edges
    | none => f = p

/-- Control that falls out of a fragment goes on at a node. -/
def LeadsTo (g : Graph) (f : Fragment) (n : NodeId) : Prop :=
  ∀ x, f.exit = some x → ⟨x, n, .sequential⟩ ∈ g.edges

/-- A guard with the fragment that it leads to if its test holds and the node that it leads
to if the test fails; the test may be one that cannot fail. -/
structure GuardAt (g : Graph) (n : NodeId) (t : Term) (taken : Fragment) (missed : Option NodeId) :
    Prop where
  node : g.node? n = some (.ofTerm t)
  taken : ⟨n, taken.entry, .whenTrue⟩ ∈ g.edges
  missed : ∀ m, missed = some m → ⟨n, m, .whenFalse⟩ ∈ g.edges

/-- The nodes of a `for` loop besides its guard, convergence and body: the iterator and its
two steps. -/
structure Stepped (g : Graph) (pos place : Position) (source : Term) (p : Pattern)
    (init first guard step : NodeId) : Prop where
  nodes : ∃ (iterator : String) (c c' : Context),
    g.node? init = some (.ofTerm (.mk (.declare (.binding ⟨iterator, true⟩) none (some source))
      source.type pos)) ∧
    g.node? first = some (.ofTerm (Body.nextStep c iterator p place)) ∧
    g.node? step = some (.ofTerm (Body.nextStep c' iterator p place))
  distinct : first ≠ step
  init : g.outgoing init = [⟨init, first, .sequential⟩]
  first : g.outgoing first = [⟨first, guard, .sequential⟩]
  step : g.outgoing step = [⟨step, guard, .sequential⟩]

end Graph

/-! ### Constructs in a graph -/

namespace Ast

/-- An expression without jumps that becomes a term. -/
def Expr.Becomes (s : Scope) (e : Expr) (t : Term) : Prop :=
  e.jumps [] = [] ∧ ∃ c c', s.lowerExpr e c = (.ok t, c')

/-- An arm, its guard without jumps, whose test is a term. -/
def Arm.TestedBy (set : Setting) (scrutinee : Term) (arm : Arm) (t : Term) : Prop :=
  match arm with
  | .mk pat guard _ => jumpsOption [] guard = [] ∧
      ∃ c exhaustive c', Body.armTest set scrutinee pat guard c = (.ok (t, exhaustive), c')

mutual

/-- Where an expression whose value goes to a sink is in a graph. -/
def Expr.Drawn (set : Setting) (g : Graph) (T : List Targets) (sink : Sink) :
    Expr → Fragment → Prop
  | .branch pos clauses otherwise, f => ∃ convergence,
    g.node? convergence = some (.noOp pos) ∧ f.exit = some convergence ∧
      (clauses = [] ∧ f.entry = convergence ∨ clauses ≠ [] ∧ ∃ last,
        drawnClauses set g T sink convergence f.entry clauses last ∧
          drawnOtherwise set g T sink convergence otherwise last)
  | .matchOn pos scrutinee arms, f => ∃ convergence value last,
    g.node? convergence = some (.noOp pos) ∧ scrutinee.Becomes set.scope value ∧
      (f.exit = some convergence ∨ f.exit = none) ∧ (last = some convergence ∨ last = none) ∧
      drawnArms set g T sink convergence value (some f.entry) arms
        (if arms.isEmpty then some convergence else last)
  | .whileLoop pos label condition body, f => ∃ t convergence inner,
    condition.Becomes set.scope t ∧ f.exit = some convergence ∧
      g.node? convergence = some (.noOp pos) ∧ g.GuardAt f.entry t inner (some convergence) ∧
      g.LeadsTo inner f.entry ∧
      body.Drawn set g (⟨label, some convergence, f.entry⟩ :: T) .discard inner
  | .loop pos label body, f => ∃ leave inner,
    f.entry = inner.entry ∧ g.LeadsTo inner inner.entry ∧
      (match leave with
        | some convergence => f.exit = some convergence ∧ g.node? convergence = some (.noOp pos)
        | none => f.exit = inner.exit) ∧
      body.Drawn set g (⟨label, leave, inner.entry⟩ :: T) .discard inner
  | .forLoop pos label pat iterable body, f => ∃ source p first guard convergence step inner,
    iterable.Becomes set.scope source ∧ (∃ c c', set.scope.lowerPat pat c = (.ok p, c')) ∧
      g.Stepped pos pat.pos source p f.entry first guard step ∧
      f.exit = some convergence ∧ g.node? convergence = some (.noOp pos) ∧
      g.GuardAt guard (.binary .ne (.ofPattern p pat.pos) (.mk .exhausted .unknown pat.pos) pat.pos)
        inner (some convergence) ∧
      g.LeadsTo inner step ∧ body.Drawn set g (⟨label, some convergence, step⟩ :: T) .discard inner
  | .block _ label body, f => label = none ∧ body.Drawn set g T sink f
  | .unsafeBlock _ body, f => body.Drawn set g T sink f
  | .ret pos none, f => g.Single ⟨.writtenReturn none, pos⟩ f
  | .ret pos (some e), f =>
    if e.isControlFlow then
      if set.returnsUnit then ∃ value bare, e.Drawn set g T .discard value ∧
        g.Single ⟨.writtenReturn none, pos⟩ bare ∧ g.Joins (some value) bare f
      else e.Drawn set g T .returned f
    else ∃ t, e.Becomes set.scope t ∧ g.Single ⟨.writtenReturn (some t), pos⟩ f
  | .leave pos label value, f => value.isNone ∧ g.Routed T .leave label pos f
  | .next pos label, f => g.Routed T .next label pos f
  | .assign pos target value, f =>
    if sink.isDiscard && value.isControlFlow then
      ∃ t, target.Becomes set.scope t ∧ value.Drawn set g T (.assigned t) f
    else ∃ t, (Expr.assign pos target value).Becomes set.scope t ∧ g.Delivers sink t f
  | e, f => ∃ t, e.Becomes set.scope t ∧ g.Delivers sink t f

def Block.Drawn (set : Setting) (g : Graph) (T : List Targets) (sink : Sink) :
    Block → Fragment → Prop
  | .mk pos stmts, f => ∃ r, drawnStmts set g T sink none stmts r ∧
    match r with
    | some last => f = last
    | none => g.Single (.noOp pos) f

/-- Where statements after what came before them are, up to the fragment of them all. -/
def drawnStmts (set : Setting) (g : Graph) (T : List Targets) (sink : Sink) :
    Option Fragment → List Stmt → Option Fragment → Prop
  | current, [], r => r = current
  | current, s :: rest, r => ∃ here,
    s.Drawn set g T (if rest.isEmpty then sink else .discard) here ∧
      match here with
      | some f => ∃ joined, g.Joins current f joined ∧ drawnStmts set g T sink (some joined) rest r
      | none => drawnStmts set g T sink current rest r

/-- Where a statement is; a `use` declaration is nowhere. -/
def Stmt.Drawn (set : Setting) (g : Graph) (T : List Targets) (sink : Sink) :
    Stmt → Option Fragment → Prop
  | .bind pos _ _ none _, r => ∃ f p text type, r = some f ∧
    g.Single (.ofTerm (.mk (.declare p text none) type pos)) f
  | .bind pos _ _ (some e) _, r => ∃ f p text type, r = some f ∧
    if e.isControlFlow then ∃ v declaration value, p = .binding v ∧
      g.Single (.ofTerm (.mk (.declare p text none) type pos)) declaration ∧
      e.Drawn set g T (.assigned (.mk (.var v) type pos)) value ∧ g.Joins (some declaration) value f
    else ∃ t, e.Becomes set.scope t ∧ g.Single (.ofTerm (.mk (.declare p text (some t)) type pos)) f
  | .expr e semi, r => ∃ f, r = some f ∧ e.Drawn set g T (if semi then .discard else sink) f
  | .useDecl, r => r = none
  | .item _, _ => False

/-- Where the clauses of an `if` chain are, from the first guard to the node that control
goes to when all tests fail. -/
def drawnClauses (set : Setting) (g : Graph) (T : List Targets) (sink : Sink)
    (convergence : NodeId) : NodeId → List Clause → NodeId → Prop
  | n, [], last => n = last
  | n, .mk condition body :: rest, last => ∃ t inner missed,
    condition.Becomes set.scope t ∧ g.GuardAt n t inner (some missed) ∧
      body.Drawn set g T sink inner ∧ g.LeadsTo inner convergence ∧
      drawnClauses set g T sink convergence missed rest last

/-- Where the last block of an `if` chain is; without one, control goes on at once. -/
def drawnOtherwise (set : Setting) (g : Graph) (T : List Targets) (sink : Sink)
    (convergence : NodeId) : Option Block → NodeId → Prop
  | none, n => n = convergence
  | some body, n => ∃ inner, n = inner.entry ∧ body.Drawn set g T sink inner ∧
    g.LeadsTo inner convergence

/-- Where the arms of a `match` are, from the first guard to the node, if any, that control
goes to when all tests fail. -/
def drawnArms (set : Setting) (g : Graph) (T : List Targets) (sink : Sink) (convergence : NodeId)
    (scrutinee : Term) : Option NodeId → List Arm → Option NodeId → Prop
  | n, [], last => n = last
  | n, .mk pat guard body :: rest, last => ∃ m t inner missed, n = some m ∧
    (Arm.mk pat guard body).TestedBy set scrutinee t ∧ g.GuardAt m t inner missed ∧
      body.Drawn set g T sink inner ∧ g.LeadsTo inner convergence ∧
      drawnArms set g T sink convergence scrutinee missed rest last

end

end Ast

end RustFlow
