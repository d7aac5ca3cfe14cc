/-
# Lowering function bodies

Specification, section 3 (*CFG Builder*), Lowering rules: Block and Value positions.

A body is lowered statement by statement; each construct with control flow gets
the fragment of its kind.  A *sink* says where the value of a block goes: nowhere,
out of the function, or into a variable.  An `if`, a `match` or a block hands the
sink on to its branches, so `let x = if a { 1 } else { 2 }` declares `x` and
assigns it in both branches.

`Cfg.ofBody` also closes the exits of the graph.
-/

import RustFlow.Cfg.Closing
import RustFlow.Lowering.Fragment

namespace RustFlow
namespace Body

/-- The test of an arm: the pattern against the scrutinee, and the guard of the arm
if it has one.  It says whether the arm takes every value. -/
def armTest (set : Setting) (scrutinee : Term) (pat : Ast.Pat) (guard : Option Ast.Expr) :
    Attempt Context (Term × Bool) := do
  let p ← set.scope.lowerPat pat
  modify fun c => c.bindPattern p scrutinee.type
  let test := Term.mk (.test p scrutinee) .bool pat.pos
  match guard with
  | some e =>
    let extra ← set.scope.lowerExpr e
    return (.binary .and test extra pat.pos, false)
  | none => return (test, p.isCatchAll)

/-- The type that a `let` is ascribed, if any. -/
def resolveAscription (set : Setting) (ascription : Option Ast.TypeAnn) :
    Attempt Context (Option TypeId) :=
  match ascription with
  | none => return none
  | some t => some <$> Context.onArena (set.scope.resolve t.type)

/-- The text of the type that a `let` is ascribed, if any. -/
def ascriptionText (a : Arena) (ascription : Option Ast.TypeAnn) (declared : Option TypeId) :
    Option String :=
  ascription.map fun t => Scope.typeText a t (declared.getD .unknown)

/-- A `let` whose value has no control flow. -/
def letPlain (set : Setting) (pos : Position) (p : Pattern) (ascription : Option String)
    (declared : Option TypeId) (init : Ast.Expr) : Attempt Body Fragment := do
  let value ← onContext (set.scope.lowerExpr init)
  let type := declared.getD value.type
  onContext (modify fun c => c.bindPattern p type)
  single (.ofTerm (.mk (.declare p ascription (some value)) type pos))

/-- A `let` whose value has control flow, given how to lower that into a sink.  The
variable is declared first and assigned by the branches; it is visible only
afterwards. -/
def letFlow (set : Setting) (pos : Position) (p : Pattern) (ascription : Option String)
    (declared : Option TypeId) (flow : Sink → Attempt Body Fragment) : Attempt Body Fragment :=
  match p with
  | .binding v => do
    let type := declared.getD .unknown
    let declaration ← declare p ascription type pos
    let value ← flow (.assigned (.mk (.var v) type pos))
    onContext (modify fun c => c.bind v type)
    chain (some declaration) value
  | _ => set.scope.refuse .destructuringControl pos

/-- A `return` of a value with control flow. -/
def returnFlow (set : Setting) (pos : Position) (flow : Sink → Attempt Body Fragment) :
    Attempt Body Fragment := do
  if set.returnsUnit then
    let value ← flow .discard
    let bare ← single ⟨.writtenReturn none, pos⟩
    chain (some value) bare
  else flow .returned

/-- Lowers an expression without control flow and sends its value to a sink. -/
def plain (set : Setting) (sink : Sink) (e : Ast.Expr) : Attempt Body Fragment := do
  let value ← onContext (set.scope.lowerExpr e)
  sendTo sink value

mutual

/-- Lowers an expression whose value goes to a sink. -/
def lowerFlow (set : Setting) (sink : Sink) : Ast.Expr → Attempt Body Fragment
  | .branch pos clauses otherwise =>
    ifChain pos (fun convergence => lowerClauses set sink convergence none clauses)
      (lowerOtherwise set sink otherwise)
  | .matchOn pos scrutinee arms => do
    let value ← onContext (set.scope.lowerExpr scrutinee)
    matchChain pos sink fun convergence => lowerArms set sink convergence value none arms
  | .whileLoop pos label condition body =>
    if sink.isAssigned then set.scope.refuse .loopValue pos
    else do
      let guard ← onContext (set.scope.lowerExpr condition)
      whileLoop pos label guard (lowerBlock set .discard body)
  | .loop pos label body =>
    if sink.isAssigned then set.scope.refuse .loopValue pos
    else plainLoop pos label (lowerBlock set .discard body)
  | .forLoop pos label pat iterable body =>
    if sink.isAssigned then set.scope.refuse .loopValue pos
    else forLoop set pos label pat iterable (lowerBlock set .discard body)
  | .block pos label body =>
    match label with
    | some _ => set.scope.refuse (if sink.isDiscard then .labeledBlock else .blockValue) pos
    | none => lowerBlock set sink body
  | .unsafeBlock _ body => lowerBlock set sink body
  | .ret pos none => single ⟨.writtenReturn none, pos⟩
  | .ret pos (some e) =>
    if e.isControlFlow then returnFlow set pos fun sink => lowerFlow set sink e
    else do
      let value ← onContext (set.scope.lowerExpr e)
      single ⟨.writtenReturn (some value), pos⟩
  | .leave pos label value =>
    if value.isSome then set.scope.refuse .breakValue pos
    else jump set.scope .leave label pos
  | .next pos label => jump set.scope .next label pos
  | .assign pos target value =>
    if sink.isDiscard && value.isControlFlow then do
      let t ← onContext (set.scope.lowerExpr target)
      lowerFlow set (.assigned t) value
    else plain set sink (.assign pos target value)
  | e => plain set sink e

/-- Lowers a block. -/
def lowerBlock (set : Setting) (sink : Sink) : Ast.Block → Attempt Body Fragment
  | .mk pos stmts => do
    match ← lowerStmts set sink none stmts with
    | some fragment => return fragment
    | none => single (.noOp pos)

/-- Lowers statements after what came before them.  The value of the last one goes
to the sink if no semicolon follows it. -/
def lowerStmts (set : Setting) (sink : Sink) :
    Option Fragment → List Ast.Stmt → Attempt Body (Option Fragment)
  | current, [] => return current
  | current, s :: rest => do
    match ← lowerStmt set (if rest.isEmpty then sink else .discard) s with
    | some fragment =>
      let joined ← chain current fragment
      lowerStmts set sink (some joined) rest
    | none => lowerStmts set sink current rest

/-- Lowers a statement; the sink takes the value of an expression without a
semicolon. -/
def lowerStmt (set : Setting) (sink : Sink) : Ast.Stmt → Attempt Body (Option Fragment)
  | .bind pos pat ascription init diverges => do
    let declared ← onContext (resolveAscription set ascription)
    let p ← onContext (set.scope.lowerPat pat)
    let text := ascriptionText (← get).context.arena ascription declared
    match init with
    | none =>
      let type := declared.getD .unknown
      onContext (modify fun c => c.bindPattern p type)
      some <$> declare p text type pos
    | some e =>
      if diverges then set.scope.refuse .letElse pos
      else if e.isControlFlow then
        some <$> letFlow set pos p text declared fun sink => lowerFlow set sink e
      else some <$> letPlain set pos p text declared e
  | .expr e semi => some <$> lowerFlow set (if semi then .discard else sink) e
  | .useDecl => return none
  | .item pos => set.scope.refuse .nestedItem pos

/-- Lowers the clauses of an `if` chain after a guard whose false edge is open. -/
def lowerClauses (set : Setting) (sink : Sink) (convergence : NodeId) :
    Option NodeId → List Ast.Clause → Attempt Body (Option Guards)
  | _, [] => return none
  | pending, .mk condition body :: rest => do
    let test ← onContext (set.scope.lowerExpr condition)
    let guard ← guarded convergence pending test (lowerBlock set sink body)
    let others ← lowerClauses set sink convergence (some guard) rest
    return some ⟨guard, (others.map Guards.last).getD guard⟩

/-- The action that lowers the last block of an `if` chain. -/
def lowerOtherwise (set : Setting) (sink : Sink) : Option Ast.Block → Option (Attempt Body Fragment)
  | none => none
  | some body => some (lowerBlock set sink body)

/-- Lowers the arms of a `match` after a guard whose false edge is open. -/
def lowerArms (set : Setting) (sink : Sink) (convergence : NodeId) (scrutinee : Term) :
    Option NodeId → List Ast.Arm → Attempt Body (Option (Guards × Bool))
  | _, [] => return none
  | pending, .mk pat extra body :: rest => do
    let (test, exhaustive) ← onContext (armTest set scrutinee pat extra)
    let guard ← guarded convergence pending test (lowerFlow set sink body)
    let others ← lowerArms set sink convergence scrutinee (some guard) rest
    return some
      (match others with
        | some (guards, last) => (⟨guard, guards.last⟩, last)
        | none => (⟨guard, guard⟩, exhaustive))

end

/-- Lowers a whole body: the value of a function with a result is returned. -/
def lower (set : Setting) (body : Ast.Block) : Attempt Body Fragment :=
  lowerBlock set (if set.returnsUnit then .discard else .returned) body

end Body

namespace Signature

/-- The context at the start of a body: the parameters are bound. -/
def context (sig : Signature) (arena : Arena) : Context :=
  sig.params.foldl (fun c p => c.bindPattern p.pattern p.type) ⟨arena, []⟩

end Signature

namespace Cfg

/-- Lowers a body without closing its exits; what was built before a failure is
kept. -/
def lowerBody (config : Config) (scope : Scope) (sig : Signature) (body : Ast.Block)
    (arena : Arena) : Except Error Fragment × Body :=
  Body.lower ⟨scope, config.freshStem, sig.returnsUnit⟩ body (.start (sig.context arena))

/-- The control-flow graph of a function body. -/
def ofBody (config : Config) (scope : Scope) (sig : Signature) (body : Ast.Block) :
    Attempt Arena Cfg := fun arena =>
  let (out, b) := lowerBody config scope sig body arena
  let closed := do
    let fragment ← out
    let graph ← close config sig (b.graph.addEntry fragment.entry)
    return ⟨sig, graph⟩
  (closed, b.context.arena)

end Cfg

end RustFlow
