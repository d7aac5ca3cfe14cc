/-
# The runs of a function body

What a body does is read off its syntax, without a graph.  A run records the
terms that are evaluated and, for each guard it comes to, the guard with its
outcome; the outcomes are chosen freely.  A `Behaviour` is the set of the finite
runs of a construct, each with how it ends: control goes on after the construct,
leaves the function, or jumps to a loop around it.

* `if` and `match` test their guards in order.  When all fail, an `if` without
  `else` and a `match` go on after the construct; the last arm of a `match`
  cannot fail if it takes every value or if the value is returned.
* A loop tests, runs its body and comes back (`Iterates`).  A `for` loop is
  stepped before the first test and after each turn.
* The value of a block, an `if` or a `match` goes to a sink, where the tail of a
  branch delivers it.  A branch without a tail goes on after the construct.
* Names are resolved in the order of the text, so a body is read in a state
  (`Reading`) that is threaded through all its parts.

A `Profile` collects what the results about runs ask of a body.
-/

import RustFlow.Lowering.Body
import RustFlow.Proofs.Attempt

namespace RustFlow

open Ast

/-- What a run records. -/
inductive Event where
  | eval (t : Term)
  | guard (t : Term) (taken : Bool)

/-- How a run of a construct ends. -/
inductive Outcome where
  | completes
  | returns
  /-- A jump to a loop around the construct, the innermost being `0`. -/
  | jumps (kind : Jump) (depth : Nat)
deriving DecidableEq

/-- The runs of a construct. -/
def Behaviour := List Event → Outcome → Prop

namespace Behaviour

/-- Goes on at once. -/
def nothing : Behaviour := fun run out => run = [] ∧ out = .completes

/-- Has no run. -/
def never : Behaviour := fun _ _ => False

def evaluates (t : Term) : Behaviour := fun run out => run = [.eval t] ∧ out = .completes

def returnsValue (t : Term) : Behaviour := fun run out => run = [.eval t] ∧ out = .returns

def returnsNow : Behaviour := fun run out => run = [] ∧ out = .returns

def jumpsTo (kind : Jump) (depth : Nat) : Behaviour := fun run out =>
  run = [] ∧ out = .jumps kind depth

/-- One construct after another. -/
def andThen (A B : Behaviour) : Behaviour := fun run out =>
  A run out ∧ out ≠ .completes ∨
    ∃ before after, run = before ++ after ∧ A before .completes ∧ B after out

/-- A guard and what follows each of its outcomes. -/
def choice (t : Term) (A B : Behaviour) : Behaviour := fun run out =>
  ∃ rest, run = .guard t true :: rest ∧ A rest out ∨ run = .guard t false :: rest ∧ B rest out

/-- Guarded branches in order, and what happens when all guards fail. -/
def choose (branches : List (Term × Behaviour)) (otherwise : Behaviour) : Behaviour :=
  branches.foldr (fun branch rest => choice branch.1 branch.2 rest) otherwise

/-- What a loop records when its test lets it into a turn. -/
def enter : Option Term → List Event
  | none => []
  | some t => [.guard t true]

/-- A loop from its test on.  After a turn that completes or asks for the next one
come the events of a step and the test again. -/
inductive Iterates (test : Option Term) (step : List Event) (body : Behaviour) : Behaviour where
  | stop {t : Term} : test = some t → Iterates test step body [.guard t false] .completes
  | turn {run rest : List Event} {out : Outcome} :
      body run .completes ∨ body run (.jumps .next 0) → Iterates test step body rest out →
      Iterates test step body (enter test ++ run ++ step ++ rest) out
  | leave {run : List Event} : body run (.jumps .leave 0) →
      Iterates test step body (enter test ++ run) .completes
  | escape {run : List Event} {kind : Jump} {depth : Nat} : body run (.jumps kind (depth + 1)) →
      Iterates test step body (enter test ++ run) (.jumps kind depth)
  | returns {run : List Event} : body run .returns →
      Iterates test step body (enter test ++ run) .returns

/-- A value that is delivered to a sink. -/
def delivers (sink : Sink) (t : Term) : Behaviour :=
  match sink with
  | .discard => evaluates t
  | .returned => returnsValue t
  | .assigned target => evaluates (.mk (.assign target t) .unit t.pos)

/-! ### Laws -/

theorem nothing_andThen (A : Behaviour) : nothing.andThen A = A := by
  funext run out
  refine propext ⟨?_, fun h => .inr ⟨[], run, rfl, ⟨rfl, rfl⟩, h⟩⟩
  rintro (⟨⟨-, rfl⟩, hne⟩ | ⟨before, after, rfl, ⟨rfl, -⟩, h⟩)
  · exact absurd rfl hne
  · exact h

theorem andThen_nothing (A : Behaviour) : A.andThen nothing = A := by
  funext run out
  refine propext ⟨?_, fun h => ?_⟩
  · rintro (⟨h, -⟩ | ⟨before, after, rfl, h, rfl, rfl⟩)
    · exact h
    · rwa [List.append_nil]
  · by_cases hout : out = .completes
    · exact .inr ⟨run, [], (List.append_nil run).symm, hout ▸ h, rfl, hout⟩
    · exact .inl ⟨h, hout⟩

theorem andThen_assoc (A B C : Behaviour) :
    (A.andThen B).andThen C = A.andThen (B.andThen C) := by
  funext run out
  refine propext ⟨?_, ?_⟩
  · rintro (⟨⟨h, hne⟩ | ⟨r₁, r₂, rfl, hA, hB⟩, hne⟩ | ⟨r₁, r₃, rfl, ⟨-, hne⟩ | hAB, hC⟩)
    · exact .inl ⟨h, hne⟩
    · exact .inr ⟨r₁, r₂, rfl, hA, .inl ⟨hB, hne⟩⟩
    · exact absurd rfl hne
    · obtain ⟨r₁, r₂, rfl, hA, hB⟩ := hAB
      exact .inr ⟨r₁, r₂ ++ r₃, List.append_assoc .., hA, .inr ⟨r₂, r₃, rfl, hB, hC⟩⟩
  · rintro (⟨h, hne⟩ | ⟨r₁, r, rfl, hA, ⟨hB, hne⟩ | ⟨r₂, r₃, rfl, hB, hC⟩⟩)
    · exact .inl ⟨.inl ⟨h, hne⟩, hne⟩
    · exact .inl ⟨.inr ⟨r₁, r, rfl, hA, hB⟩, hne⟩
    · exact .inr ⟨r₁ ++ r₂, r₃, (List.append_assoc ..).symm, .inr ⟨r₁, r₂, rfl, hA, hB⟩, hC⟩

end Behaviour

/-! ### Reading the syntax -/

/-- The state in which a body is read: the names bound so far, and the number of
iterators named so far. -/
structure Reading where
  context : Context
  fresh : Nat

/-- The loop that a jump refers to, given the labels of the loops around it: the
innermost one, or the innermost one with the given label. -/
def targetDepth (labels : List (Option String)) (label : Option String) : Option Nat :=
  match label with
  | none => if labels.isEmpty then none else some 0
  | some name => labels.findIdx? fun l => l == some name

namespace Ast.Expr

/-- Whether an expression is a loop. -/
def isLoop : Expr → Bool
  | whileLoop .. | loop .. | forLoop .. => true
  | _ => false

end Ast.Expr

namespace Ast

/-- Whether a pattern takes every value. -/
def Pat.takesAll : Pat → Bool
  | binding .. | wild _ => true
  | paren _ p => p.takesAll
  | _ => false

/-- Whether an arm takes every value: its pattern does, and no `if` follows it. -/
def Arm.takesAll : Arm → Bool
  | mk pat guard _ => guard.isNone && pat.takesAll

/-- Whether the last arm of a `match` takes every value. -/
def lastTakesAll (arms : List Arm) : Bool := arms.getLast?.all Arm.takesAll

end Ast

namespace Reading

open Behaviour

variable (set : Setting) (labels : List (Option String)) (sink : Sink)

def onContext {α : Type} (m : Attempt Context α) : Attempt Reading α :=
  m.zoom context fun c r => { r with context := c }

def freshName : Attempt Reading String :=
  modifyGet fun r => (set.freshStem ++ toString r.fresh, { r with fresh := r.fresh + 1 })

def plain (e : Expr) : Attempt Reading Behaviour := do
  let value ← onContext (set.scope.lowerExpr e)
  return delivers sink value

def letPlain (pos : Position) (p : Pattern) (ascription : Option String)
    (declared : Option TypeId) (init : Expr) : Attempt Reading Behaviour := do
  let value ← onContext (set.scope.lowerExpr init)
  let type := declared.getD value.type
  onContext (modify fun c => c.bindPattern p type)
  return evaluates (.mk (.declare p ascription (some value)) type pos)

/-- A `let` whose value has control flow: the variable is declared, the value is
assigned to it, and only then is it visible. -/
def letFlow (pos : Position) (p : Pattern) (ascription : Option String)
    (declared : Option TypeId) (flow : Sink → Attempt Reading Behaviour) :
    Attempt Reading Behaviour :=
  match p with
  | .binding v => do
    let type := declared.getD .unknown
    let value ← flow (.assigned (.mk (.var v) type pos))
    onContext (modify fun c => c.bind v type)
    return (evaluates (.mk (.declare p ascription none) type pos)).andThen value
  | _ => set.scope.refuse .destructuringControl pos

def jump (kind : Jump) (label : Option String) : Behaviour :=
  match targetDepth labels label with
  | some depth => jumpsTo kind depth
  | none => never

/-- A `for` loop, given how to read its body. -/
def forLoop (pos : Position) (pat : Pat) (iterable : Expr)
    (body : Attempt Reading Behaviour) : Attempt Reading Behaviour := do
  let iterator ← freshName set
  let source ← onContext (set.scope.lowerExpr iterable)
  let v : Variable := ⟨iterator, true⟩
  onContext (modify fun c => c.bind v source.type)
  let p ← onContext (set.scope.lowerPat pat)
  onContext (modify fun c => c.bindPattern p .unknown)
  let first := Body.nextStep (← get).context iterator p pat.pos
  let exhausted := Term.mk .exhausted .unknown pat.pos
  let guard := Term.binary .ne (.ofPattern p pat.pos) exhausted pat.pos
  let turn ← body
  let again := Body.nextStep (← get).context iterator p pat.pos
  return (evaluates (.mk (.declare (.binding v) none (some source)) source.type pos)).andThen
    ((evaluates first).andThen (Iterates (some guard) [.eval again] turn))

mutual

/-- The runs of an expression whose value goes to a sink. -/
def flow (set : Setting) (labels : List (Option String)) (sink : Sink) :
    Expr → Attempt Reading Behaviour
  | .branch _ clauses otherwise => do
    let branches ← flowClauses set labels sink clauses
    let last ← flowOtherwise set labels sink otherwise
    return choose branches last
  | .matchOn _ scrutinee arms => do
    let value ← onContext (set.scope.lowerExpr scrutinee)
    let branches ← flowArms set labels sink value arms
    return choose branches (if lastTakesAll arms || sink.isReturned then never else nothing)
  | .whileLoop _ label condition body => do
    let guard ← onContext (set.scope.lowerExpr condition)
    let turn ← flowBlock set (label :: labels) .discard body
    return Iterates (some guard) [] turn
  | .loop _ label body => do
    let turn ← flowBlock set (label :: labels) .discard body
    return Iterates none [] turn
  | .forLoop pos label pat iterable body =>
    forLoop set pos pat iterable (flowBlock set (label :: labels) .discard body)
  | .block _ _ body => flowBlock set labels sink body
  | .unsafeBlock _ body => flowBlock set labels sink body
  | .ret _ none => return returnsNow
  | .ret _ (some e) =>
    if !e.isControlFlow then do
      let value ← onContext (set.scope.lowerExpr e)
      return returnsValue value
    else if set.returnsUnit || e.isLoop then do
      let value ← flow set labels .discard e
      return value.andThen returnsNow
    else flow set labels .returned e
  | .leave _ label _ => return jump labels .leave label
  | .next _ label => return jump labels .next label
  | .assign pos target value =>
    if sink.isDiscard && value.isControlFlow then do
      let t ← onContext (set.scope.lowerExpr target)
      flow set labels (.assigned t) value
    else plain set sink (.assign pos target value)
  | e => plain set sink e

def flowBlock (set : Setting) (labels : List (Option String)) (sink : Sink) :
    Block → Attempt Reading Behaviour
  | .mk _ stmts => flowStmts set labels sink stmts

/-- The runs of statements.  The value of the last one goes to the sink if no
semicolon follows it. -/
def flowStmts (set : Setting) (labels : List (Option String)) (sink : Sink) :
    List Stmt → Attempt Reading Behaviour
  | [] => return nothing
  | s :: rest => do
    let first ← flowStmt set labels (if rest.isEmpty then sink else .discard) s
    let others ← flowStmts set labels sink rest
    return first.andThen others

/-- The runs of a statement; the sink takes the value of an expression without a
semicolon. -/
def flowStmt (set : Setting) (labels : List (Option String)) (sink : Sink) :
    Stmt → Attempt Reading Behaviour
  | .bind pos pat ascription init _ => do
    let declared ← onContext (Body.resolveAscription set ascription)
    let p ← onContext (set.scope.lowerPat pat)
    let text := Body.ascriptionText (← get).context.arena ascription declared
    match init with
    | none =>
      let type := declared.getD .unknown
      onContext (modify fun c => c.bindPattern p type)
      return evaluates (.mk (.declare p text none) type pos)
    | some e =>
      if e.isControlFlow then letFlow set pos p text declared fun sink => flow set labels sink e
      else letPlain set pos p text declared e
  | .expr e semi => flow set labels (if semi then .discard else sink) e
  | .useDecl => return nothing
  | .item pos => set.scope.refuse .nestedItem pos

/-- The guards and branches of an `if` chain. -/
def flowClauses (set : Setting) (labels : List (Option String)) (sink : Sink) :
    List Clause → Attempt Reading (List (Term × Behaviour))
  | [] => return []
  | .mk condition body :: rest => do
    let test ← onContext (set.scope.lowerExpr condition)
    let taken ← flowBlock set labels sink body
    let others ← flowClauses set labels sink rest
    return (test, taken) :: others

def flowOtherwise (set : Setting) (labels : List (Option String)) (sink : Sink) :
    Option Block → Attempt Reading Behaviour
  | none => return nothing
  | some body => flowBlock set labels sink body

/-- The tests and branches of a `match`. -/
def flowArms (set : Setting) (labels : List (Option String)) (sink : Sink) (scrutinee : Term) :
    List Arm → Attempt Reading (List (Term × Behaviour))
  | [] => return []
  | .mk pat extra body :: rest => do
    let (test, _) ← onContext (Body.armTest set scrutinee pat extra)
    let taken ← flow set labels sink body
    let others ← flowArms set labels sink scrutinee rest
    return (test, taken) :: others

end

/-- The runs of a whole body: the value of a function with a result is returned. -/
def body (set : Setting) (b : Block) : Attempt Reading Behaviour :=
  flowBlock set [] (if set.returnsUnit then .discard else .returned) b

end Reading

/-! ### Arms that take every value -/

section TakesAll

variable {set : Setting} {c c' : Context}

/-- What is said of the syntax of a pattern holds of the pattern. -/
theorem isCatchAll_eq_takesAll {q : Pattern} : ∀ (p : Pat) {c c' : Context},
    set.scope.lowerPat p c = (.ok q, c') → q.isCatchAll = p.takesAll
  | .paren _ p, _, _, h => by
    rw [Scope.lowerPat] at h
    exact isCatchAll_eq_takesAll p h
  | .binding .., _, _, h | .wild _, _, _, h | .path .., _, _, h | .rest _, _, _, h => by
    rw [Scope.lowerPat] at h
    cases h
    rfl
  | .reference .., _, _, h | .tuple .., _, _, h | .alternatives .., _, _, h
  | .literal .., _, _, h => by
    rw [Scope.lowerPat] at h
    obtain ⟨_, _, -, h⟩ := Attempt.bind_ok h
    cases h
    rfl
  | .range .., _, _, h => by
    rw [Scope.lowerPat] at h
    obtain ⟨_, _, -, h⟩ := Attempt.bind_ok h
    obtain ⟨_, _, -, h⟩ := Attempt.bind_ok h
    cases h
    rfl
  | .struct .., _, _, h => by
    rw [Scope.lowerPat] at h
    split at h
    · cases h
    · obtain ⟨_, _, -, h⟩ := Attempt.bind_ok h
      obtain ⟨_, _, -, h⟩ := Attempt.bind_ok h
      cases h
      rfl
  | .tupleStruct .., _, _, h => by
    rw [Scope.lowerPat] at h
    split at h
    · cases h
    · obtain ⟨_, _, -, h⟩ := Attempt.bind_ok h
      cases h
      rfl
  | .other .., _, _, h => by
    rw [Scope.lowerPat] at h
    cases h

theorem eq_takesAll_of_armTest {value t : Term} {pat : Pat} {guard : Option Expr} {body : Expr}
    {exhaustive : Bool} (h : Body.armTest set value pat guard c = (.ok (t, exhaustive), c')) :
    exhaustive = (Arm.mk pat guard body).takesAll := by
  obtain ⟨p, c₁, hp, h⟩ := Attempt.bind_ok h
  obtain ⟨_, c₂, -, h⟩ := Attempt.bind_ok h
  cases guard with
  | none =>
    cases h
    exact isCatchAll_eq_takesAll pat hp
  | some e =>
    obtain ⟨_, _, -, h⟩ := Attempt.bind_ok h
    cases h
    rfl

end TakesAll

/-! ### Profiles -/

namespace Ast

/-- What a piece of syntax has in its statement positions. -/
structure Profile where
  /-- Every `if` has a clause, every `match` an arm, and no loop is returned. -/
  structured : Bool
  /-- Every `loop` is left by a `break`. -/
  broken : Bool
  /-- The loops around, the innermost being `0`, that are left by a `break`. -/
  breaks : List Nat

namespace Profile

/-- Without any of this. -/
def plain : Profile := ⟨true, true, []⟩

def and (p q : Profile) : Profile :=
  ⟨p.structured && q.structured, p.broken && q.broken, p.breaks ++ q.breaks⟩

/-- With one more requirement. -/
def require (ok : Bool) (p : Profile) : Profile := { p with structured := ok && p.structured }

/-- Seen from outside a loop. -/
def outside (p : Profile) : Profile :=
  { p with breaks := p.breaks.filterMap fun i => if i = 0 then none else some (i - 1) }

/-- Seen from outside a loop that only a `break` ends. -/
def outsideLoop (p : Profile) : Profile :=
  { p.outside with broken := p.breaks.contains 0 && p.broken }

end Profile

mutual

def Expr.profile (labels : List (Option String)) : Expr → Profile
  | .branch _ clauses otherwise =>
    ((profileClauses labels clauses).and (profileOtherwise labels otherwise)).require
      (!clauses.isEmpty)
  | .matchOn _ _ arms => (profileArms labels arms).require (!arms.isEmpty)
  | .whileLoop _ label _ body => (body.profile (label :: labels)).outside
  | .loop _ label body => (body.profile (label :: labels)).outsideLoop
  | .forLoop _ label _ _ body => (body.profile (label :: labels)).outside
  | .block _ _ body => body.profile labels
  | .unsafeBlock _ body => body.profile labels
  | .ret _ (some e) => if e.isControlFlow then (e.profile labels).require (!e.isLoop) else .plain
  | .leave _ label _ => { Profile.plain with breaks := (targetDepth labels label).toList }
  | .assign _ _ value => if value.isControlFlow then value.profile labels else .plain
  | _ => .plain

def Block.profile (labels : List (Option String)) : Block → Profile
  | .mk _ stmts => profileStmts labels stmts

def profileStmts (labels : List (Option String)) : List Stmt → Profile
  | [] => .plain
  | s :: rest => (s.profile labels).and (profileStmts labels rest)

def Stmt.profile (labels : List (Option String)) : Stmt → Profile
  | .bind _ _ _ (some e) _ => if e.isControlFlow then e.profile labels else .plain
  | .expr e _ => e.profile labels
  | _ => .plain

def profileClauses (labels : List (Option String)) : List Clause → Profile
  | [] => .plain
  | .mk _ body :: rest => (body.profile labels).and (profileClauses labels rest)

def profileOtherwise (labels : List (Option String)) : Option Block → Profile
  | none => .plain
  | some body => body.profile labels

def profileArms (labels : List (Option String)) : List Arm → Profile
  | [] => .plain
  | .mk _ _ body :: rest => (body.profile labels).and (profileArms labels rest)

end

end Ast

end RustFlow
