/-
# What a body evaluates is in its graph

Every expression of a body that is evaluated becomes a term in some node of the graph, with
two exceptions.  The scrutinee of a `match` without arms is lowered, but it is the arms that
put it into nodes.  The target of an assignment is lowered before the branches of its value,
but it is the values at the ends of these branches that put it into nodes; if none of the
branches ends in a value, there is no such node.  `Block.lost` lists the expressions of these
two kinds.

`Saves` follows a computation on a body: nodes are only added, and what is listed is in a
node afterwards or is among the lost.  A sink that assigns brings its target along, which is
saved wherever a value is delivered (`Expr.delivers`).
-/

import RustFlow.Proofs.Coverage

namespace RustFlow

open Ast Attempt

/-! ### What is evaluated in vain -/

namespace Ast

/-- Whether an expression is a call of a function, a method or a macro. -/
def Expr.isCall : Expr → Bool
  | .call .. | .methodCall .. | .macroCall .. => true
  | _ => false

mutual

/-- Whether a value reaches the place where the value of an expression goes, on some branch. -/
def Expr.delivers : Expr → Bool
  | .branch _ clauses otherwise =>
    clausesDeliver clauses || !clauses.isEmpty && otherwiseDelivers otherwise
  | .matchOn _ _ arms => armsDeliver arms
  | .block _ _ body | .unsafeBlock _ body => body.delivers
  | .whileLoop .. | .loop .. | .forLoop .. | .ret .. | .leave .. | .next .. => false
  | _ => true

def Block.delivers : Block → Bool
  | .mk _ stmts => stmtsDeliver stmts

/-- The value of a block is that of its last statement. -/
def stmtsDeliver : List Stmt → Bool
  | [] => false
  | s :: stmts => if stmts.isEmpty then s.delivers else stmtsDeliver stmts

def Stmt.delivers : Stmt → Bool
  | .expr e semi => !semi && e.delivers
  | .bind .. | .useDecl | .item _ => false

def clausesDeliver : List Clause → Bool
  | [] => false
  | .mk _ body :: clauses => body.delivers || clausesDeliver clauses

def otherwiseDelivers : Option Block → Bool
  | none => false
  | some body => body.delivers

def armsDeliver : List Arm → Bool
  | [] => false
  | .mk _ _ body :: arms => body.delivers || armsDeliver arms

end

mutual

/-- The expressions that are evaluated and then dropped: in the scrutinee of a `match` without
arms, and in the target of an assignment that no branch delivers a value to. -/
def Expr.lost : Expr → List Expr
  | .matchOn _ e arms => (if arms.isEmpty then e.evaluated else []) ++ lostArms arms
  | .assign _ l r => (if r.delivers then [] else l.evaluated) ++ r.lost
  | .branch _ clauses otherwise => lostClauses clauses ++ lostOtherwise otherwise
  | .block _ _ body | .unsafeBlock _ body | .loop _ _ body | .whileLoop _ _ _ body
  | .forLoop _ _ _ _ body => body.lost
  | .ret _ e => lostOption e
  | _ => []

def lostOption : Option Expr → List Expr
  | none => []
  | some e => e.lost

def Block.lost : Block → List Expr
  | .mk _ stmts => lostStmts stmts

def lostStmts : List Stmt → List Expr
  | [] => []
  | s :: stmts => s.lost ++ lostStmts stmts

def Stmt.lost : Stmt → List Expr
  | .bind _ _ _ init _ => lostOption init
  | .expr e _ => e.lost
  | .useDecl | .item _ => []

def lostClauses : List Clause → List Expr
  | [] => []
  | .mk _ body :: clauses => body.lost ++ lostClauses clauses

def lostOtherwise : Option Block → List Expr
  | none => []
  | some body => body.lost

def lostArms : List Arm → List Expr
  | [] => []
  | .mk _ _ body :: arms => body.lost ++ lostArms arms

end

end Ast

/-- A term that stands for a call: a call of the same name, with as many arguments and at the
same place, or the literal that calling the name of a struct or of a variant gives. -/
def Term.IsCallOf (u : Term) : Expr → Prop
  | .methodCall pos _ method args => ∃ values,
    u = .mk (.call method none true values) .unknown pos ∧ values.length = args.length + 1
  | .macroCall pos path tokens _ => u = .mk (.macroCall path tokens) .unknown pos
  | .call pos (.path _ p) args => u.pos = pos ∧ ∃ values, values.length = args.length ∧
    (u.form = .call p.last.name p.qualifierText? false values ∨
      (∃ name, p.ident? = some name ∧ u.form = .structLit name values) ∨
      ∃ name, u.form = .enumLit name p.last.name .tuple values)
  | _ => False

/-! ### Terms and nodes that hold an expression -/

variable {scope : Scope} {x : Expr} {xs ys zs ls ms : List Expr} {t u : Term} {ts us : List Term}

/-- What an expression became stands in a term. -/
def Term.Holds (scope : Scope) (t : Term) (x : Expr) : Prop :=
  ∃ u c d, u.Within t ∧ scope.lowerExpr x c = (.ok u, d)

theorem Term.Holds.within (h : u.Holds scope x) (hut : u.Within t) : t.Holds scope x := by
  obtain ⟨v, c, d, hvu, hrun⟩ := h
  exact ⟨v, c, d, hvu.trans hut, hrun⟩

theorem Term.Holds.part (h : u.Holds scope x) (hu : u ∈ t.form.parts) : t.Holds scope x :=
  h.within (.part hu (.self u))

theorem Covers.holds {c d : Context} (h : Covers scope c d xs ts) :
    ∀ x ∈ xs, ∃ t ∈ ts, t.Holds scope x := by
  intro x hx
  obtain ⟨u, ⟨t, ht, hut⟩, c₁, d₁, -, hrun, -⟩ := h.kept x hx
  exact ⟨t, ht, u, c₁, d₁, hut, hrun⟩

theorem holds_lowerExpr {c d : Context} (h : scope.lowerExpr x c = (.ok t, d)) :
    ∀ y ∈ x.evaluated, t.Holds scope y := by
  intro y hy
  obtain ⟨u, hu, hholds⟩ := (covers_lowerExpr x t d h).2.holds y hy
  exact List.mem_singleton.1 hu ▸ hholds

theorem holds_lowerPat {pat : Pat} {c d : Context} {p : Pattern}
    (h : scope.lowerPat pat c = (.ok p, d)) : ∀ y ∈ pat.constants, ∃ u ∈ p.terms, u.Holds scope y :=
  (covers_lowerPat pat p d h).2.holds

/-- What stands in the target that a sink assigns to; another sink brings nothing along. -/
def Sink.Carries (scope : Scope) (sink : Sink) (zs : List Expr) : Prop :=
  match sink with
  | .assigned target => ∀ z ∈ zs, target.Holds scope z
  | _ => zs = []

theorem Sink.carries_nil (scope : Scope) (sink : Sink) : sink.Carries scope [] := by
  cases sink with
  | assigned => exact fun _ hz => by cases hz
  | _ => rfl

theorem Scope.variantOf_name {a : Arena} {p : Path} {v : EnumVariant}
    (h : scope.variantOf a p = some v) : v.variant.name = p.last.name := by
  unfold variantOf at h
  simp only [Option.bind_eq_bind, Option.bind_eq_some_iff, Option.pure_def, Option.some.injEq] at h
  obtain ⟨owner, -, type, -, variant, hvariant, rfl⟩ := h
  have hname := List.find?_some hvariant
  rwa [beq_iff_eq] at hname

theorem isCallOf_applied {a : Arena} {p : Path} {values : List Term} {args : List Expr}
    (hlength : values.length = args.length) (pos at' : Position) :
    (scope.applied a p values pos).IsCallOf (.call pos (.path at' p) args) := by
  unfold Scope.applied
  split
  · rename_i v hv
    exact ⟨rfl, values, hlength, .inr (.inr ⟨v.enumName, Scope.variantOf_name hv ▸ rfl⟩)⟩
  · split
    · rename_i name type hident hstruct
      exact ⟨rfl, values, hlength, .inr (.inl ⟨name, hident, rfl⟩)⟩
    · exact ⟨rfl, values, hlength, .inl rfl⟩

theorem isCallOf_lowerExpr (hx : x.isCall = true) {c : Context} :
    Grows (scope.lowerExpr x) c fun u _ => u.IsCallOf x := by
  cases x with
  | methodCall pos receiver method args =>
    refine (covers_lowerExpr receiver).bind fun first _ _ _ => ?_
    refine (length_lowerAll args).bind fun rest _ _ hlength => ?_
    exact .pure ⟨first :: rest, rfl, congrArg (· + 1) hlength⟩
  | macroCall pos path tokens braced =>
    exact .pure rfl
  | call pos callee args =>
    simp only [Scope.lowerExpr]
    split
    · split
      · exact .refuse _ _
      · refine (length_lowerAll args).bind fun values d _ hlength => .get (.pure ?_)
        exact isCallOf_applied hlength pos _
    · exact .refuse _ _
  | _ => cases hx

namespace Body

variable {α β : Type} {m : Attempt Body α} {b b' : Body} {set : Setting}

/-- What an expression became stands in a node. -/
def Records (scope : Scope) (b : Body) (x : Expr) : Prop :=
  ∃ n s t, b.graph.node? n = some s ∧ s.term? = some t ∧ t.Holds scope x

/-- Nodes are only added, at the end. -/
structure Extended (b b' : Body) : Prop where
  slots : b.graph.slots <+: b'.graph.slots
  vacant : b'.graph.vacant = []

theorem Extended.records (h : Extended b b') (hx : Records scope b x) : Records scope b' x := by
  obtain ⟨n, s, t, hn, hs, ht⟩ := hx
  refine ⟨n, s, t, ?_, hs, ht⟩
  obtain ⟨new, hnew⟩ := h.slots
  have hlt := Graph.lt_of_contains (Graph.contains_of_node? hn)
  rw [Graph.node?, ← hnew, List.getElem?_append_left hlt]
  exact hn

/-- A computation that, if it succeeds, has put the expressions into nodes, those apart that
are lost. -/
def Saves (scope : Scope) (m : Attempt Body α) (xs ls : List Expr) : Prop :=
  ∀ b : Body, b.graph.vacant = [] → ∀ v b', m b = (.ok v, b') →
    Extended b b' ∧ ∀ x ∈ xs, x ∈ ls ∨ Records scope b' x

namespace Saves

/-- Other lists: what is not saved has to be lost. -/
theorem weaken (h : Saves scope m xs ls) (hys : ∀ y ∈ ys, y ∈ xs ∨ y ∈ ms) (hms : ls ⊆ ms) :
    Saves scope m ys ms := by
  intro b hb v b' hrun
  obtain ⟨hext, hsaved⟩ := h b hb v b' hrun
  refine ⟨hext, fun y hy => ?_⟩
  rcases hys y hy with hy | hy
  · exact (hsaved y hy).imp_left fun hl => hms hl
  · exact .inl hy

theorem narrow (h : Saves scope m xs ls) (hys : ys ⊆ xs) : Saves scope m ys ls :=
  h.weaken (fun _ hy => .inl (hys hy)) (List.Subset.refl _)

theorem pure (v : α) : Saves scope (Pure.pure v) [] [] := by
  intro b hb w b' hrun
  cases hrun
  exact ⟨⟨List.prefix_refl _, hb⟩, by simp⟩

theorem throw (e : Error) : Saves scope (MonadExcept.throw e : Attempt Body α) xs ls := by
  intro b _ v b' hrun
  cases hrun

theorem refuse (what : Construct) (pos : Position) :
    Saves scope (set.scope.refuse what pos : Attempt Body α) xs ls := throw _

theorem bindKnown {P : α → Prop} {next : α → Attempt Body β} (h : Saves scope m xs ls)
    (hP : ∀ b v b', m b = (.ok v, b') → P v) (hnext : ∀ v, P v → Saves scope (next v) ys ms) :
    Saves scope (m >>= next) (xs ++ ys) (ls ++ ms) := by
  intro b hb w b₂ hrun
  obtain ⟨v, b₁, hm, hn⟩ := bind_ok hrun
  obtain ⟨hext, hxs⟩ := h b hb v b₁ hm
  obtain ⟨hext', hys⟩ := hnext v (hP b v b₁ hm) b₁ hext.vacant w b₂ hn
  refine ⟨⟨hext.slots.trans hext'.slots, hext'.vacant⟩, fun x hx => ?_⟩
  rcases List.mem_append.1 hx with hx | hx
  · exact (hxs x hx).imp (List.mem_append_left ms) hext'.records
  · exact (hys x hx).imp_left (List.mem_append_right ls)

theorem bind {next : α → Attempt Body β} (h : Saves scope m xs ls)
    (hnext : ∀ v, Saves scope (next v) ys ms) : Saves scope (m >>= next) (xs ++ ys) (ls ++ ms) :=
  h.bindKnown (fun _ _ _ _ => trivial) fun v _ => hnext v

theorem andThen {next : α → Attempt Body β} (h : Saves scope m xs ls)
    (hnext : ∀ v, Saves scope (next v) [] []) : Saves scope (m >>= next) xs ls := by
  have hboth := h.bind hnext
  rwa [List.append_nil, List.append_nil] at hboth

theorem after {next : α → Attempt Body β} (h : Saves scope m [] [])
    (hnext : ∀ v, Saves scope (next v) xs ls) : Saves scope (m >>= next) xs ls := h.bind hnext

theorem map {g : α → β} (h : Saves scope m xs ls) : Saves scope (g <$> m) xs ls := by
  intro b hb w b' hrun
  obtain ⟨v, hm, rfl⟩ := map_ok hrun
  exact h b hb v b' hm

theorem get {next : Body → Attempt Body β} (h : ∀ b, Saves scope (next b) xs ls) :
    Saves scope (MonadState.get >>= next) xs ls := fun b hb => h b b hb

theorem change {f : Body → Body} (hslots : ∀ b, (f b).graph.slots = b.graph.slots)
    (hvacant : ∀ b, (f b).graph.vacant = b.graph.vacant) :
    Saves scope (modify f : Attempt Body PUnit) [] [] := by
  intro b hb v b' hrun
  cases hrun
  exact ⟨⟨hslots b ▸ List.prefix_refl _, (hvacant b).trans hb⟩, by simp⟩

theorem afterContext {m : Attempt Context α} {P : α → Prop} {next : α → Attempt Body β}
    (h : ∀ c v d, m c = (.ok v, d) → P v) (hnext : ∀ v, P v → Saves scope (next v) xs ls) :
    Saves scope (onContext m >>= next) xs ls := by
  intro b hb w b' hrun
  obtain ⟨v, b₁, hm, hn⟩ := bind_ok hrun
  obtain ⟨c, hc, rfl⟩ := zoom_ok hm
  obtain ⟨hext, hsaved⟩ := hnext v (h b.context v c hc) { b with context := c } hb w b' hn
  exact ⟨⟨hext.slots, hext.vacant⟩, hsaved⟩

theorem onContext (m : Attempt Context α) : Saves scope (Body.onContext m) [] [] := by
  intro b hb v b' hrun
  obtain ⟨c, -, rfl⟩ := zoom_ok hrun
  exact ⟨⟨List.prefix_refl _, hb⟩, by simp⟩

/-- **A new node saves what its term holds.** -/
theorem add {s : Statement} (h : ∀ x ∈ xs, ∃ t, s.term? = some t ∧ t.Holds scope x) :
    Saves scope (Body.add s) xs [] := by
  intro b hb v b' hrun
  rw [add_run hb] at hrun
  cases hrun
  refine ⟨⟨List.prefix_append _ _, hb⟩, fun x hx => .inr ?_⟩
  obtain ⟨t, hs, ht⟩ := h x hx
  exact ⟨b.size, s, t, node?_append rfl, hs, ht⟩

theorem addTerm (h : ∀ x ∈ xs, t.Holds scope x) : Saves scope (Body.add (.ofTerm t)) xs [] :=
  add fun x hx => ⟨t, rfl, h x hx⟩

theorem addPlain (s : Statement) : Saves scope (Body.add s) [] [] := add (by simp)

theorem edge (source target : NodeId) (kind : EdgeKind) :
    Saves scope (Body.edge source target kind) [] [] := change (fun _ => rfl) fun _ => rfl

theorem connect (exit : Option NodeId) (target : NodeId) :
    Saves scope (Body.connect exit target) [] [] := by
  cases exit with
  | none => exact .pure _
  | some n => exact edge n target _

theorem edges (hops : List NodeId) (target : NodeId) (kind : EdgeKind) :
    Saves scope (hops.forM fun hop => Body.edge hop target kind) [] [] := by
  induction hops with
  | nil => exact .pure _
  | cons hop hops ih => exact (edge hop target kind).after fun _ => ih

theorem single {s : Statement} (h : ∀ x ∈ xs, ∃ t, s.term? = some t ∧ t.Holds scope x) :
    Saves scope (Body.single s) xs [] := (add h).andThen fun _ => .pure _

theorem chain (previous : Option Fragment) (next : Fragment) :
    Saves scope (Body.chain previous next) [] [] := by
  unfold Body.chain
  split
  · exact .pure _
  · split
    · exact (edge _ _ _).after fun _ => .pure _
    · exact .pure _

/-! ### Branches -/

theorem guarded {convergence : NodeId} {pending : Option NodeId} {body : Attempt Body Fragment}
    (ht : ∀ x ∈ xs, t.Holds scope x) (hbody : Saves scope body ys ls) :
    Saves scope (Body.guarded convergence pending t body) (xs ++ ys) ls := by
  refine (addTerm ht).bind fun guard => ?_
  have htaken : Saves scope (do
      let taken ← body
      Body.edge guard taken.entry .whenTrue
      Body.connect taken.exit convergence
      return guard) ys ls :=
    hbody.andThen fun _ => (edge _ _ _).after fun _ => (connect _ _).after fun _ => .pure _
  cases pending with
  | none => exact htaken
  | some previous => exact (edge _ _ _).after fun _ => htaken

theorem ifNone {pos : Position} {otherwise : Option (Attempt Body Fragment)} :
    Saves scope (Body.ifChain pos (fun _ => Pure.pure none) otherwise) [] [] :=
  (addPlain _).after fun _ => .pure _

theorem ifOnly {pos : Position} {clauses : NodeId → Attempt Body (Option Guards)}
    (hclauses : ∀ convergence, Saves scope (clauses convergence) xs ls) :
    Saves scope (Body.ifChain pos clauses none) xs ls := by
  refine (addPlain _).after fun convergence => (hclauses convergence).andThen fun guards => ?_
  cases guards with
  | none => exact .pure _
  | some guards => exact (edge _ _ _).after fun _ => .pure _

theorem ifElse {pos : Position} {clauses : NodeId → Attempt Body (Option Guards)}
    {body : Attempt Body Fragment} (hclauses : ∀ convergence, Saves scope (clauses convergence) xs ls)
    (hsome : ∀ convergence b guards b', clauses convergence b = (.ok guards, b') → guards.isSome = true)
    (hbody : Saves scope body ys ms) :
    Saves scope (Body.ifChain pos clauses (some body)) (xs ++ ys) (ls ++ ms) := by
  refine (addPlain _).after fun convergence => ?_
  refine (hclauses convergence).bindKnown (hsome convergence) fun guards hguards => ?_
  cases guards with
  | none => cases hguards
  | some guards =>
    exact hbody.andThen fun _ => (edge _ _ _).after fun _ => (connect _ _).after fun _ => .pure _

theorem matchChain {pos : Position} {sink : Sink}
    {arms : NodeId → Attempt Body (Option (Guards × Bool))}
    (harms : ∀ convergence, Saves scope (arms convergence) xs ls) :
    Saves scope (Body.matchChain pos sink arms) xs ls := by
  refine (addPlain _).after fun convergence => (harms convergence).andThen fun out => ?_
  cases out with
  | none => exact .pure _
  | some out =>
    obtain ⟨guards, exhaustive⟩ := out
    have hexit : Saves scope (do
        let reached := !((← MonadState.get).graph.incoming convergence).isEmpty
        return (⟨guards.first, if reached then some convergence else none⟩ : Fragment)) [] [] :=
      .get fun _ => .pure _
    dsimp only
    split
    · exact (edge _ _ _).after fun _ => hexit
    · exact hexit

/-! ### Loops and jumps -/

theorem inLoop {label : Option String} {body : Attempt Body Fragment} (h : Saves scope body xs ls) :
    Saves scope (Body.inLoop label body) xs ls := by
  intro b hb v b' hrun
  unfold Body.inLoop at hrun
  rcases hbody : body { b with loops := .ofLabel label :: b.loops } with ⟨out, after⟩
  rw [hbody] at hrun
  cases out with
  | error e => cases hrun
  | ok f =>
    cases hrun
    obtain ⟨hext, hsaved⟩ := h { b with loops := .ofLabel label :: b.loops } hb f after hbody
    exact ⟨⟨hext.slots, hext.vacant⟩, hsaved⟩

theorem resolveJumps (frame : LoopFrame) (leaveTarget nextTarget : NodeId) :
    Saves scope (Body.resolveJumps frame leaveTarget nextTarget) [] [] :=
  (edges _ _ _).after fun _ => edges _ _ _

theorem whileLoop {pos : Position} {label : Option String} {body : Attempt Body Fragment}
    (ht : ∀ x ∈ xs, t.Holds scope x) (hbody : Saves scope body ys ls) :
    Saves scope (Body.whileLoop pos label t body) (xs ++ ys) ls := by
  refine (addTerm ht).bind fun guard => (addPlain _).after fun convergence => ?_
  refine hbody.inLoop.andThen fun out => ?_
  refine (edge _ _ _).after fun _ => (connect _ _).after fun _ => (edge _ _ _).after fun _ => ?_
  exact (resolveJumps _ _ _).after fun _ => .pure _

theorem plainLoop {pos : Position} {label : Option String} {body : Attempt Body Fragment}
    (hbody : Saves scope body xs ls) : Saves scope (Body.plainLoop pos label body) xs ls := by
  refine hbody.inLoop.andThen fun out => (connect _ _).after fun _ => ?_
  split
  · exact (resolveJumps _ _ _).after fun _ => .pure _
  · exact (addPlain _).after fun _ => (resolveJumps _ _ _).after fun _ => .pure _

theorem jump (kind : Jump) (label : Option String) (pos : Position) :
    Saves scope (Body.jump set.scope kind label pos) [] [] := by
  refine .get fun b => ?_
  split
  · exact throw _
  · refine (addPlain _).after fun hop => after ?_ fun _ => .pure _
    exact change (fun _ => rfl) fun _ => rfl

theorem freshName : Saves scope (Body.freshName set) [] [] := by
  intro b hb v b' hrun
  cases hrun
  exact ⟨⟨List.prefix_refl _, hb⟩, by simp⟩

theorem forLoop {pos : Position} {label : Option String} {pat : Pat} {iterable : Expr}
    {body : Attempt Body Fragment} (hbody : Saves set.scope body ys ls) :
    Saves set.scope (Body.forLoop set pos label pat iterable body)
      (iterable.evaluated ++ pat.constants ++ ys) ls := by
  rw [List.append_assoc]
  refine freshName.after fun iterator => ?_
  refine afterContext (fun _ _ _ => holds_lowerExpr) fun source hsource => ?_
  refine (addTerm fun x hx => (hsource x hx).part (List.mem_singleton.2 rfl)).bind fun init => ?_
  refine (onContext _).after fun _ => ?_
  refine afterContext (fun _ _ _ => holds_lowerPat) fun p hp => ?_
  refine (onContext _).after fun _ => .get fun b => ?_
  have hstep : ∀ x ∈ pat.constants, (nextStep b.context iterator p pat.pos).Holds set.scope x := by
    intro x hx
    obtain ⟨u, hu, hholds⟩ := hp x hx
    exact hholds.part (List.mem_append_left _ hu)
  refine (addTerm hstep).bind fun first => (edge _ _ _).after fun _ => ?_
  refine (addPlain _).after fun guard => (edge _ _ _).after fun _ => ?_
  refine (addPlain _).after fun convergence => ?_
  refine hbody.inLoop.andThen fun out => .get fun _ => (addPlain _).after fun step => ?_
  refine (edge _ _ _).after fun _ => (edge _ _ _).after fun _ => (connect _ _).after fun _ => ?_
  exact (edge _ _ _).after fun _ => (resolveJumps _ _ _).after fun _ => .pure _

end Saves

/-! ### Statements and blocks -/

theorem saves_sendTo {sink : Sink} (hsink : sink.Carries scope zs) (ht : ∀ x ∈ xs, t.Holds scope x) :
    Saves scope (sendTo sink t) (xs ++ zs) [] := by
  cases sink with
  | discard =>
    obtain rfl : zs = [] := hsink
    rw [List.append_nil]
    exact .single fun x hx => ⟨t, rfl, ht x hx⟩
  | returned =>
    obtain rfl : zs = [] := hsink
    rw [List.append_nil]
    exact (Saves.add fun x hx => ⟨t, rfl, ht x hx⟩).andThen fun _ => .pure _
  | assigned target =>
    refine .single fun x hx => ⟨_, rfl, ?_⟩
    rcases List.mem_append.1 hx with hx | hx
    · exact (ht x hx).part (List.mem_cons_of_mem _ (List.mem_singleton.2 rfl))
    · exact (hsink x hx).part List.mem_cons_self

theorem saves_plain {sink : Sink} (hsink : sink.Carries set.scope zs) (x : Expr) :
    Saves set.scope (plain set sink x) (x.evaluated ++ zs) [] :=
  .afterContext (fun _ _ _ => holds_lowerExpr) fun _ ht => saves_sendTo hsink ht

/-- The test of an arm holds the pattern, the scrutinee and the guard. -/
theorem holds_armTest {scrutinee : Term} (hscrutinee : ∀ x ∈ xs, scrutinee.Holds set.scope x)
    {pat : Pat} {guard : Option Expr} {c d : Context} {out : Term × Bool}
    (h : armTest set scrutinee pat guard c = (.ok out, d)) :
    ∀ x ∈ pat.constants ++ evaluatedOption guard ++ xs, out.1.Holds set.scope x := by
  obtain ⟨p, c₁, hp, h⟩ := bind_ok h
  obtain ⟨_, c₂, -, h⟩ := bind_ok h
  have htest : ∀ x ∈ pat.constants ++ xs,
      (Term.mk (.test p scrutinee) .bool pat.pos).Holds set.scope x := by
    intro x hx
    rcases List.mem_append.1 hx with hx | hx
    · obtain ⟨u, hu, hholds⟩ := holds_lowerPat hp x hx
      exact hholds.part (List.mem_append_left _ hu)
    · exact (hscrutinee x hx).part (List.mem_append_right _ (List.mem_singleton.2 rfl))
  cases guard with
  | none =>
    cases h
    simpa [evaluatedOption] using htest
  | some e =>
    obtain ⟨extra, c₃, hextra, h⟩ := bind_ok h
    cases h
    intro x hx
    simp only [List.mem_append, evaluatedOption] at hx htest
    rcases hx with (hx | hx) | hx
    · exact (htest x (.inl hx)).part List.mem_cons_self
    · exact (holds_lowerExpr hextra x hx).part (List.mem_cons_of_mem _ (List.mem_singleton.2 rfl))
    · exact (htest x (.inr hx)).part List.mem_cons_self

theorem saves_letPlain {pos : Position} {pat : Pat} {p : Pattern} {ascription : Option String}
    {declared : Option TypeId} {init : Expr}
    (hp : ∀ x ∈ pat.constants, ∃ u ∈ p.terms, u.Holds set.scope x) :
    Saves set.scope (letPlain set pos p ascription declared init)
      (pat.constants ++ init.evaluated) [] := by
  refine .afterContext (fun _ _ _ => holds_lowerExpr) fun value hvalue => ?_
  refine (Saves.onContext _).after fun _ => .single fun x hx => ⟨_, rfl, ?_⟩
  rcases List.mem_append.1 hx with hx | hx
  · obtain ⟨u, hu, hholds⟩ := hp x hx
    exact hholds.part (List.mem_append_left _ hu)
  · exact (hvalue x hx).part (List.mem_append_right _ (List.mem_singleton.2 rfl))

/-- A `let` with control flow binds a single variable, so its pattern has no constants. -/
theorem saves_letFlow {pos : Position} {pat : Pat} {p : Pattern} {ascription : Option String}
    {declared : Option TypeId} {flow : Sink → Attempt Body Fragment}
    (hp : ∀ x ∈ pat.constants, ∃ u ∈ p.terms, u.Holds set.scope x)
    (hflow : ∀ sink, Saves set.scope (flow sink) xs ls) :
    Saves set.scope (letFlow set pos p ascription declared flow) (pat.constants ++ xs) ls := by
  unfold letFlow
  split
  · rename_i v
    have hnone : pat.constants = [] := by
      refine List.eq_nil_iff_forall_not_mem.2 fun x hx => ?_
      obtain ⟨u, hu, -⟩ := hp x hx
      cases hu
    rw [hnone, List.nil_append]
    have hdeclare (type : TypeId) : Saves set.scope (declare (.binding v) ascription type pos) [] [] :=
      .single (by simp)
    refine (hdeclare _).after fun declaration => (hflow _).andThen fun value => ?_
    exact (Saves.onContext _).after fun _ => .chain _ _
  · exact .refuse _ _

theorem saves_returnFlow {pos : Position} {flow : Sink → Attempt Body Fragment}
    (hflow : ∀ sink, Saves set.scope (flow sink) xs ls) :
    Saves set.scope (returnFlow set pos flow) xs ls := by
  unfold returnFlow
  split
  · refine (hflow _).andThen fun value => ?_
    exact (Saves.single (by simp)).after fun _ => .chain _ _
  · exact hflow _

/-- What a branch and those after it save together: each brings what the sink carries, if it
delivers. -/
theorem subset_branches {us vs ws : List Expr} {p q : Bool} :
    us ++ vs ++ ws ++ (if p || q then zs else []) ⊆
      us ++ (vs ++ if p then zs else []) ++ (ws ++ if q then zs else []) := by
  cases p <;> cases q <;> simp [List.subset_def] <;> grind

/-- What an arm and the arms after it save together; the scrutinee is in each test. -/
theorem subset_arms {us vs ws : List Expr} {p q : Bool} :
    us ++ vs ++ ws ++ xs ++ (if p || q then zs else []) ⊆
      us ++ xs ++ (vs ++ if p then zs else []) ++ (ws ++ ys ++ if q then zs else []) := by
  cases p <;> cases q <;> simp [List.subset_def] <;> grind

mutual

/-- **What an expression evaluates is saved**, and so is what the sink carries, if a value is
delivered. -/
theorem saves_lowerFlow (set : Setting) : ∀ (x : Expr) {sink : Sink} {zs : List Expr},
    sink.Carries set.scope zs →
    Saves set.scope (lowerFlow set sink x) (x.evaluated ++ if x.delivers then zs else []) x.lost
  | .branch pos clauses otherwise, sink, zs, hsink => by
    cases clauses with
    | nil =>
      exact Saves.ifNone.weaken (by simp [Expr.evaluated, Expr.isTerm, Expr.isControlFlow,
        evaluatedClauses, Expr.delivers, clausesDeliver]) (by simp)
    | cons clause clauses =>
      have hclauses (convergence : NodeId) : Saves set.scope
          (lowerClauses set sink convergence none (clause :: clauses)) _ _ :=
        saves_lowerClauses set (clause :: clauses) hsink
      cases otherwise with
      | none =>
        refine (Saves.ifOnly hclauses).weaken ?_ (List.subset_append_left _ _)
        refine fun y hy => .inl ?_
        simpa [Expr.evaluated, Expr.isTerm, Expr.isControlFlow, evaluatedOtherwise,
          Expr.delivers, otherwiseDelivers] using hy
      | some body =>
        refine (Saves.ifElse hclauses (fun _ _ _ _ hrun => ?_)
          (saves_lowerBlock set body hsink)).narrow ?_
        · exact Option.isNone_eq_false_iff.1 (isNone_of_lowerClauses hrun)
        · exact @subset_branches zs [] (evaluatedClauses (clause :: clauses)) body.evaluated
            (clausesDeliver (clause :: clauses)) body.delivers
  | .matchOn pos scrutinee arms, sink, zs, hsink => by
    simp only [lowerFlow]
    refine .afterContext (fun _ _ _ => holds_lowerExpr) fun value hvalue => ?_
    refine (Saves.matchChain fun convergence => saves_lowerArms set arms hsink hvalue).weaken ?_
      (List.subset_append_right _ _)
    simp only [Expr.evaluated, Expr.isTerm, Expr.isControlFlow, Expr.delivers, Expr.lost]
    grind
  | .whileLoop pos label condition body, sink, zs, hsink => by
    simp only [lowerFlow]
    split
    · exact .refuse _ _
    · refine .afterContext (fun _ _ _ => holds_lowerExpr) fun guard hguard => ?_
      refine (Saves.whileLoop hguard (saves_lowerBlock set body (Sink.carries_nil _ _))).narrow ?_
      simp [Expr.evaluated, Expr.isTerm, Expr.isControlFlow, Expr.delivers]
  | .loop pos label body, sink, zs, hsink => by
    simp only [lowerFlow]
    split
    · exact .refuse _ _
    · refine (Saves.plainLoop (saves_lowerBlock set body (Sink.carries_nil _ _))).narrow ?_
      simp [Expr.evaluated, Expr.isTerm, Expr.isControlFlow, Expr.delivers]
  | .forLoop pos label pat iterable body, sink, zs, hsink => by
    simp only [lowerFlow]
    split
    · exact .refuse _ _
    · refine (Saves.forLoop (saves_lowerBlock set body (Sink.carries_nil _ _))).narrow ?_
      simp [Expr.evaluated, Expr.isTerm, Expr.isControlFlow, Expr.delivers]
  | .block pos label body, sink, zs, hsink => by
    simp only [lowerFlow]
    split
    · exact .refuse _ _
    · exact saves_lowerBlock set body hsink
  | .unsafeBlock _ body, sink, zs, hsink => by
    exact saves_lowerBlock set body hsink
  | .ret pos none, sink, zs, hsink => by
    exact .single (by simp [Expr.evaluated, Expr.isTerm, Expr.isControlFlow, evaluatedOption,
      Expr.delivers])
  | .ret pos (some e), sink, zs, hsink => by
    have hlists : (Expr.ret pos (some e)).evaluated ++
        (if (Expr.ret pos (some e)).delivers then zs else []) = e.evaluated := by
      simp [Expr.evaluated, Expr.isTerm, Expr.isControlFlow, evaluatedOption, Expr.delivers]
    rw [hlists]
    simp only [lowerFlow]
    split
    · refine saves_returnFlow fun sink => ?_
      exact (saves_lowerFlow set e (Sink.carries_nil _ sink)).narrow (by simp)
    · refine .afterContext (fun _ _ _ => holds_lowerExpr) fun value hvalue => ?_
      refine (Saves.single fun x hx => ⟨value, rfl, hvalue x hx⟩).weaken ?_ (List.nil_subset _)
      exact fun y hy => .inl hy
  | .leave pos label value, sink, zs, hsink => by
    cases value with
    | some e => exact .refuse _ _
    | none => exact .jump _ _ _
  | .next pos label, sink, zs, hsink => by
    exact .jump _ _ _
  | .assign pos target value, sink, zs, hsink => by
    simp only [lowerFlow]
    split
    · rename_i hflow
      rw [Bool.and_eq_true] at hflow
      obtain rfl : zs = [] := by
        cases sink with
        | discard => exact hsink
        | _ => cases hflow.1
      refine .afterContext (fun _ _ _ => holds_lowerExpr) fun t ht => ?_
      have hvalue : Saves set.scope (lowerFlow set (.assigned t) value) _ _ :=
        saves_lowerFlow set value ht
      refine hvalue.weaken ?_ (List.subset_append_right _ _)
      simp only [Expr.evaluated, Expr.isTerm, hflow.2, Expr.lost]
      grind
    · exact (saves_plain hsink _).weaken (fun y hy => .inl hy) (List.nil_subset _)
  | .literal .., sink, zs, hsink | .path .., sink, zs, hsink | .binary .., sink, zs, hsink
  | .compound .., sink, zs, hsink | .unary .., sink, zs, hsink | .borrow .., sink, zs, hsink
  | .cast .., sink, zs, hsink | .range .., sink, zs, hsink | .test .., sink, zs, hsink
  | .index .., sink, zs, hsink | .tupleField .., sink, zs, hsink | .field .., sink, zs, hsink
  | .methodCall .., sink, zs, hsink | .call .., sink, zs, hsink | .structLit .., sink, zs, hsink
  | .tuple .., sink, zs, hsink | .array .., sink, zs, hsink | .arrayRepeat .., sink, zs, hsink
  | .paren .., sink, zs, hsink | .macroCall .., sink, zs, hsink | .other .., sink, zs, hsink
  | .verbatim .., sink, zs, hsink => by
    exact saves_plain hsink _

theorem saves_lowerBlock (set : Setting) : ∀ (body : Block) {sink : Sink} {zs : List Expr},
    sink.Carries set.scope zs →
    Saves set.scope (lowerBlock set sink body) (body.evaluated ++ if body.delivers then zs else [])
      body.lost
  | .mk pos stmts, sink, zs, hsink => by
    refine (saves_lowerStmts set stmts hsink).andThen fun out => ?_
    cases out with
    | some fragment => exact .pure _
    | none => exact .single (by simp)

theorem saves_lowerStmts (set : Setting) : ∀ (stmts : List Stmt) {sink : Sink} {zs : List Expr}
    {current : Option Fragment}, sink.Carries set.scope zs →
    Saves set.scope (lowerStmts set sink current stmts)
      (evaluatedStmts stmts ++ if stmtsDeliver stmts then zs else []) (lostStmts stmts)
  | [], sink, zs, current, hsink => by
    exact .pure _
  | s :: stmts, sink, zs, current, hsink => by
    have hrest : ∀ out : Option Fragment, Saves set.scope (match out with
        | some fragment => do
          let joined ← chain current fragment
          lowerStmts set sink (some joined) stmts
        | none => lowerStmts set sink current stmts)
        (evaluatedStmts stmts ++ if stmtsDeliver stmts then zs else []) (lostStmts stmts) := by
      intro out
      cases out with
      | none => exact saves_lowerStmts set stmts hsink
      | some fragment => exact (Saves.chain _ _).after fun _ => saves_lowerStmts set stmts hsink
    simp only [lowerStmts]
    by_cases hlast : stmts = []
    · subst hlast
      exact ((saves_lowerStmt set s hsink).bind hrest).narrow (by simp [evaluatedStmts, stmtsDeliver])
    · rw [if_neg (by simpa using hlast)]
      refine ((saves_lowerStmt set s (Sink.carries_nil _ _)).bind hrest).narrow ?_
      simp [evaluatedStmts, stmtsDeliver, hlast]

theorem saves_lowerStmt (set : Setting) : ∀ (s : Stmt) {sink : Sink} {zs : List Expr},
    sink.Carries set.scope zs →
    Saves set.scope (lowerStmt set sink s) (s.evaluated ++ if s.delivers then zs else []) s.lost
  | .bind pos pat ascription none diverges, sink, zs, hsink => by
    have hlists : (Stmt.bind pos pat ascription none diverges).evaluated ++
        (if (Stmt.bind pos pat ascription none diverges).delivers then zs else []) =
        pat.constants := by
      simp [Stmt.evaluated, evaluatedOption, Stmt.delivers]
    rw [hlists]
    refine (Saves.onContext _).after fun declared => ?_
    refine .afterContext (fun _ _ _ => holds_lowerPat) fun p hp => .get fun b => ?_
    refine (Saves.onContext _).after fun _ => (Saves.single fun x hx => ⟨_, rfl, ?_⟩).map
    obtain ⟨u, hu, hholds⟩ := hp x hx
    exact hholds.part (List.mem_append_left _ hu)
  | .bind pos pat ascription (some e) diverges, sink, zs, hsink => by
    have hlists : (Stmt.bind pos pat ascription (some e) diverges).evaluated ++
        (if (Stmt.bind pos pat ascription (some e) diverges).delivers then zs else []) =
        pat.constants ++ e.evaluated := by
      simp [Stmt.evaluated, evaluatedOption, Stmt.delivers]
    rw [hlists]
    simp only [lowerStmt]
    refine (Saves.onContext _).after fun declared => ?_
    refine .afterContext (fun _ _ _ => holds_lowerPat) fun p hp => .get fun b => ?_
    split
    · exact .refuse _ _
    · split
      · refine (saves_letFlow hp fun sink => ?_).map
        exact (saves_lowerFlow set e (Sink.carries_nil _ sink)).narrow (by simp)
      · exact ((saves_letPlain hp).weaken (fun y hy => .inl hy) (List.nil_subset _)).map
  | .expr e semi, sink, zs, hsink => by
    cases semi with
    | false => exact (saves_lowerFlow set e hsink).map
    | true =>
      refine ((saves_lowerFlow set e (Sink.carries_nil _ _)).narrow ?_).map
      simp [Stmt.evaluated, Stmt.delivers]
  | .useDecl, sink, zs, hsink => by
    exact .pure _
  | .item pos, sink, zs, hsink => by
    exact .refuse _ _

theorem saves_lowerClauses (set : Setting) : ∀ (clauses : List Clause) {sink : Sink}
    {zs : List Expr} {convergence : NodeId} {pending : Option NodeId}, sink.Carries set.scope zs →
    Saves set.scope (lowerClauses set sink convergence pending clauses)
      (evaluatedClauses clauses ++ if clausesDeliver clauses then zs else []) (lostClauses clauses)
  | [], sink, zs, convergence, pending, hsink => by
    exact .pure _
  | .mk condition body :: clauses, sink, zs, convergence, pending, hsink => by
    refine .afterContext (fun _ _ _ => holds_lowerExpr) fun test htest => ?_
    refine ((Saves.guarded htest (saves_lowerBlock set body hsink)).bind fun guard =>
      (saves_lowerClauses set clauses hsink).andThen fun others => .pure _).narrow ?_
    exact subset_branches

theorem saves_lowerArms (set : Setting) : ∀ (arms : List Arm) {sink : Sink} {zs : List Expr}
    {convergence : NodeId} {pending : Option NodeId} {scrutinee : Term} {xs : List Expr},
    sink.Carries set.scope zs → (∀ x ∈ xs, scrutinee.Holds set.scope x) →
    Saves set.scope (lowerArms set sink convergence scrutinee pending arms)
      (evaluatedArms arms ++ (if arms.isEmpty then [] else xs) ++ if armsDeliver arms then zs else [])
      (lostArms arms)
  | [], sink, zs, convergence, pending, scrutinee, xs, hsink, hscrutinee => by
    exact .pure _
  | .mk pat extra body :: arms, sink, zs, convergence, pending, scrutinee, xs, hsink, hscrutinee => by
    refine .afterContext (fun _ _ _ => holds_armTest hscrutinee) fun out htest => ?_
    obtain ⟨test, exhaustive⟩ := out
    refine ((Saves.guarded htest (saves_lowerFlow set body hsink)).bind fun guard =>
      (saves_lowerArms set arms hsink hscrutinee).andThen fun others => .pure _).narrow ?_
    exact subset_arms

end

end Body

namespace Cfg

/-- **Calls that are evaluated are in the graph.**  Each call of a function, a method or a
macro that an accepted body evaluates stands in the term of a node, unless it is lost with
the scrutinee of a `match` without arms or with a target that no value is assigned to. -/
theorem lowerBody_records {config : Config} {scope : Scope} {sig : Signature} {body : Block}
    {arena : Arena} {f : Fragment} {b : Body}
    (h : lowerBody config scope sig body arena = (.ok f, b)) :
    ∀ x ∈ body.evaluated, x.isCall = true → x ∈ body.lost ∨
      ∃ (n : NodeId) (s : Statement) (t u : Term),
        b.graph.node? n = some s ∧ s.term? = some t ∧ u.Within t ∧ u.IsCallOf x := by
  intro x hx hcall
  have hsaves := Body.saves_lowerBlock ⟨scope, config.freshStem, sig.returnsUnit⟩ body
    (Sink.carries_nil scope (if sig.returnsUnit then .discard else .returned))
  obtain ⟨-, hrecords⟩ := hsaves (.start (sig.context arena)) rfl f b h
  rcases hrecords x (List.mem_append_left _ hx) with hlost | ⟨n, s, t, hn, hs, u, c, d, hu, hrun⟩
  · exact .inl hlost
  · exact .inr ⟨n, s, t, u, hn, hs, hu, (isCallOf_lowerExpr hcall u d hrun).2⟩

/-- A call `name()`. -/
def callOf (name : String) : Expr :=
  .call default (.path default ⟨default, false, false, [], ⟨name, false⟩, name⟩) []

/-- `{ v[f()] = match g() { 0 => h(), _ => return }; }` -/
def assignedMatch : Block :=
  let target : Expr :=
    .index default (.path default ⟨default, false, false, [], ⟨"v", false⟩, "v"⟩) (callOf "f")
  .mk default [.expr (.assign default target (.matchOn default (callOf "g")
    [.mk (.literal default (.int false 0 "")) none (callOf "h"),
      .mk (.wild default) none (.ret default none)])) true]

/-- `fn p() {}` -/
def procedure : Signature := ⟨"p", ⟨0⟩, default, [], .unit, none⟩

/-- All three calls are in the graph, the one in the target as well. -/
theorem lowerBody_records_assignedMatch :
    ∃ f b, lowerBody {} ⟨⟨0⟩, none, [], true, "a.rs"⟩ procedure assignedMatch .empty = (.ok f, b) ∧
      ∀ name ∈ ["f", "g", "h"], ∃ (n : NodeId) (s : Statement) (t u : Term),
        b.graph.node? n = some s ∧ s.term? = some t ∧ u.Within t ∧ u.IsCallOf (callOf name) := by
  have hok : (lowerBody {} ⟨⟨0⟩, none, [], true, "a.rs"⟩ procedure assignedMatch .empty).1.isOk =
      true := by decide +kernel
  rcases hrun : lowerBody {} ⟨⟨0⟩, none, [], true, "a.rs"⟩ procedure assignedMatch .empty with
    ⟨e | f, b⟩
  · rw [hrun] at hok
    cases hok
  · refine ⟨f, b, rfl, fun name hname => ?_⟩
    have hmem : callOf name ∈ assignedMatch.evaluated := by
      simp only [List.mem_cons, List.not_mem_nil, or_false] at hname
      rcases hname with rfl | rfl | rfl <;> simp [assignedMatch, callOf, Block.evaluated,
        evaluatedStmts, Stmt.evaluated, Expr.evaluated, evaluatedArms, Expr.isTerm,
        Expr.isControlFlow]
    exact (lowerBody_records hrun (callOf name) hmem rfl).resolve_left List.not_mem_nil

/-- `{ match f() {} }` -/
def armlessMatch : Block := .mk default [.expr (.matchOn default (callOf "f") []) false]

/-- `{ v[f()] = {}; }` -/
def emptyAssignment : Block :=
  let target : Expr :=
    .index default (.path default ⟨default, false, false, [], ⟨"v", false⟩, "v"⟩) (callOf "f")
  .mk default [.expr (.assign default target (.block default none (.mk default []))) true]

/-- **Not every call is in the graph**: these two bodies are accepted, and none of their nodes
has a term. -/
theorem lowerBody_dropsCalls :
    callOf "f" ∈ armlessMatch.evaluated ∧ callOf "f" ∈ emptyAssignment.evaluated ∧
    ∀ body ∈ [armlessMatch, emptyAssignment],
      let (out, b) := lowerBody {} ⟨⟨0⟩, none, [], true, "a.rs"⟩ procedure body .empty
      out.isOk = true ∧ (b.graph.slots.all fun slot => (slot.bind Statement.term?).isNone) = true := by
  refine ⟨List.mem_cons_self, ?_, by decide +kernel⟩
  simp [emptyAssignment, callOf, Block.evaluated, evaluatedStmts, Stmt.evaluated, Expr.evaluated,
    Expr.isTerm, Expr.isControlFlow]

end Cfg

end RustFlow
