/-
# Initializers with branches assign their target once

The value of a `let` or of an assignment may be a nest of blocks, `if`s and `match`es.  It is
lowered as control flow, and each value that a branch ends with is assigned to the target in a
node of its own.  `Expr.endings` lists how such a nest can end: with a value, with a `return`, or
because no arm of a `match` takes the scrutinee.  The last is foreseen wherever the last arm may
fail, whether or not the arms together are exhaustive: the false edge of its test leads past the
`match`.

By induction over the syntax the endings have their marks in the graph (`Marks.Label`), and a
crossing of the fragment passes exactly one node that assigns, or none where it passes a branch
that returns or an edge on which all arms were missed (`Body.Settles`).
-/

import RustFlow.Proofs.Crossings
import RustFlow.Proofs.Drawing
import RustFlow.Proofs.Traces

namespace RustFlow

open Attempt

/-! ### How a nest ends -/

namespace Ast

/-- The ways in which control reaches the end of a nest: values at the ends of branches,
`return`s there, and last arms that may fail. -/
structure Endings where
  values : List Expr
  returns : List Expr
  misses : List Arm

instance : Append Endings :=
  ⟨fun E F => ⟨E.values ++ F.values, E.returns ++ F.returns, E.misses ++ F.misses⟩⟩

theorem Endings.append_nil (E : Endings) : E ++ ⟨[], [], []⟩ = E := by
  show Endings.mk (E.values ++ []) (E.returns ++ []) (E.misses ++ []) = E
  simp only [List.append_nil]

/-- The last arm of a `match`, if it may fail. -/
def lastMiss (arms : List Arm) : List Arm := arms.getLast?.toList.filter fun arm => !arm.takesAll

mutual

/-- Whether an expression is a nest of blocks with a tail, `if`s with an `else` and `match`es with
an arm, around expressions of other kinds. -/
def Expr.yields : Expr → Bool
  | .branch _ clauses otherwise =>
    !clauses.isEmpty && clausesYield clauses && otherwiseYields otherwise
  | .matchOn _ _ arms => !arms.isEmpty && armsYield arms
  | .block _ _ body | .unsafeBlock _ body => body.yields
  | _ => true

def Block.yields : Block → Bool
  | .mk _ stmts => stmtsYield stmts

/-- The tail of a block is its last statement. -/
def stmtsYield : List Stmt → Bool
  | [] => false
  | s :: stmts => if stmts.isEmpty then s.yields else stmtsYield stmts

def Stmt.yields : Stmt → Bool
  | .expr e semi => !semi && e.yields
  | .bind .. | .useDecl | .item _ => false

def clausesYield : List Clause → Bool
  | [] => true
  | .mk _ body :: clauses => body.yields && clausesYield clauses

def otherwiseYields : Option Block → Bool
  | none => false
  | some body => body.yields

def armsYield : List Arm → Bool
  | [] => true
  | .mk _ _ body :: arms => body.yields && armsYield arms

end

mutual

/-- The endings of a nest, in the order of the text. -/
def Expr.endings : Expr → Endings
  | .branch _ clauses otherwise => endingsClauses clauses ++ endingsOtherwise otherwise
  | .matchOn _ _ arms => endingsArms arms ++ ⟨[], [], lastMiss arms⟩
  | .block _ _ body | .unsafeBlock _ body => body.endings
  | .ret pos value => ⟨[], [.ret pos value], []⟩
  | .leave .. | .next .. => ⟨[], [], []⟩
  | e => ⟨[e], [], []⟩

def Block.endings : Block → Endings
  | .mk _ stmts => endingsStmts stmts

def endingsStmts : List Stmt → Endings
  | [] => ⟨[], [], []⟩
  | s :: stmts => if stmts.isEmpty then s.endings else endingsStmts stmts

def Stmt.endings : Stmt → Endings
  | .expr e _ => e.endings
  | .bind .. | .useDecl | .item _ => ⟨[], [], []⟩

def endingsClauses : List Clause → Endings
  | [] => ⟨[], [], []⟩
  | .mk _ body :: clauses => body.endings ++ endingsClauses clauses

def endingsOtherwise : Option Block → Endings
  | none => ⟨[], [], []⟩
  | some body => body.endings

def endingsArms : List Arm → Endings
  | [] => ⟨[], [], []⟩
  | .mk _ _ body :: arms => body.endings ++ endingsArms arms

end

/-- The value that a `let` or an assignment gives its target. -/
def Stmt.initializer? : Stmt → Option Expr
  | .bind _ _ _ init _ => init
  | .expr (.assign _ _ value) _ => some value
  | _ => none

/-- What a `let` or an assignment gives a value: the variable, with the type it is ascribed, or
what the left side becomes. -/
def Stmt.Targets (set : Setting) (target : Term) : Stmt → Prop
  | .bind pos pat ascription _ _ => ∃ v declared c₀ c₁ c₂ c₃,
    Body.resolveAscription set ascription c₀ = (.ok declared, c₁) ∧
      set.scope.lowerPat pat c₂ = (.ok (.binding v), c₃) ∧
      target = .mk (.var v) (declared.getD .unknown) pos
  | .expr (.assign _ left _) _ => ∃ c c', set.scope.lowerExpr left c = (.ok target, c')
  | _ => False

end Ast

open Ast

/-! ### Marks of endings -/

/-- A node that assigns what an expression becomes to a target. -/
def Graph.AssignsAt (g : Graph) (scope : Scope) (target : Term) (e : Expr) (n : NodeId) : Prop :=
  ∃ t c c', scope.lowerExpr e c = (.ok t, c') ∧
    g.node? n = some (.ofTerm (.mk (.assign target t) .unit t.pos))

/-- The false edge of a node that tests an arm. -/
def Graph.MissedBy (g : Graph) (set : Setting) (arm : Arm) (e : Edge) : Prop :=
  e ∈ g.edges ∧ e.kind = .whenFalse ∧
    ∃ scrutinee t, arm.TestedBy set scrutinee t ∧ g.node? e.source = some (.ofTerm t)

/-- The node where control enters a branch that was lowered on the way to a state. -/
def Body.EnteredAt (b : Body) (set : Setting) (target : Term) (e : Expr) (n : NodeId) : Prop :=
  ∃ b₀ f b₁, Body.lowerFlow set (.assigned target) e b₀ = (.ok f, b₁) ∧ Body.Extends b₁ b ∧
    f.entry = n

/-- Each ending of a nest has its mark, in order. -/
structure Marks.Label (M : Marks) (set : Setting) (target : Term) (b : Body) (E : Endings) :
    Prop where
  assigned : List.Forall₂ (b.graph.AssignsAt set.scope target) E.values M.assigned
  increasing : M.assigned.Pairwise (· < ·)
  returned : List.Forall₂ (b.EnteredAt set target) E.returns M.returned
  missed : List.Forall₂ (b.graph.MissedBy set) E.misses M.missed

namespace Body

open Graph

variable {set : Setting} {target : Term} {b b' b₀ b₁ b₂ : Body} {f p next : Fragment} {c : NodeId}
  {M N : Marks} {E F : Endings}

theorem label_nil : (⟨[], [], []⟩ : Marks).Label set target b ⟨[], [], []⟩ :=
  ⟨.nil, .nil, .nil, .nil⟩

theorem label_later (h : M.Label set target b E) (hb : Sound b) (hx : Extends b b') :
    M.Label set target b' E := by
  refine ⟨?_, h.increasing, h.returned.imp ?_, h.missed.imp ?_⟩
  · refine h.assigned.imp ?_
    rintro e n ⟨t, c, c', hrun, hn⟩
    exact ⟨t, c, c', hrun, (hx.node? n (lt_of_contains (contains_of_node? hn))).trans hn⟩
  · rintro e n ⟨b₀, f, b₁, hrun, hx₁, hn⟩
    exact ⟨b₀, f, b₁, hrun, hx₁.trans hx, hn⟩
  · rintro arm e ⟨he, hk, value, t, ht, hn⟩
    exact ⟨hx.edges e he, hk, value, t, ht, (hx.node? _ (hb.source_lt he)).trans hn⟩

theorem label_append (hM : M.Label set target b E) (hN : N.Label set target b F)
    (hlt : ∀ n ∈ M.assigned, ∀ m ∈ N.assigned, n < m) : (M ++ N).Label set target b (E ++ F) :=
  ⟨List.rel_append hM.assigned hN.assigned,
    List.pairwise_append.2 ⟨hM.increasing, hN.increasing, hlt⟩,
    List.rel_append hM.returned hN.returned, List.rel_append hM.missed hN.missed⟩

theorem assigned_lt {lo mid hi : Nat} (hM : M.Within lo mid) (hN : N.Within mid hi) :
    ∀ n ∈ M.assigned, ∀ m ∈ N.assigned, n < m := fun n hn m hm =>
  Nat.lt_of_lt_of_le (hM.assigned n hn).2 (hN.assigned m hm).1

/-! ### Runs of the combinators -/

theorem Wires.ok {act : Attempt Body Unit} {new : Edge → Prop} {u : Unit} (h : Wires act new)
    (hrun : act b = (.ok u, b')) : Wired new b b' := by
  obtain ⟨b₁, hrun', hw⟩ := h b
  cases hrun.symm.trans hrun'
  exact hw

theorem add_ok (hb : Sound b) {s : Statement} {n : NodeId} (hrun : add s b = (.ok n, b')) :
    n = b.size ∧ b' = b.withNode s := by
  rw [add_run hb.vacant] at hrun
  cases hrun
  exact ⟨rfl, rfl⟩

theorem guarded_ok {pending : Option NodeId} {t : Term} {body : Attempt Body Fragment} {n : NodeId}
    (hb : Sound b) (hrun : guarded c pending t body b = (.ok n, b')) :
    n = b.size ∧ ∃ b₁ taken b₂,
      Wired (fun e => ∃ p, pending = some p ∧ e = ⟨p, b.size, .whenFalse⟩)
        (b.withNode (.ofTerm t)) b₁ ∧
      body b₁ = (.ok taken, b₂) ∧
      Wired (fun e => e = ⟨b.size, taken.entry, .whenTrue⟩ ∨
        ∃ x, taken.exit = some x ∧ e = ⟨x, c, .sequential⟩) b₂ b' := by
  obtain ⟨n', b₀, hadd, hrun⟩ := bind_ok hrun
  obtain ⟨rfl, rfl⟩ := add_ok hb hadd
  -- the test before this one, if any, leads here when it fails
  obtain ⟨b₁, hw₁, hrun⟩ : ∃ b₁,
      Wired (fun e => ∃ p, pending = some p ∧ e = ⟨p, b.size, .whenFalse⟩)
        (b.withNode (.ofTerm t)) b₁ ∧ (do
        let taken ← body
        edge b.size taken.entry .whenTrue
        connect taken.exit c
        return b.size) b₁ = (.ok n, b') := by
    cases pending with
    | none => exact ⟨_, (Wired.refl _).imp fun e => by simp, hrun⟩
    | some p =>
      obtain ⟨_, b₁, hedge, hrun⟩ := bind_ok hrun
      exact ⟨b₁, ((wires_edge _ _ _).ok hedge).imp fun e => by simp, hrun⟩
  obtain ⟨taken, b₂, hbody, hrun⟩ := bind_ok hrun
  obtain ⟨_, b₃, hedge, hrun⟩ := bind_ok hrun
  obtain ⟨_, b₄, hconnect, hrun⟩ := bind_ok hrun
  cases hrun
  exact ⟨rfl, b₁, taken, b₂, hw₁, hbody,
    ((wires_edge _ _ _).ok hedge).trans ((wires_connect _ _).ok hconnect)⟩

theorem ifElse_ok {pos : Position} {clauses : NodeId → Attempt Body (Option Guards)}
    {body : Attempt Body Fragment} (hb : Sound b)
    (hrun : ifChain pos clauses (some body) b = (.ok f, b')) :
    ∃ r b₁, clauses b.size (b.withNode (.noOp pos)) = (.ok r, b₁) ∧ ∀ gs, r = some gs →
      ∃ taken b₂, body b₁ = (.ok taken, b₂) ∧ f = ⟨gs.first, some b.size⟩ ∧
        Wired (fun e => e = ⟨gs.last, taken.entry, .whenFalse⟩ ∨
          ∃ x, taken.exit = some x ∧ e = ⟨x, b.size, .sequential⟩) b₂ b' := by
  obtain ⟨_, _, hadd, hrun⟩ := bind_ok hrun
  obtain ⟨rfl, rfl⟩ := add_ok hb hadd
  obtain ⟨r, b₁, hguards, hrun⟩ := bind_ok hrun
  refine ⟨r, b₁, hguards, ?_⟩
  rintro gs rfl
  obtain ⟨taken, b₂, hbody, hrun⟩ := bind_ok hrun
  obtain ⟨_, b₃, hedge, hrun⟩ := bind_ok hrun
  obtain ⟨_, b₄, hconnect, hrun⟩ := bind_ok hrun
  cases hrun
  exact ⟨taken, b₂, hbody, rfl,
    ((wires_edge _ _ _).ok hedge).trans ((wires_connect _ _).ok hconnect)⟩

theorem matchChain_ok {pos : Position} {sink : Sink}
    {arms : NodeId → Attempt Body (Option (Guards × Bool))} (hsink : sink.isReturned = false)
    (hb : Sound b) (hrun : matchChain pos sink arms b = (.ok f, b')) :
    ∃ r b₁, arms b.size (b.withNode (.noOp pos)) = (.ok r, b₁) ∧ ∀ gs exhaustive,
      r = some (gs, exhaustive) → f.entry = gs.first ∧ (∀ x, f.exit = some x → x = b.size) ∧
        Wired (fun e => (!exhaustive) = true ∧ e = ⟨gs.last, b.size, .whenFalse⟩) b₁ b' := by
  obtain ⟨_, _, hadd, hrun⟩ := bind_ok hrun
  obtain ⟨rfl, rfl⟩ := add_ok hb hadd
  obtain ⟨r, b₁, hguards, hrun⟩ := bind_ok hrun
  refine ⟨r, b₁, hguards, ?_⟩
  rintro gs exhaustive rfl
  have hexit : ∀ (reached : Bool) x, (if reached then some b.size else none) = some x →
      x = b.size := by
    intro reached x hx
    cases reached <;> cases hx
    rfl
  simp only [hsink, Bool.not_false, Bool.and_true] at hrun
  cases exhaustive with
  | true =>
    cases hrun
    exact ⟨rfl, hexit _, (Wired.refl _).imp fun e => by simp⟩
  | false =>
    obtain ⟨_, b₂, hedge, hrun⟩ := bind_ok hrun
    cases hrun
    exact ⟨rfl, hexit _, ((wires_edge _ _ _).ok hedge).imp fun e => by simp⟩

theorem LocalOption.part {m : Attempt Body (Option Fragment)} (h : LocalOption set m) (hb : Sound b)
    (hrun : m b = (.ok (some f), b')) : Part set b b' f := by
  obtain ⟨hg, hf⟩ := h b hb.vacant
  rw [hrun] at hg hf
  exact ⟨hb, hg, hf (some f) rfl f rfl⟩

theorem exit_of_jump {scope : Scope} {kind : Jump} {label : Option String} {pos : Position}
    (hrun : jump scope kind label pos b = (.ok f, b')) : f.exit = none := by
  obtain ⟨_, b₁, hget, hrun⟩ := bind_ok hrun
  cases hget
  cases hloop : targetLoop b.loops label with
  | none =>
    simp only [hloop] at hrun
    cases hrun
  | some i =>
    simp only [hloop] at hrun
    obtain ⟨hop, b₂, -, hrun⟩ := bind_ok hrun
    obtain ⟨_, b₃, -, hrun⟩ := bind_ok hrun
    cases hrun
    rfl

theorem eq_of_lowerStmt_none {sink : Sink} {s : Stmt}
    (hrun : lowerStmt set sink s b = (.ok none, b')) : b' = b := by
  cases s with
  | bind pos pat ascription init diverges =>
    cases init with
    | none =>
      simp only [lowerStmt] at hrun
      obtain ⟨_, _, -, hrun⟩ := bind_ok hrun
      obtain ⟨_, _, -, hrun⟩ := bind_ok hrun
      obtain ⟨_, _, -, hrun⟩ := bind_ok hrun
      obtain ⟨_, _, -, hrun⟩ := bind_ok hrun
      obtain ⟨_, -, hsome⟩ := map_ok hrun
      cases hsome
    | some e =>
      simp only [lowerStmt] at hrun
      obtain ⟨_, _, -, hrun⟩ := bind_ok hrun
      obtain ⟨_, _, -, hrun⟩ := bind_ok hrun
      obtain ⟨_, _, -, hrun⟩ := bind_ok hrun
      split at hrun
      · cases hrun
      · split at hrun <;>
          · obtain ⟨_, -, hsome⟩ := map_ok hrun
            cases hsome
  | expr e semi =>
    rw [lowerStmt] at hrun
    obtain ⟨_, -, hsome⟩ := map_ok hrun
    cases hsome
  | useDecl =>
    cases hrun
    rfl
  | item pos => cases hrun

/-! ### Endings of lowered nests -/

theorem settles_plain (hb : Sound b) {e : Expr}
    (hrun : plain set (.assigned target) e b = (.ok f, b')) :
    ∃ M, Settles b.size b' f M ∧ M.Label set target b' ⟨[e], [], []⟩ := by
  obtain ⟨t, b₁, hcontext, hrun⟩ := bind_ok hrun
  obtain ⟨context, hvalue, rfl⟩ := zoom_ok hcontext
  have hb₁ : Sound { b with context } := hb.of_eq rfl rfl
  cases (single_run hb₁ _).symm.trans hrun
  refine ⟨⟨[b.size], [], []⟩, .single hb₁ _, ⟨.cons ?_ .nil, List.pairwise_singleton _ _, .nil, .nil⟩⟩
  exact ⟨t, b.context, context, hvalue, node?_withNode _ _⟩

/-- What the statements before lead to: nothing so far, or a fragment. -/
def Reached (set : Setting) (b₀ : Body) (current : Option Fragment) (b : Body) : Prop :=
  match current with
  | none => b = b₀
  | some p => Part set b₀ b p

theorem Reached.sound {current : Option Fragment} (h : Reached set b₀ current b) (hb₀ : Sound b₀) :
    Sound b := by
  cases current with
  | none => exact h ▸ hb₀
  | some p => exact Part.sound h

theorem Reached.chain {current : Option Fragment} (h : Reached set b₀ current b)
    (hn : Part set b b₁ next) (hrun : chain current next b₁ = (.ok f, b')) :
    Reached set b₀ (some f) b' := by
  cases current with
  | none =>
    cases hrun
    exact h ▸ hn
  | some p =>
    obtain ⟨_, _, hrun', -, -, -, hpart, -⟩ := @chain_run set False _ _ _ _ _ h hn
    cases hrun.symm.trans hrun'
    exact hpart

theorem settles_chain {current : Option Fragment} (hcurrent : Reached set b₀ current b)
    (hn : Part set b b₁ next) (h : Settles b.size b₁ next M) (hl : M.Label set target b₁ E)
    (hrun : chain current next b₁ = (.ok f, b')) :
    Settles b₀.size b' f M ∧ M.Label set target b' E := by
  cases current with
  | none =>
    obtain rfl : b = b₀ := hcurrent
    cases hrun
    exact ⟨h, hl⟩
  | some p =>
    cases hexit : p.exit with
    | none =>
      simp only [chain, hexit] at hrun
      cases hrun
      exact ⟨h.chain_stuck hcurrent hn hexit, hl⟩
    | some x =>
      simp only [chain, hexit] at hrun
      obtain ⟨_, b₂, hedge, hrun⟩ := bind_ok hrun
      cases hedge
      cases hrun
      exact ⟨h.chain hcurrent hn hexit, label_later hl hn.sound (.withEdge ..)⟩

theorem cascade_guarded {pending : Option NodeId} {t : Term} {body : Attempt Body Fragment}
    {n : NodeId} (hb : Sound b) (hc : b.graph.contains c = true)
    (hpending : ∀ p, pending = some p → b.graph.contains p = true) (hlocal : Local set body)
    (hbody : ∀ {b₁ b₂ taken}, Sound b₁ → body b₁ = (.ok taken, b₂) →
      ∃ M, Settles b₁.size b₂ taken M ∧ M.Label set target b₂ E)
    (hrun : guarded c pending t body b = (.ok n, b')) :
    n = b.size ∧ b'.graph.node? b.size = some (.ofTerm t) ∧
      ∃ M, Cascade b b' c pending b.size M ∧ M.Label set target b' E := by
  obtain ⟨rfl, b₁, taken, b₂, hw₁, htaken, hw₂⟩ := guarded_ok hb hrun
  have hb₁ : Sound b₁ := by
    refine hw₁.sound (hb.withNode _) ?_
    rintro e ⟨p, hp, rfl⟩
    exact ⟨(Extends.withNode b _).contains (hpending p hp), contains_of_node? (node?_withNode b _)⟩
  have hpart := hlocal.part hb₁ htaken
  obtain ⟨M, hM, hl⟩ := hbody hb₁ htaken
  have hlt : b.size < b₁.size := by
    rw [hw₁.size, size_withNode]
    exact Nat.lt_succ_self _
  refine ⟨rfl, ?_, M, .single hb hc hpending hw₁ hpart hM hw₂, label_later hl hpart.sound hw₂.later⟩
  rw [hw₂.node?, hpart.later.node? _ hlt, hw₁.node?, node?_withNode]

mutual

/-- **A nest whose value is assigned has its endings in the graph,** and each crossing of it
assigns the value once or escapes it. -/
theorem settles_lowerFlow (set : Setting) (target : Term) : ∀ (e : Expr) {b b' : Body}
    {f : Fragment}, e.yields = true → Sound b → lowerFlow set (.assigned target) e b = (.ok f, b') →
    ∃ M, Settles b.size b' f M ∧ M.Label set target b' e.endings
  | .branch pos clauses otherwise, b, b', f, hy, hb, hrun => by
    simp only [Expr.yields, Bool.and_eq_true, Bool.not_eq_true', List.isEmpty_eq_false_iff] at hy
    obtain ⟨⟨hne, hclauses⟩, hotherwise⟩ := hy
    cases otherwise with
    | none => cases hotherwise
    | some body =>
      simp only [lowerFlow, lowerOtherwise] at hrun
      obtain ⟨r, b₁, hguards, hrest⟩ := ifElse_ok hb hrun
      rcases cascade_lowerClauses set target clauses hclauses (hb.withNode _)
        (contains_of_node? (node?_withNode b _)) (fun _ h => by cases h) hguards with
        ⟨hnil, -⟩ | ⟨gs, M, rfl, hfirst, hM, hMl⟩
      · exact absurd hnil hne
      · obtain ⟨taken, b₂, hbody, rfl, hw⟩ := hrest gs rfl
        have hn := (local_lowerBlock set body (.assigned target) fun h => by cases h).part hM.sound
          hbody
        obtain ⟨N, hN, hNl⟩ := settles_lowerBlock set target body hotherwise hM.sound hbody
        refine ⟨M ++ N, hfirst ▸ .ifElse hb hM hn hN hw, ?_⟩
        exact label_append (label_later hMl hM.sound (hn.later.trans hw.later))
          (label_later hNl hn.sound hw.later) (assigned_lt hM.within hN.within)
  | .matchOn pos scrutinee arms, b, b', f, hy, hb, hrun => by
    simp only [Expr.yields, Bool.and_eq_true, Bool.not_eq_true', List.isEmpty_eq_false_iff] at hy
    simp only [lowerFlow] at hrun
    obtain ⟨value, b₀, hvalue, hrun⟩ := bind_ok hrun
    obtain ⟨context, -, rfl⟩ := zoom_ok hvalue
    have hb₀ : Sound { b with context } := hb.of_eq rfl rfl
    obtain ⟨r, b₁, hguards, hrest⟩ := matchChain_ok rfl hb₀ hrun
    rcases cascade_lowerArms set target arms hy.2 (hb₀.withNode _)
      (contains_of_node? (node?_withNode _ _)) (fun _ h => by cases h) hguards with
      ⟨hnil, -⟩ | ⟨gs, arm, t, M, rfl, hfirst, hlast, ht, hnode, hM, hMl⟩
    · exact absurd hnil hy.1
    · obtain ⟨hentry, hexit, hw⟩ := hrest gs _ rfl
      obtain ⟨entry, exit⟩ := f
      obtain rfl : entry = _ := hentry.trans hfirst
      refine ⟨_, .matchChain hb₀ hM hexit hw, ?_⟩
      refine label_append (label_later hMl hM.sound hw.later) ⟨.nil, .nil, .nil, ?_⟩
        fun _ _ _ hm => by cases hm
      rw [lastMiss, hlast, Option.toList_some]
      cases hall : arm.takesAll with
      | true => simp [hall]
      | false =>
        have hedge := (hw.mem_edges ⟨gs.last, b.size, .whenFalse⟩).2 (.inr ⟨by simp [hall], rfl⟩)
        have hnode' := (hw.node? gs.last).trans hnode
        simpa [hall] using ⟨hedge, rfl, value, t, ht, hnode'⟩
  | .block pos label body, b, b', f, hy, hb, hrun => by
    simp only [lowerFlow] at hrun
    split at hrun
    · cases hrun
    · exact settles_lowerBlock set target body hy hb hrun
  | .unsafeBlock pos body, b, b', f, hy, hb, hrun => by
    simp only [lowerFlow] at hrun
    exact settles_lowerBlock set target body hy hb hrun
  | .ret pos value, b, b', f, hy, hb, hrun => by
    have hpart := (local_lowerFlow set (.ret pos value) (.assigned target) fun h => by cases h).part
      hb hrun
    refine ⟨_, .returning hpart, .nil, .nil, .cons ?_ .nil, .nil⟩
    exact ⟨b, f, b', hrun, .refl b', rfl⟩
  | .leave pos label value, b, b', f, hy, hb, hrun => by
    have hpart := (local_lowerFlow set (.leave pos label value) (.assigned target)
      fun h => by cases h).part hb hrun
    simp only [lowerFlow] at hrun
    split at hrun
    · cases hrun
    · exact ⟨_, .stuck hpart (exit_of_jump hrun), label_nil⟩
  | .next pos label, b, b', f, hy, hb, hrun => by
    have hpart := (local_lowerFlow set (.next pos label) (.assigned target)
      fun h => by cases h).part hb hrun
    simp only [lowerFlow] at hrun
    exact ⟨_, .stuck hpart (exit_of_jump hrun), label_nil⟩
  | .whileLoop .., b, b', f, hy, hb, hrun | .loop .., b, b', f, hy, hb, hrun
  | .forLoop .., b, b', f, hy, hb, hrun => by
    simp only [lowerFlow, Sink.isAssigned] at hrun
    cases hrun
  | .assign .., b, b', f, hy, hb, hrun => by
    simp only [lowerFlow, Sink.isDiscard, Bool.false_and, Bool.false_eq_true, if_false] at hrun
    exact settles_plain hb hrun
  | .literal .., b, b', f, hy, hb, hrun | .path .., b, b', f, hy, hb, hrun
  | .binary .., b, b', f, hy, hb, hrun | .compound .., b, b', f, hy, hb, hrun
  | .unary .., b, b', f, hy, hb, hrun | .borrow .., b, b', f, hy, hb, hrun
  | .cast .., b, b', f, hy, hb, hrun | .range .., b, b', f, hy, hb, hrun
  | .test .., b, b', f, hy, hb, hrun | .index .., b, b', f, hy, hb, hrun
  | .tupleField .., b, b', f, hy, hb, hrun | .field .., b, b', f, hy, hb, hrun
  | .methodCall .., b, b', f, hy, hb, hrun | .call .., b, b', f, hy, hb, hrun
  | .structLit .., b, b', f, hy, hb, hrun | .tuple .., b, b', f, hy, hb, hrun
  | .array .., b, b', f, hy, hb, hrun | .arrayRepeat .., b, b', f, hy, hb, hrun
  | .paren .., b, b', f, hy, hb, hrun | .macroCall .., b, b', f, hy, hb, hrun
  | .other .., b, b', f, hy, hb, hrun | .verbatim .., b, b', f, hy, hb, hrun => by
    simp only [lowerFlow] at hrun
    exact settles_plain hb hrun

theorem settles_lowerBlock (set : Setting) (target : Term) : ∀ (body : Block) {b b' : Body}
    {f : Fragment}, body.yields = true → Sound b →
    lowerBlock set (.assigned target) body b = (.ok f, b') →
    ∃ M, Settles b.size b' f M ∧ M.Label set target b' body.endings
  | .mk pos stmts, b, b', f, hy, hb, hrun => by
    simp only [lowerBlock] at hrun
    obtain ⟨r, b₁, hstmts, hrun⟩ := bind_ok hrun
    have hstart : Reached set b none b := rfl
    obtain ⟨f', M, rfl, hM⟩ := settles_lowerStmts set target stmts hy hb hstart hstmts
    cases hrun
    exact ⟨M, hM⟩

theorem settles_lowerStmts (set : Setting) (target : Term) : ∀ (stmts : List Stmt) {b₀ b b' : Body}
    {current r : Option Fragment}, stmtsYield stmts = true → Sound b₀ → Reached set b₀ current b →
    lowerStmts set (.assigned target) current stmts b = (.ok r, b') →
    ∃ f M, r = some f ∧ Settles b₀.size b' f M ∧ M.Label set target b' (endingsStmts stmts)
  | [], _, _, _, _, _, hy, _, _, _ => by cases hy
  | [s], b₀, b, b', current, r, hy, hb₀, hcurrent, hrun => by
    have hb := hcurrent.sound hb₀
    cases s with
    | expr e semi =>
      simp only [stmtsYield, Stmt.yields, List.isEmpty_nil, if_true, Bool.and_eq_true,
        Bool.not_eq_true'] at hy
      obtain ⟨rfl, hy⟩ := hy
      simp only [lowerStmts, lowerStmt, List.isEmpty_nil, if_true, Bool.false_eq_true,
        if_false] at hrun
      obtain ⟨r, b₁, hstmt, hrun⟩ := bind_ok hrun
      obtain ⟨next, hflow, rfl⟩ := map_ok hstmt
      obtain ⟨f, b₂, hchain, hrun⟩ := bind_ok hrun
      cases hrun
      obtain ⟨M, hM, hMl⟩ := settles_lowerFlow set target e hy hb hflow
      have hn := (local_lowerFlow set e (.assigned target) fun h => by cases h).part hb hflow
      exact ⟨f, M, rfl, settles_chain hcurrent hn hM hMl hchain⟩
    | _ => cases hy
  | s :: s' :: rest, b₀, b, b', current, r, hy, hb₀, hcurrent, hrun => by
    have hb := hcurrent.sound hb₀
    rw [lowerStmts] at hrun
    obtain ⟨r', b₁, hstmt, hrest⟩ := bind_ok hrun
    cases r' with
    | none =>
      cases eq_of_lowerStmt_none hstmt
      exact settles_lowerStmts set target (s' :: rest) hy hb₀ hcurrent hrest
    | some next =>
      obtain ⟨joined, b₂, hchain, hrest⟩ := bind_ok hrest
      have hn := (local_lowerStmt set (fun h => by cases h) s).part hb hstmt
      exact settles_lowerStmts set target (s' :: rest) hy hb₀ (hcurrent.chain hn hchain) hrest

theorem cascade_lowerClauses (set : Setting) (target : Term) : ∀ (clauses : List Clause)
    {b b' : Body} {c : NodeId} {pending : Option NodeId} {r : Option Guards},
    clausesYield clauses = true → Sound b → b.graph.contains c = true →
    (∀ p, pending = some p → b.graph.contains p = true) →
    lowerClauses set (.assigned target) c pending clauses b = (.ok r, b') →
    (clauses = [] ∧ r = none ∧ b' = b) ∨ ∃ gs M, r = some gs ∧ gs.first = b.size ∧
      Cascade b b' c pending gs.last M ∧ M.Label set target b' (endingsClauses clauses)
  | [], _, _, _, _, _, _, _, _, _, hrun => by
    cases hrun
    exact .inl ⟨rfl, rfl, rfl⟩
  | .mk condition body :: rest, b, b', c, pending, r, hy, hb, hc, hpending, hrun => by
    simp only [clausesYield, Bool.and_eq_true] at hy
    simp only [lowerClauses] at hrun
    obtain ⟨t, b₀, htest, hrun⟩ := bind_ok hrun
    obtain ⟨context, -, rfl⟩ := zoom_ok htest
    have hb₀ : Sound { b with context } := hb.of_eq rfl rfl
    obtain ⟨n, b₁, hguard, hrun⟩ := bind_ok hrun
    obtain ⟨rfl, hnode, M, hM, hMl⟩ := cascade_guarded hb₀ hc hpending
      (local_lowerBlock set body (.assigned target) fun h => by cases h)
      (settles_lowerBlock set target body hy.1) hguard
    obtain ⟨others, b₂, hothers, hrun⟩ := bind_ok hrun
    cases hrun
    have hM := hM.of_eq (b := b) rfl rfl
    refine .inr ?_
    rcases cascade_lowerClauses set target rest hy.2 hM.sound (hM.later.contains hc)
      (fun p hp => Option.some.inj hp ▸ contains_of_node? hnode) hothers with
      ⟨rfl, rfl, rfl⟩ | ⟨gs, N, rfl, -, hN, hNl⟩
    · refine ⟨_, M, rfl, rfl, hM, ?_⟩
      rw [endingsClauses, endingsClauses, Endings.append_nil]
      exact hMl
    · refine ⟨_, M ++ N, rfl, rfl, hM.append (lt_of_contains hc) hN, ?_⟩
      exact label_append (label_later hMl hM.sound hN.later) hNl (assigned_lt hM.within hN.within)

theorem cascade_lowerArms (set : Setting) (target : Term) {value : Term} : ∀ (arms : List Arm)
    {b b' : Body} {c : NodeId} {pending : Option NodeId} {r : Option (Guards × Bool)},
    armsYield arms = true → Sound b → b.graph.contains c = true →
    (∀ p, pending = some p → b.graph.contains p = true) →
    lowerArms set (.assigned target) c value pending arms b = (.ok r, b') →
    (arms = [] ∧ r = none ∧ b' = b) ∨ ∃ gs arm t M, r = some (gs, arm.takesAll) ∧
      gs.first = b.size ∧ arms.getLast? = some arm ∧ arm.TestedBy set value t ∧
      b'.graph.node? gs.last = some (.ofTerm t) ∧
      Cascade b b' c pending gs.last M ∧ M.Label set target b' (endingsArms arms)
  | [], _, _, _, _, _, _, _, _, _, hrun => by
    cases hrun
    exact .inl ⟨rfl, rfl, rfl⟩
  | .mk pat extra body :: rest, b, b', c, pending, r, hy, hb, hc, hpending, hrun => by
    simp only [armsYield, Bool.and_eq_true] at hy
    simp only [lowerArms] at hrun
    obtain ⟨⟨t, exhaustive⟩, b₀, hcontext, hrun⟩ := bind_ok hrun
    obtain ⟨context, htest, rfl⟩ := zoom_ok hcontext
    have hb₀ : Sound { b with context } := hb.of_eq rfl rfl
    obtain ⟨n, b₁, hguard, hrun⟩ := bind_ok hrun
    obtain ⟨rfl, hnode, M, hM, hMl⟩ := cascade_guarded hb₀ hc hpending
      (local_lowerFlow set body (.assigned target) fun h => by cases h)
      (settles_lowerFlow set target body hy.1) hguard
    obtain ⟨others, b₂, hothers, hrun⟩ := bind_ok hrun
    cases hrun
    have hM := hM.of_eq (b := b) rfl rfl
    refine .inr ?_
    rcases cascade_lowerArms set target rest hy.2 hM.sound (hM.later.contains hc)
      (fun p hp => Option.some.inj hp ▸ contains_of_node? hnode) hothers with
      ⟨rfl, rfl, rfl⟩ | ⟨gs, arm, t', N, rfl, -, hlast, ht, hnode', hN, hNl⟩
    · refine ⟨_, .mk pat extra body, t, M, by rw [← eq_takesAll_of_armTest htest], rfl, rfl,
        testedBy_of_run htest, hnode, hM, ?_⟩
      rw [endingsArms, endingsArms, Endings.append_nil]
      exact hMl
    · refine ⟨⟨b.size, gs.last⟩, arm, t', M ++ N, rfl, rfl, ?_, ht, hnode',
        hM.append (lt_of_contains hc) hN, ?_⟩
      · rw [List.getLast?_cons, hlast]
        rfl
      · exact label_append (label_later hMl hM.sound hN.later) hNl
          (assigned_lt hM.within hN.within)

end

/-! ### Routes through an initializer -/

theorem Part.route_inside (h : Part set b b' f) {n x : NodeId} {w : List Edge}
    (hr : Route b'.graph n w x) (hn : Between b.size b'.size n) :
    ∀ e ∈ w, Between b.size b'.size e.source := by
  induction hr with
  | nil => simp
  | cons he _ ih => exact List.forall_mem_cons.2 ⟨hn, ih (h.target_inside he hn.1)⟩

/-- A route to the exit of a fragment assigns the value once or escapes it: an edge from the exit
to a new node makes it a crossing. -/
theorem Settles.route (h : Settles b.size b' f M) (hpart : Part set b b' f)
    (hmissed : ∀ e ∈ M.missed, e ∈ b'.graph.edges) {x : NodeId} {w : List Edge}
    (hx : f.exit = some x) (hr : Route b'.graph f.entry w x) :
    M.Once (w.map Edge.source ++ [x]) w := by
  have hcross : Crosses (b'.withEdge x b'.size .sequential).graph b.size b'.size f.entry
      (w ++ [⟨x, b'.size, .sequential⟩]) b'.size := by
    refine ⟨?_, ?_, fun hin => Nat.lt_irrefl _ hin.2⟩
    · refine (hr.mono fun e he => List.mem_cons_of_mem _ he).append ?_
      exact route_cons_iff.2 ⟨List.mem_cons_self, rfl, .nil _⟩
    · refine List.forall_mem_append.2 ⟨hpart.route_inside hr hpart.entry_inside, ?_⟩
      exact List.forall_mem_singleton.2 (hpart.exit_inside hx)
  have honce := h.once _ (fun e he _ => ?_) _ _ hcross
  · have hnew : ⟨x, b'.size, .sequential⟩ ∉ M.missed := fun hmem =>
      Nat.lt_irrefl _ (hpart.sound.target_lt (hmissed _ hmem))
    simpa [Marks.Once, Marks.Escapes, or_and_right, exists_or, hnew] using honce
  · rcases mem_edges_withEdge.1 he with rfl | hold
    · exact .inr ⟨hx, fun hin => Nat.lt_irrefl _ hin.2⟩
    · exact .inl hold

/-- A `let` with control flow: the variable is declared before the nest. -/
theorem settles_letFlow {pos : Position} {q : Pattern} {text : Option String}
    {declared : Option TypeId} {e : Expr} (hy : e.yields = true) (hb : Sound b)
    (hrun : letFlow set pos q text declared (fun sink => lowerFlow set sink e) b = (.ok f, b')) :
    ∃ v M, q = .binding v ∧ Part set b b' f ∧ Settles b.size b' f M ∧
      M.Label set (.mk (.var v) (declared.getD .unknown) pos) b' e.endings := by
  cases q with
  | binding v =>
    obtain ⟨declaration, b₁, hdeclare, hrun⟩ := bind_ok hrun
    obtain ⟨value, b₂, hflow, hrun⟩ := bind_ok hrun
    obtain ⟨_, b₃, hbind, hrun⟩ := bind_ok hrun
    cases hbind
    have hp : Reached set b (some declaration) b₁ :=
      (local_single (set.allows_ofTerm _) rfl).part hb hdeclare
    have hb₁ := hp.sound hb
    have hn := (local_lowerFlow set e (.assigned _) fun h => by cases h).part hb₁ hflow
    obtain ⟨M, hM, hMl⟩ := settles_lowerFlow set _ e hy hb₁ hflow
    -- binding the variable leaves the graph alone
    have hn' : Part set b₁ { b₂ with context := b₂.context.bind v (declared.getD .unknown) } value :=
      hn.of_eq rfl rfl
    obtain ⟨hM', hMl'⟩ := settles_chain hp hn' ⟨hM.within, hM.once⟩
      (label_later hMl hn.sound (.of_eq rfl rfl)) hrun
    exact ⟨v, M, rfl, hp.chain hn' hrun, hM', hMl'⟩
  | _ => cases hrun

/-- **A branching initializer assigns its target exactly once.**  On every route through the
fragment of an accepted `let` or assignment, from its entry to its exit, exactly one of the nodes
that assign a branch's value is passed.  The exceptions pass none of them: they go through a branch
that ends with a `return`, or along the false edge of the last test of a `match` whose last arm may
fail. -/
theorem lowerStmt_assignsOnce {sink : Sink} {s : Stmt} {e : Expr} {r : Option Fragment}
    (hinit : s.initializer? = some e) (hflow : e.isControlFlow = true) (hyields : e.yields = true)
    (hb : Sound b) (hrun : lowerStmt set sink s b = (.ok r, b')) :
    ∃ (f : Fragment) (target : Term) (M : Marks), r = some f ∧ s.Targets set target ∧
      M.Label set target b' e.endings ∧
      ∀ w x, f.exit = some x → Route b'.graph f.entry w x →
        M.Once (w.map Edge.source ++ [x]) w := by
  suffices h : ∃ (f : Fragment) (target : Term) (M : Marks) (b₁ : Body), r = some f ∧
      s.Targets set target ∧ Part set b₁ b' f ∧ Settles b₁.size b' f M ∧
      M.Label set target b' e.endings by
    obtain ⟨f, target, M, b₁, rfl, htarget, hpart, hM, hl⟩ := h
    refine ⟨f, target, M, rfl, htarget, hl, fun w x hx hr => hM.route hpart (fun d hd => ?_) hx hr⟩
    obtain ⟨arm, -, hmissed⟩ := forall₂_left hl.missed.flip hd
    exact hmissed.1
  cases s with
  | bind pos pat ascription init diverges =>
    obtain rfl : init = some e := hinit
    simp only [lowerStmt] at hrun
    obtain ⟨declared, b₁, hcontext₁, hrun⟩ := Attempt.bind_ok hrun
    obtain ⟨c₁, hdeclared, rfl⟩ := Attempt.zoom_ok hcontext₁
    obtain ⟨q, b₂, hcontext₂, hrun⟩ := Attempt.bind_ok hrun
    obtain ⟨c₂, hpat, rfl⟩ := Attempt.zoom_ok hcontext₂
    obtain ⟨_, _, hget, hrun⟩ := Attempt.bind_ok hrun
    cases hget
    cases diverges with
    | true => cases hrun
    | false =>
      simp only [hflow, if_true, Bool.false_eq_true, if_false] at hrun
      obtain ⟨f, hlet, rfl⟩ := Attempt.map_ok hrun
      have hb₂ : Sound { b with context := c₂ } := hb.of_eq rfl rfl
      obtain ⟨v, M, rfl, hpart, hM, hMl⟩ := settles_letFlow hyields hb₂ hlet
      exact ⟨f, _, M, _, rfl, ⟨v, declared, _, _, _, _, hdeclared, hpat, rfl⟩, hpart, hM, hMl⟩
  | expr whole semi =>
    cases whole with
    | assign pos left value =>
      obtain rfl : value = e := Option.some.inj hinit
      simp only [lowerStmt, lowerFlow] at hrun
      obtain ⟨f, hassign, rfl⟩ := Attempt.map_ok hrun
      generalize (if semi = true then Sink.discard else sink) = sink' at hassign
      split at hassign
      · obtain ⟨target, b₁, hcontext, hassign⟩ := Attempt.bind_ok hassign
        obtain ⟨c₁, htarget, rfl⟩ := Attempt.zoom_ok hcontext
        have hb₁ : Sound { b with context := c₁ } := hb.of_eq rfl rfl
        have hpart := (local_lowerFlow set value (.assigned target) fun h => by cases h).part hb₁
          hassign
        obtain ⟨M, hM, hMl⟩ := settles_lowerFlow set target value hyields hb₁ hassign
        exact ⟨f, target, M, _, rfl, ⟨_, _, htarget⟩, hpart, hM, hMl⟩
      · -- control flow is no operand of an assignment that is a value
        obtain ⟨t, b₁, hcontext, -⟩ := Attempt.bind_ok hassign
        obtain ⟨c₁, hvalue, -⟩ := Attempt.zoom_ok hcontext
        rw [Scope.lowerExpr] at hvalue
        obtain ⟨_, _, -, hvalue⟩ := Attempt.bind_ok hvalue
        obtain ⟨_, _, hvalue, -⟩ := Attempt.bind_ok hvalue
        exact absurd hvalue (set.scope.lowerExpr_isControlFlow hflow _ _ _)
    | _ => cases hinit
  | _ => cases hinit

def named (name : String) : Expr :=
  .path default ⟨default, false, false, [], ⟨name, false⟩, name⟩

def blockOf (e : Expr) : Block := .mk default [.expr e false]

/-- `let x = match c { true => { d; 1 }, y => if y { 2 } else { return } };` -/
def nestedMatch : Stmt :=
  .bind default (.binding default "x" false) none (some (.matchOn default (named "c")
    [.mk (.literal default (.bool true)) none (.block default none
        (.mk default [.expr (named "d") true, .expr (.literal default (.int false 1 "")) false])),
      .mk (.binding default "y" false) none (.branch default
        [.mk (named "y") (blockOf (.literal default (.int false 2 "")))]
        (some (blockOf (.ret default none))))])) false

/-- A function without a result, in a file without declarations. -/
def plainSetting : Setting := ⟨⟨⟨0⟩, none, [], true, "a.rs"⟩, "it", true⟩

/-- Two values are assigned and one branch returns; the last arm takes all that the first does
not. -/
theorem lowerStmt_assignsOnce_nestedMatch :
    ∃ (f : Fragment) (b' : Body) (M : Marks),
      lowerStmt plainSetting .discard nestedMatch (.start default) = (.ok (some f), b') ∧
      M.assigned.length = 2 ∧ M.returned.length = 1 ∧ M.missed = [] ∧
      ∀ w x, f.exit = some x → Route b'.graph f.entry w x →
        M.Once (w.map Edge.source ++ [x]) w := by
  have hok : (lowerStmt plainSetting .discard nestedMatch (.start default)).1.isOk = true := by
    decide +kernel
  rcases hrun : lowerStmt plainSetting .discard nestedMatch (.start default) with ⟨_ | r, b'⟩
  · rw [hrun] at hok
    cases hok
  · obtain ⟨f, target, M, rfl, -, hl, honce⟩ :=
      lowerStmt_assignsOnce rfl rfl rfl (ready_start default).sound hrun
    refine ⟨f, b', M, rfl, hl.assigned.length_eq.symm, hl.returned.length_eq.symm, ?_, honce⟩
    exact List.eq_nil_of_length_eq_zero hl.missed.length_eq.symm

/-- `let x = match c { true => 1, false => 2 };` -/
def exhaustiveMatch : Stmt :=
  .bind default (.binding default "x" false) none (some (.matchOn default (named "c")
    [.mk (.literal default (.bool true)) none (.literal default (.int false 1 "")),
      .mk (.literal default (.bool false)) none (.literal default (.int false 2 ""))])) false

/-- Whether a statement is an assignment. -/
def assigns : Statement → Bool
  | ⟨.expression (.mk (.assign _ _) _ _), _⟩ => true
  | _ => false

/-- **An exhaustive `match` may still be missed:** on a route through this `let`, from its entry to
its exit, no node assigns anything. -/
theorem lowerStmt_leavesUnassigned :
    ∃ (f : Fragment) (b' : Body) (w : List Edge) (x : NodeId),
      lowerStmt plainSetting .discard exhaustiveMatch (.start default) = (.ok (some f), b') ∧
      f.exit = some x ∧ Route b'.graph f.entry w x ∧
      ∀ n ∈ w.map Edge.source ++ [x], ∀ target value type pos,
        b'.graph.node? n ≠ some (.ofTerm (.mk (.assign target value) type pos)) := by
  have hout : (lowerStmt plainSetting .discard exhaustiveMatch (.start default)).1.toOption =
      some (some ⟨0, some 1⟩) := by decide +kernel
  have hedges : ∀ e ∈ [⟨0, 2, .sequential⟩, ⟨2, 4, .whenFalse⟩, ⟨4, 1, .whenFalse⟩],
      e ∈ (lowerStmt plainSetting .discard exhaustiveMatch (.start default)).2.graph.edges := by
    decide +kernel
  have hnodes : ∀ n ∈ [0, 2, 4, 1],
      ((lowerStmt plainSetting .discard exhaustiveMatch (.start default)).2.graph.node? n).any
        assigns = false := by
    decide +kernel
  rcases hrun : lowerStmt plainSetting .discard exhaustiveMatch (.start default) with ⟨_ | r, b'⟩
  · rw [hrun] at hout
    cases hout
  · rw [hrun] at hout hedges hnodes
    cases hout
    refine ⟨_, b', [⟨0, 2, .sequential⟩, ⟨2, 4, .whenFalse⟩, ⟨4, 1, .whenFalse⟩], 1, rfl, rfl, ?_, ?_⟩
    · simp only [List.mem_cons, List.not_mem_nil, or_false, forall_eq_or_imp, forall_eq] at hedges
      obtain ⟨h₀, h₁, h₂⟩ := hedges
      exact .cons h₀ (.cons h₁ (.cons h₂ (.nil 1)))
    · intro n hn target value type pos hnode
      have hfree := hnodes n hn
      rw [hnode] at hfree
      cases hfree

end Body

end RustFlow
