/-
# Routes through a graph and what they record

A route is a chain of edges from one node to another.  It records, for each edge,
what the node it leaves does: a guard with the outcome the edge stands for, or the
evaluation of a term.  No-ops record nothing.  A *trace* is what is recorded on a
route to a node that no edge leaves, with what that last node does.
-/

import RustFlow.Proofs.Behaviour
import RustFlow.Proofs.Traversal

namespace RustFlow

namespace Statement

/-- What a statement records when its node is left by an edge of a kind. -/
def events (s : Statement) (kind : EdgeKind) : List Event :=
  match s.kind with
  | .expression t =>
    match kind with
    | .sequential => [.eval t]
    | .whenTrue => [.guard t true]
    | .whenFalse => [.guard t false]
  | .noOp => []
  | .ret => []
  | .returnValue t => [.eval t]
  | .writtenReturn t => t.toList.map .eval

end Statement

namespace Graph

variable {g g' : Graph} {n m x : NodeId} {w v : List Edge} {e : Edge}

/-- What is recorded when a node is left by an edge of a kind. -/
def record (g : Graph) (n : NodeId) (kind : EdgeKind) : List Event :=
  ((g.node? n).map fun s => s.events kind).getD []

theorem record_of_node? {s : Statement} (h : g.node? n = some s) (kind : EdgeKind) :
    g.record n kind = s.events kind := by rw [record, h]; rfl

/-- What is recorded along some edges. -/
def recorded (g : Graph) (w : List Edge) : List Event := w.flatMap fun e => g.record e.source e.kind

@[simp] theorem recorded_nil : g.recorded [] = [] := rfl

@[simp] theorem recorded_cons :
    g.recorded (e :: w) = g.record e.source e.kind ++ g.recorded w := List.flatMap_cons ..

@[simp] theorem recorded_append : g.recorded (w ++ v) = g.recorded w ++ g.recorded v :=
  List.flatMap_append ..

/-- Edges that lead from one node to another. -/
inductive Route (g : Graph) : NodeId → List Edge → NodeId → Prop where
  | nil (n : NodeId) : Route g n [] n
  | cons {e : Edge} {w : List Edge} {x : NodeId} : e ∈ g.edges → Route g e.target w x →
      Route g e.source (e :: w) x

theorem route_nil_iff : Route g n [] x ↔ n = x :=
  ⟨fun h => by cases h; rfl, fun h => h ▸ .nil n⟩

theorem route_cons_iff :
    Route g n (e :: w) x ↔ e ∈ g.edges ∧ e.source = n ∧ Route g e.target w x := by
  constructor
  · intro h
    cases h with
    | cons he h => exact ⟨he, rfl, h⟩
  · rintro ⟨he, rfl, h⟩
    exact .cons he h

theorem Route.append (h : Route g n w m) (h' : Route g m v x) : Route g n (w ++ v) x := by
  induction h with
  | nil => exact h'
  | cons he _ ih => exact .cons he (ih h')

theorem Route.single (he : e ∈ g.edges) : Route g e.source [e] e.target := .cons he (.nil _)

theorem Route.mono (h : Route g n w x) (hsub : ∀ e ∈ g.edges, e ∈ g'.edges) :
    Route g' n w x := by
  induction h with
  | nil => exact .nil _
  | cons he _ ih => exact .cons (hsub _ he) ih

theorem Route.mem_edges (h : Route g n w x) (he : e ∈ w) : e ∈ g.edges := by
  induction h with
  | nil => cases he
  | cons hd _ ih =>
    rcases List.mem_cons.1 he with rfl | he
    · exact hd
    · exact ih he

theorem Route.eq_nil_of_halts (h : Route g n w x) (hn : g.Halts n) : w = [] ∧ x = n := by
  cases h with
  | nil => exact ⟨rfl, rfl⟩
  | cons he _ => exact absurd rfl (hn _ he)

/-- **A route stays in a smaller graph or leaves it by a first edge.** -/
theorem Route.split (h : Route g' n w x) (g : Graph) :
    Route g n w x ∨ ∃ w₁ e w₂, w = w₁ ++ e :: w₂ ∧ Route g n w₁ e.source ∧ e ∈ g'.edges ∧
      e ∉ g.edges ∧ Route g' e.target w₂ x := by
  induction h with
  | nil => exact .inl (.nil _)
  | @cons e w x he hroute ih =>
    by_cases hold : e ∈ g.edges
    · rcases ih with hstay | ⟨w₁, d, w₂, rfl, h₁, hd, hnew, h₂⟩
      · exact .inl (.cons hold hstay)
      · exact .inr ⟨e :: w₁, d, w₂, rfl, .cons hold h₁, hd, hnew, h₂⟩
    · exact .inr ⟨[], e, w, rfl, .nil _, he, hold, hroute⟩

theorem recorded_congr (h : ∀ e ∈ w, g.node? e.source = g'.node? e.source) :
    g.recorded w = g'.recorded w := by
  induction w with
  | nil => rfl
  | cons e w ih =>
    rw [recorded_cons, recorded_cons, ih fun d hd => h d (List.mem_cons_of_mem _ hd), record,
      record, h e List.mem_cons_self]

/-- A route to a node, with what is recorded up to and including that node. -/
def Arrives (g : Graph) (n : NodeId) (run : List Event) (x : NodeId) : Prop :=
  ∃ w, Route g n w x ∧ run = g.recorded w ++ g.record x .sequential

/-- A route to a node, with what is recorded before that node. -/
def Approaches (g : Graph) (n : NodeId) (run : List Event) (x : NodeId) : Prop :=
  ∃ w, Route g n w x ∧ run = g.recorded w

theorem Approaches.refl (g : Graph) (n : NodeId) : g.Approaches n [] n := ⟨[], .nil n, rfl⟩

theorem Arrives.approaches {run : List Event} (h : g.Arrives n run x)
    (he : ⟨x, m, .sequential⟩ ∈ g.edges) : g.Approaches n run m := by
  obtain ⟨w, hr, rfl⟩ := h
  refine ⟨w ++ [⟨x, m, .sequential⟩], hr.append (.single he), ?_⟩
  simp

theorem Approaches.trans {run rest : List Event} (h : g.Approaches n run m)
    (h' : g.Approaches m rest x) : g.Approaches n (run ++ rest) x := by
  obtain ⟨w, hr, rfl⟩ := h
  obtain ⟨v, hr', rfl⟩ := h'
  exact ⟨w ++ v, hr.append hr', by rw [recorded_append]⟩

theorem Approaches.arrives {run rest : List Event} (h : g.Approaches n run m)
    (h' : g.Arrives m rest x) : g.Arrives n (run ++ rest) x := by
  obtain ⟨w, hr, rfl⟩ := h
  obtain ⟨v, hr', rfl⟩ := h'
  exact ⟨w ++ v, hr.append hr', by rw [recorded_append, List.append_assoc]⟩

theorem Approaches.edge (he : e ∈ g.edges) :
    g.Approaches e.source (g.record e.source e.kind) e.target :=
  ⟨[e], .single he, by simp⟩

/-- What is recorded from a node to the end of the graph. -/
def TracesFrom (g : Graph) (n : NodeId) (run : List Event) : Prop :=
  ∃ x, g.Arrives n run x ∧ g.Halts x

/-- The traces of a graph: what is recorded from an entry to an exit. -/
def Traces (g : Graph) (run : List Event) : Prop := ∃ e ∈ g.entries, g.TracesFrom e run

end Graph
end RustFlow
