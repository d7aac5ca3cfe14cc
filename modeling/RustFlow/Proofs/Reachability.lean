/-
# The postorder of every graph

`Graph.Made` are the graphs that additions and removals make: nodes and edges come and go
in any order, a statement may be replaced, and any nodes may be declared entries.  Such
graphs are tidy (`Made.tidy`), which is all that a traversal relies on.

A traversal takes a bounded number of steps.  `Walk.exhaust` goes on without a bound until
the stack is empty, so that `none` says that it never is.  From a live entry the potential
of a walk falls with every step, hence both give one result (`postorderWalk_eq`), and that
is the list of the nodes that some entry reaches (`postorder_reachable`).
-/

import RustFlow.Proofs.Recursion
import RustFlow.Proofs.Traversal

namespace RustFlow
namespace Graph

variable {g : Graph}

/-! ### Additions and removals -/

/-- A graph that comes from the empty one by additions and removals.  Edges are added between
nodes that are there. -/
inductive Made : Graph → Prop where
  | empty : Made .empty
  | addNode {g : Graph} (s : Statement) : Made g → Made (g.addNode s).2
  | addEdge {g : Graph} {u v : NodeId} (kind : EdgeKind) : Made g → g.contains u = true →
      g.contains v = true → Made (g.addEdge u v kind)
  | setKind {g : Graph} (n : NodeId) (kind : StatementKind) : Made g → Made (g.setKind n kind)
  | removeNode {g : Graph} (n : NodeId) : Made g → Made (g.removeNode n)
  | removeEdges {g : Graph} {kept : List Edge} : Made g → kept.Sublist g.edges →
      Made { g with edges := kept }
  | setEntries {g : Graph} (entries : List NodeId) : Made g → Made { g with entries }

/-- Edges of a made graph join nodes that are there, and new nodes take empty slots. -/
theorem Made.tidy (h : Made g) : g.Tidy := by
  induction h with
  | empty => exact .empty
  | addNode s _ ih => exact ih.addNode s
  | addEdge kind _ hu hv ih => exact ih.addEdge hu hv kind
  | setKind n kind _ ih => exact ih.setKind n kind
  | removeNode n _ ih => exact ih.removeNode n
  | removeEdges _ hkept ih => exact ih.removeEdges hkept
  | setEntries entries _ ih => exact ih.setEntries entries

/-! ### Traversals without a bound -/

/-- One step, unless the stack is empty. -/
def Walk.exhaustStep (g : Graph) (exhaust : Walk → Option Walk) (w : Walk) : Option Walk :=
  if w.stack.isEmpty then some w else exhaust (step g w)

/-- Steps until the stack is empty. -/
noncomputable def Walk.exhaust (g : Graph) (w : Walk) : Option Walk :=
  recursion (exhaustStep g) w

theorem Walk.exhaust_step (g : Graph) (w : Walk) :
    exhaust g w = exhaustStep g (exhaust g) w := by
  refine recursion_eq (fun w => ?_) w
  unfold exhaustStep
  split
  · exact relies_const _
  · exact relies_call _

/-- The nodes reachable from the entries, in postorder, by traversals without a bound. -/
noncomputable def postorderWalk (g : Graph) : Option (List NodeId) :=
  g.entries.reverse.foldlM
    (fun order entry =>
      if order.contains entry then some order
      else do
        let w ← Walk.exhaust g ⟨[entry], [], []⟩
        return order ++ w.finished.reverse.filter fun n => !order.contains n)
    []

/-- If a bounded walk comes to an empty stack, that is where the walk ends. -/
theorem Walk.exhaust_eq {k : Nat} {w : Walk} (h : (Walk.run g k w).stack = []) :
    Walk.exhaust g w = some (Walk.run g k w) := by
  induction k generalizing w with
  | zero =>
    rw [Walk.run] at h ⊢
    rw [Walk.exhaust_step, Walk.exhaustStep, h]
    rfl
  | succ k ih =>
    rw [Walk.exhaust_step, Walk.exhaustStep]
    rw [Walk.run] at h ⊢
    split
    · rfl
    · rename_i hstack
      rw [if_neg hstack] at h
      exact ih h

theorem foldlM_eq_some {α β : Type} {f : β → α → Option β} {f' : β → α → β} {xs : List α} (y : β)
    (h : ∀ x ∈ xs, ∀ y, f y x = some (f' y x)) : xs.foldlM f y = some (xs.foldl f' y) := by
  induction xs generalizing y with
  | nil => rfl
  | cons x xs ih =>
    rw [List.foldlM_cons, h x List.mem_cons_self]
    exact ih _ fun x' hx' => h x' (List.mem_cons_of_mem _ hx')

/-- **Traversals from live entries end**, with what the bounded ones give. -/
theorem postorderWalk_eq (ht : g.Tidy) (hentries : ∀ e ∈ g.entries, g.contains e = true) :
    g.postorderWalk = some g.postorder := by
  refine foldlM_eq_some [] fun entry hentry order => ?_
  have hlive := hentries entry (List.mem_reverse.1 hentry)
  rw [Walk.exhaust_eq (walk_ends ht hlive).1]
  split <;> rfl

/-! ### What is listed and what is removed -/

/-- The edges that removing leaves are those between nodes that it leaves, in their order. -/
theorem Tidy.edges_removeUnreachable (ht : g.Tidy) (keep : List NodeId) :
    (g.removeUnreachable keep).edges = g.edges.filter fun e =>
      (g.removeUnreachable keep).contains e.source &&
        (g.removeUnreachable keep).contains e.target := by
  simp only [Graph.removeUnreachable]
  rw [ht.edges_removeAll]
  refine List.filter_congr fun e he => ?_
  have hkept {n : NodeId} (hn : g.contains n = true) (dead : List NodeId) :
      (dead.foldl Graph.removeNode g).contains n = !dead.contains n := by
    rw [contains, node?_removeAll, List.contains_eq_mem]
    by_cases hdead : n ∈ dead
    · simp [hdead]
    · simpa [hdead, contains] using hn
  rw [hkept (ht.source_live e he), hkept (ht.target_live e he)]

/-- **The postorder lists exactly the reachable nodes.**  In a graph that additions and
removals made, with live entries, traversing ends, no node is listed twice, and a node is
listed just if some entry reaches it.  So removing what is unreachable removes just the
nodes that no entry reaches and that are not to be kept; the others keep their statements,
and all edges between them stay, in their order. -/
theorem postorder_reachable (h : Made g) (hentries : ∀ e ∈ g.entries, g.contains e = true) :
    g.postorderWalk = some g.postorder ∧ g.postorder.Nodup ∧
    (∀ n, n ∈ g.postorder ↔ ∃ e ∈ g.entries, g.Reaches e n) ∧
    ∀ keep : List NodeId,
      (∀ n s, (g.removeUnreachable keep).node? n = some s ↔
        g.node? n = some s ∧ ((∃ e ∈ g.entries, g.Reaches e n) ∨ n ∈ keep)) ∧
      (g.removeUnreachable keep).edges = g.edges.filter fun e =>
        (g.removeUnreachable keep).contains e.source &&
          (g.removeUnreachable keep).contains e.target := by
  have ht := h.tidy
  refine ⟨postorderWalk_eq ht hentries, (lists_postorder ht hentries).nodup,
    fun n => mem_postorder ht hentries, fun keep => ⟨fun n s => ?_, ht.edges_removeUnreachable keep⟩⟩
  rcases node?_removeUnreachable ht hentries keep n with ⟨hnode, hstays⟩ | ⟨hnode, hgoes⟩
  · rw [hnode]
    exact (and_iff_left hstays).symm
  · rw [hnode]
    exact ⟨nofun, fun h => absurd h.2 hgoes⟩

/-- A graph with a self-loop, parallel edges, a cycle and a slot that is used again.  Both
entries reach the cycle, and no entry reaches node `4`. -/
def tangled : Graph where
  slots := List.replicate 5 (some (.noOp .start))
  vacant := []
  edges := [⟨4, 3, .sequential⟩, ⟨3, 2, .whenTrue⟩, ⟨1, 0, .sequential⟩, ⟨2, 1, .sequential⟩,
    ⟨0, 2, .whenFalse⟩, ⟨0, 2, .whenTrue⟩, ⟨0, 0, .sequential⟩]
  entries := [3, 0]

theorem made_tangled : Made tangled := by
  have hthree : Made ⟨List.replicate 3 (some (.noOp .start)), [], [], [], []⟩ :=
    ((Made.empty.addNode (.noOp .start)).addNode (.noOp .start)).addNode (.noOp .start)
  have hfive : Made ⟨List.replicate 5 (some (.noOp .start)), [], [], [], []⟩ :=
    (((hthree.addNode (.noOp .start)).removeNode 1).addNode (.noOp .start)).addNode (.noOp .start)
  have hloop := (hfive.addEdge (u := 0) (v := 0) .sequential rfl rfl).addEdge (u := 0) (v := 2)
    .whenTrue rfl rfl
  have hcycle := ((hloop.addEdge (u := 0) (v := 2) .whenFalse rfl rfl).addEdge (u := 2) (v := 1)
    .sequential rfl rfl).addEdge (u := 1) (v := 0) .sequential rfl rfl
  exact ((hcycle.addEdge (u := 3) (v := 2) .whenTrue rfl rfl).addEdge (u := 4) (v := 3) .sequential
    rfl rfl).setEntries [3, 0]

theorem postorder_reachable_tangled :
    Made tangled ∧ (∀ e ∈ tangled.entries, tangled.contains e = true) ∧
    tangled.postorderWalk = some [1, 2, 0, 3] ∧ (∃ e ∈ tangled.entries, tangled.Reaches e 1) ∧
    ¬(∃ e ∈ tangled.entries, tangled.Reaches e 4) ∧
    (tangled.removeUnreachable []).node? 4 = none ∧
    (tangled.removeUnreachable [4]).edges = tangled.edges := by
  have hentries : ∀ e ∈ tangled.entries, tangled.contains e = true := by decide
  obtain ⟨hwalk, -, hmem, hremove⟩ := postorder_reachable made_tangled hentries
  have horder : tangled.postorder = [1, 2, 0, 3] := by decide
  rw [horder] at hwalk hmem
  have hfour : ¬∃ e ∈ tangled.entries, tangled.Reaches e 4 := (hmem 4).not.1 (by decide)
  refine ⟨made_tangled, hentries, hwalk, (hmem 1).1 (by decide), hfour, ?_, ?_⟩
  · refine Option.eq_none_iff_forall_ne_some.2 fun s hs => ?_
    rcases ((hremove []).1 4 s).1 hs with ⟨-, hreach | hkeep⟩
    · exact hfour hreach
    · cases hkeep
  · rw [(hremove [4]).2]
    decide

end Graph
end RustFlow
