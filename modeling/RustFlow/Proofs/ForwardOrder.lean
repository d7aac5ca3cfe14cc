/-
# The reverse postorder follows the edges

In the reverse postorder a node comes before the nodes its edges lead to, except where an
edge closes a cycle (`reversePostorder_forward`).  So a forward analysis that visits the
nodes in this order has seen all predecessors of a node when it comes to it, back edges
aside.

The stack of a traversal may hold a node several times, and only its topmost copy counts.
`Walk.Nested` says of each node that is discovered and not yet listed what stands above
that copy: only nodes that it reaches, and among them all its successors that are not
discovered.  So when a node is listed, its successors are listed already or still wait
below it on the stack, and those reach it (`Walk.Nested.successors`).

A later entry is traversed with fresh marks, and what an earlier one listed is left out.
Such nodes stand before all new ones, so the order of both together is again one in which
only edges on cycles go backwards (`Retreats.add`).
-/

import RustFlow.Proofs.Reachability

namespace RustFlow
namespace Graph

variable {g : Graph}

/-- In a list of nodes the successors of each node come before it, apart from those that
reach it. -/
def Retreats (g : Graph) (order : List NodeId) : Prop :=
  ∀ u ∈ order, ∀ v, g.Step u v → [v, u].Sublist order ∨ g.Reaches v u

namespace Walk

variable {w : Walk} {n : NodeId} {rest : List NodeId}

/-! ### One entry -/

/-- A stack whose topmost copy of a node has above it nothing but what the node reaches, and
all its successors that are not discovered. -/
def Spans (g : Graph) (w : Walk) (n : NodeId) : Prop :=
  ∃ above below, w.stack = above ++ n :: below ∧ n ∉ above ∧ (∀ m ∈ above, g.Reaches n m) ∧
    ∀ m, g.Step n m → m ∈ w.discovered ∨ m ∈ above

/-- What holds of the order of the marks throughout a traversal. -/
structure Nested (g : Graph) (w : Walk) : Prop where
  spans : ∀ n ∈ w.discovered, n ∉ w.finished → Spans g w n
  retreats : g.Retreats w.finished.reverse

theorem Nested.start (g : Graph) (entry : NodeId) : Nested g ⟨[entry], [], []⟩ where
  spans _ hn := absurd hn List.not_mem_nil
  retreats _ hn := absurd hn List.not_mem_nil

theorem Spans.uncover {m : NodeId} (h : Spans g w m) (hstack : w.stack = n :: rest) (hne : m ≠ n) :
    g.Reaches m n ∧ ∃ above below, rest = above ++ m :: below ∧ m ∉ above ∧
      (∀ k ∈ above, g.Reaches m k) ∧ ∀ k, g.Step m k → k ∈ w.discovered ∨ k = n ∨ k ∈ above := by
  obtain ⟨above, below, hsplit, hnot, hreach, hsucc⟩ := h
  rw [hstack] at hsplit
  cases above with
  | nil => exact absurd (List.cons.inj hsplit).1.symm hne
  | cons k above =>
    obtain ⟨rfl, hrest⟩ := List.cons.inj hsplit
    refine ⟨hreach n List.mem_cons_self, above, below, hrest,
      fun hm => hnot (List.mem_cons_of_mem _ hm), fun k hk => hreach k (List.mem_cons_of_mem _ hk),
      fun k hk => (hsucc k hk).imp_right List.mem_cons.1⟩

theorem Spans.pop {m : NodeId} (h : Spans g w m) (hstack : w.stack = n :: rest)
    (hn : n ∈ w.discovered) (hne : m ≠ n) (finished : List NodeId) :
    Spans g ⟨rest, w.discovered, finished⟩ m := by
  obtain ⟨-, above, below, hrest, hnot, hreach, hsucc⟩ := h.uncover hstack hne
  refine ⟨above, below, hrest, hnot, hreach, fun k hk => ?_⟩
  rcases hsucc k hk with hk | rfl | hk
  · exact .inl hk
  · exact .inl hn
  · exact .inr hk

/-- When the top of the stack is listed for the first time, all its successors are listed or
reach it. -/
theorem Nested.successors (h : Nested g w) (hstack : w.stack = n :: rest) (hn : n ∈ w.discovered)
    (hnew : n ∉ w.finished) {m : NodeId} (hstep : g.Step n m) :
    m ∈ w.finished ∨ g.Reaches m n := by
  obtain ⟨above, below, hsplit, hnot, -, hsucc⟩ := h.spans n hn hnew
  rw [hstack] at hsplit
  -- the copy on top is the topmost one, so nothing is above it
  obtain rfl : above = [] := by
    cases above with
    | nil => rfl
    | cons k above =>
      obtain ⟨rfl, -⟩ := List.cons.inj hsplit
      exact absurd List.mem_cons_self hnot
  have hm := (hsucc m hstep).resolve_right List.not_mem_nil
  by_cases hlisted : m ∈ w.finished
  · exact .inl hlisted
  · refine .inr ?_
    by_cases hmn : m = n
    · exact hmn ▸ .refl
    · exact ((h.spans m hm hlisted).uncover hstack hmn).1

theorem Nested.pop (h : Nested g w) (hstack : w.stack = n :: rest) (hn : n ∈ w.discovered) :
    Nested g (popped w n rest) := by
  unfold popped
  have hcontains : w.finished.contains n = true ↔ n ∈ w.finished := by
    rw [List.contains_eq_mem, decide_eq_true_eq]
  refine ⟨fun m hm hopen => ?_, ?_⟩
  · have hboth : m ≠ n ∧ m ∉ w.finished := by
      dsimp only at hopen
      split at hopen
      · rename_i hlisted
        exact ⟨fun hmn => hopen (hmn ▸ hcontains.1 hlisted), hopen⟩
      · exact List.ne_and_not_mem_of_not_mem_cons hopen
    exact (h.spans m hm hboth.2).pop hstack hn hboth.1 _
  · dsimp only
    split
    · exact h.retreats
    · rename_i hnew
      rw [List.reverse_cons]
      intro u hu v hstep
      rcases List.mem_append.1 hu with hu | hu
      · exact (h.retreats u hu v hstep).imp_left fun hsub =>
          hsub.trans (List.sublist_append_left _ _)
      · obtain rfl := List.mem_singleton.1 hu
        refine (h.successors hstack hn (fun hlisted => hnew (hcontains.2 hlisted)) hstep).imp_left
          fun hv => ?_
        exact (List.singleton_sublist.2 (List.mem_reverse.2 hv)).append (List.Sublist.refl [u])

theorem Nested.push (h : Nested g w) (hstack : w.stack = n :: rest) (hn : n ∉ w.discovered) :
    Nested g (pushed g w n) := by
  unfold pushed
  have hfresh (m : NodeId) := mem_fresh g n m (n :: w.discovered)
  generalize (((g.outgoing n).map Edge.target).filter
    fun m => !(n :: w.discovered).contains m).reverse = fresh at hfresh ⊢
  refine ⟨fun m hm hopen => ?_, h.retreats⟩
  rcases List.mem_cons.1 hm with rfl | hm
  · refine ⟨fresh, rest, congrArg (fresh ++ ·) hstack,
      fun hmem => ((hfresh m).1 hmem).2 List.mem_cons_self,
      fun k hk => .single ((hfresh k).1 hk).1, fun k hk => ?_⟩
    by_cases hmarked : k ∈ m :: w.discovered
    · exact .inl hmarked
    · exact .inr ((hfresh k).2 ⟨hk, hmarked⟩)
  · have hspans := h.spans m hm hopen
    have htop := (hspans.uncover hstack fun hmn => hn (hmn ▸ hm)).1
    obtain ⟨above, below, hsplit, hnot, hreach, hsucc⟩ := hspans
    refine ⟨fresh ++ above, below, ?_, fun hmem => ?_, fun k hk => ?_, fun k hk => ?_⟩
    · rw [List.append_assoc, ← hsplit]
    · rcases List.mem_append.1 hmem with hmem | hmem
      · exact ((hfresh m).1 hmem).2 (List.mem_cons_of_mem _ hm)
      · exact hnot hmem
    · rcases List.mem_append.1 hk with hk | hk
      · exact htop.tail ((hfresh k).1 hk).1
      · exact hreach k hk
    · exact (hsucc k hk).imp (List.mem_cons_of_mem _) (List.mem_append_right _)

theorem Nested.step (h : Nested g w) : Nested g (step g w) := by
  rcases step_cases g w with ⟨-, hstep⟩ | ⟨n, rest, hstack, ⟨hn, hstep⟩ | ⟨hn, hstep⟩⟩
  · rw [hstep]
    exact h
  · rw [hstep]
    exact h.pop hstack hn
  · rw [hstep]
    exact h.push hstack hn

theorem Nested.run (k : Nat) (h : Nested g w) : Nested g (Walk.run g k w) := by
  induction k generalizing w with
  | zero => exact h
  | succ k ih =>
    unfold Walk.run
    split
    · exact h
    · exact ih h.step

end Walk

theorem retreats_postorderFrom (g : Graph) (entry : NodeId) :
    g.Retreats (g.postorderFrom entry) :=
  ((Walk.Nested.start g entry).run g.walkBound).retreats

/-! ### All entries -/

/-- An order goes on with another one, of which it leaves out what it lists already. -/
theorem Retreats.add {order more : List NodeId} (h : g.Retreats order) (hmore : g.Retreats more) :
    g.Retreats (order ++ more.filter fun n => !order.contains n) := by
  intro u hu v hstep
  rcases List.mem_append.1 hu with hu | hu
  · exact (h u hu v hstep).imp_left fun hsub => hsub.trans (List.sublist_append_left _ _)
  · obtain ⟨humore, hunew⟩ := List.mem_filter.1 hu
    refine (hmore u humore v hstep).imp_left fun hsub => ?_
    by_cases hv : v ∈ order
    · exact (List.singleton_sublist.2 hv).append (List.singleton_sublist.2 hu)
    · have hboth : [v, u].filter (fun n => !order.contains n) = [v, u] := by
        rw [List.filter_eq_self]
        simpa [hv] using hunew
      exact (hboth ▸ hsub.filter _).trans (List.sublist_append_right _ _)

theorem retreats_postorder (g : Graph) : g.Retreats g.postorder := by
  refine List.foldlRecOn g.entries.reverse _ (fun _ hn => absurd hn List.not_mem_nil) ?_
  intro order horder entry _
  split
  · exact horder
  · exact horder.add (retreats_postorderFrom g entry)

/-- **In the reverse postorder only edges on cycles go backwards.**  In a graph that additions
and removals made, with live entries, let an edge lead from `u`, which some entry reaches, to
`v`.  Then `u` comes before `v`, or `v` reaches `u` again (by no edge at all if it is `u`).  So
without cycles the reverse postorder is a topological order of what the entries reach: each such
node is listed once, and every edge out of it leads to a node that comes later. -/
theorem reversePostorder_forward (h : Made g) (hentries : ∀ e ∈ g.entries, g.contains e = true) :
    (∀ u v, (∃ e ∈ g.entries, g.Reaches e u) → g.Step u v →
      [u, v].Sublist g.reversePostorder ∨ g.Reaches v u) ∧
    ((∀ n, ¬Relation.TransGen g.Step n n) →
      g.reversePostorder.Nodup ∧
      (∀ n, n ∈ g.reversePostorder ↔ ∃ e ∈ g.entries, g.Reaches e n) ∧
      ∀ u v, u ∈ g.reversePostorder → g.Step u v → [u, v].Sublist g.reversePostorder) := by
  have hlists := lists_postorder h.tidy hentries
  have hmem (n : NodeId) : n ∈ g.reversePostorder ↔ ∃ e ∈ g.entries, g.Reaches e n := by
    rw [reversePostorder, List.mem_reverse]
    exact hlists.mem n
  have hforward (u v : NodeId) (hu : u ∈ g.reversePostorder) (hstep : g.Step u v) :
      [u, v].Sublist g.reversePostorder ∨ g.Reaches v u :=
    (retreats_postorder g u (List.mem_reverse.1 hu) v hstep).imp_left List.Sublist.reverse
  refine ⟨fun u v hu hstep => hforward u v ((hmem u).2 hu) hstep, fun hacyclic => ?_⟩
  refine ⟨List.nodup_reverse.2 hlists.nodup, hmem, fun u v hu hstep => ?_⟩
  refine (hforward u v hu hstep).resolve_right fun hback => hacyclic u ?_
  exact Relation.TransGen.head' hstep hback

/-- Two branches that meet, with two entries, of which the first is among the nodes that the
second reaches. -/
def diamond : Graph where
  slots := List.replicate 4 (some (.noOp .start))
  vacant := []
  edges := [⟨2, 3, .sequential⟩, ⟨1, 3, .sequential⟩, ⟨0, 2, .whenFalse⟩, ⟨0, 1, .whenTrue⟩]
  entries := [0, 1]

theorem made_diamond : Made diamond := by
  have hnodes : Made ⟨List.replicate 4 (some (.noOp .start)), [], [], [], []⟩ :=
    (((Made.empty.addNode (.noOp .start)).addNode (.noOp .start)).addNode (.noOp .start)).addNode
      (.noOp .start)
  have hbranches := (hnodes.addEdge (u := 0) (v := 1) .whenTrue rfl rfl).addEdge (u := 0) (v := 2)
    .whenFalse rfl rfl
  exact ((hbranches.addEdge (u := 1) (v := 3) .sequential rfl rfl).addEdge (u := 2) (v := 3)
    .sequential rfl rfl).setEntries [0, 1]

/-- Every edge leads to a node of a higher number, so there is no cycle. -/
theorem acyclic_diamond (n : NodeId) : ¬Relation.TransGen diamond.Step n n := by
  have hup {u v : NodeId} (hstep : diamond.Step u v) : u < v := by
    obtain ⟨e, he, rfl, rfl⟩ := hstep
    exact (by decide : ∀ e ∈ diamond.edges, e.source < e.target) e he
  have hlt {u v : NodeId} (hpath : Relation.TransGen diamond.Step u v) : u < v := by
    induction hpath with
    | single hstep => exact hup hstep
    | tail _ hstep ih => exact Nat.lt_trans ih (hup hstep)
  exact fun hcycle => absurd (hlt hcycle) (Nat.lt_irrefl n)

theorem reversePostorder_forward_branches :
    (Made diamond ∧ (∀ e ∈ diamond.entries, diamond.contains e = true) ∧
      (∀ n, ¬Relation.TransGen diamond.Step n n) ∧ diamond.reversePostorder = [0, 2, 1, 3] ∧
      diamond.Step 1 3 ∧ [1, 3].Sublist diamond.reversePostorder) ∧
    (Made tangled ∧ (∀ e ∈ tangled.entries, tangled.contains e = true) ∧
      (∃ e ∈ tangled.entries, tangled.Reaches e 1) ∧ tangled.Step 1 0 ∧
      ¬[1, 0].Sublist tangled.reversePostorder ∧ tangled.Reaches 0 1) := by
  have hdiamond : ∀ e ∈ diamond.entries, diamond.contains e = true := by decide
  have htangled : ∀ e ∈ tangled.entries, tangled.contains e = true := by decide
  have hjoin : diamond.Step 1 3 := ⟨⟨1, 3, .sequential⟩, by decide, rfl, rfl⟩
  have hback : tangled.Step 1 0 := ⟨⟨1, 0, .sequential⟩, by decide, rfl, rfl⟩
  have hreached : ∃ e ∈ tangled.entries, tangled.Reaches e 1 :=
    (mem_postorder made_tangled.tidy htangled).1 (by decide)
  have hbehind : ¬[1, 0].Sublist tangled.reversePostorder := by decide
  refine ⟨⟨made_diamond, hdiamond, acyclic_diamond, by decide, hjoin, ?_⟩,
    made_tangled, htangled, hreached, hback, hbehind, ?_⟩
  · exact ((reversePostorder_forward made_diamond hdiamond).2 acyclic_diamond).2.2 1 3 (by decide) hjoin
  · exact ((reversePostorder_forward made_tangled htangled).1 1 0 hreached hback).resolve_left hbehind

end Graph
end RustFlow
