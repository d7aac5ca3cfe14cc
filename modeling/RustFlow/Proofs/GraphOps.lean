/-
# What the operations on graphs do

Each operation is described by what it does to the statement of a node, to the
edges and to the entries; later modules use these descriptions and do not open
the operations again.

A graph is *tidy* if its edges join nodes that are there and its vacant slots are
empty.  Every operation keeps a graph tidy, provided that edges are only added
between nodes that are there (`Tidy.addNode`, `Tidy.addEdge`, `Tidy.removeNode`,
…).
-/

import RustFlow.Cfg.Closing
import Mathlib.Data.List.Basic
import Mathlib.Data.List.Nodup

namespace RustFlow
namespace Graph

variable {g : Graph} {n m : NodeId}

/-! ### Reading a graph -/

theorem contains_iff : g.contains n = true ↔ ∃ s, g.node? n = some s := by
  rw [contains, Option.isSome_iff_exists]

theorem contains_of_node? {s : Statement} (h : g.node? n = some s) : g.contains n = true :=
  contains_iff.2 ⟨s, h⟩

theorem lt_of_contains (h : g.contains n = true) : n < g.slots.length := by
  obtain ⟨s, hs⟩ := contains_iff.1 h
  by_contra hn
  rw [node?, List.getElem?_eq_none (Nat.le_of_not_lt hn)] at hs
  cases hs

theorem mem_nodes : n ∈ g.nodes ↔ g.contains n = true := by
  rw [nodes, List.mem_filter, List.mem_range]
  exact ⟨fun h => h.2, fun h => ⟨lt_of_contains h, h⟩⟩

theorem nodup_nodes (g : Graph) : g.nodes.Nodup := List.nodup_range.filter _

theorem mem_findNodes {p : Statement → Bool} :
    n ∈ g.findNodes p ↔ ∃ s, g.node? n = some s ∧ p s = true := by
  rw [findNodes, List.mem_filter, mem_nodes, contains_iff]
  constructor
  · rintro ⟨⟨s, hs⟩, hp⟩
    rw [hs] at hp
    exact ⟨s, hs, hp⟩
  · rintro ⟨s, hs, hp⟩
    exact ⟨⟨s, hs⟩, by rw [hs]; exact hp⟩

theorem nodup_findNodes (g : Graph) (p : Statement → Bool) : (g.findNodes p).Nodup :=
  g.nodup_nodes.filter _

theorem mem_outgoing {e : Edge} : e ∈ g.outgoing n ↔ e ∈ g.edges ∧ e.source = n := by
  rw [outgoing, List.mem_filter, beq_iff_eq]

theorem mem_incoming {e : Edge} : e ∈ g.incoming n ↔ e ∈ g.edges ∧ e.target = n := by
  rw [incoming, List.mem_filter, beq_iff_eq]

/-- No edge leaves a node. -/
def Halts (g : Graph) (n : NodeId) : Prop := ∀ e ∈ g.edges, e.source ≠ n

theorem outgoing_eq_nil : g.outgoing n = [] ↔ g.Halts n := by
  rw [outgoing, List.filter_eq_nil_iff]
  simp only [beq_iff_eq, Halts, ne_eq]

theorem mem_exits : n ∈ g.exits ↔ g.contains n = true ∧ g.Halts n := by
  rw [exits, List.mem_filter, mem_nodes, List.isEmpty_iff, outgoing_eq_nil]

/-! ### Tidy graphs -/

/-- Both ends of every edge are nodes. -/
def Joined (g : Graph) : Prop :=
  ∀ e ∈ g.edges, g.contains e.source = true ∧ g.contains e.target = true

theorem Joined.mono {g' : Graph} (h : g.Joined) (hedges : g'.edges ⊆ g.edges)
    (hlive : ∀ n, g.contains n = true → g'.contains n = true) : g'.Joined :=
  fun e he => (h e (hedges he)).imp (hlive _) (hlive _)

/-- Edges join nodes of the graph and were never asked for without their ends, and vacant
slots are empty. -/
structure Tidy (g : Graph) : Prop where
  joined : g.Joined
  vacant_empty : ∀ n ∈ g.vacant, n < g.slots.length ∧ g.node? n = none
  vacant_nodup : g.vacant.Nodup
  faultless : g.faults = []

theorem Tidy.source_live (h : g.Tidy) (e : Edge) (he : e ∈ g.edges) : g.contains e.source = true :=
  (h.joined e he).1

theorem Tidy.target_live (h : g.Tidy) (e : Edge) (he : e ∈ g.edges) : g.contains e.target = true :=
  (h.joined e he).2

theorem Tidy.empty : Tidy Graph.empty :=
  ⟨by simp [Joined, Graph.empty], by simp [Graph.empty], List.nodup_nil, rfl⟩

theorem Tidy.removeEdges (h : g.Tidy) {kept : List Edge} (hkept : kept.Sublist g.edges) :
    Tidy { g with edges := kept } where
  joined := h.joined.mono hkept.subset fun _ hm => hm
  vacant_empty := h.vacant_empty
  vacant_nodup := h.vacant_nodup
  faultless := h.faultless

theorem Tidy.setEntries (h : g.Tidy) (entries : List NodeId) : Tidy { g with entries } :=
  ⟨h.joined, h.vacant_empty, h.vacant_nodup, h.faultless⟩

/-! ### Adding -/

@[simp] theorem edges_addNode (g : Graph) (s : Statement) : (g.addNode s).2.edges = g.edges := by
  unfold addNode
  split <;> rfl

@[simp] theorem entries_addNode (g : Graph) (s : Statement) :
    (g.addNode s).2.entries = g.entries := by
  unfold addNode
  split <;> rfl

theorem Tidy.node?_fresh (h : g.Tidy) (s : Statement) : g.node? (g.addNode s).1 = none := by
  unfold addNode
  split
  · rw [node?, List.getElem?_eq_none (Nat.le_refl _)]
    rfl
  · rename_i k rest hv
    exact (h.vacant_empty k (by rw [hv]; exact List.mem_cons_self)).2

theorem Tidy.node?_addNode (h : g.Tidy) (s : Statement) (m : NodeId) :
    (g.addNode s).2.node? m = if m = (g.addNode s).1 then some s else g.node? m := by
  unfold addNode
  split
  · simp only [node?]
    split
    · rename_i hm
      rw [hm, List.getElem?_concat_length]
      rfl
    · rename_i hm
      rcases Nat.lt_or_ge m g.slots.length with hlt | hge
      · rw [List.getElem?_append_left hlt]
      · rw [List.getElem?_eq_none hge, List.getElem?_eq_none]
        rw [List.length_append, List.length_singleton]
        exact Nat.lt_of_le_of_ne hge (Ne.symm hm)
  · rename_i k rest hv
    have hk := (h.vacant_empty k (by rw [hv]; exact List.mem_cons_self)).1
    simp only [node?, List.getElem?_set]
    by_cases hm : m = k
    · simp [hm, hk]
    · simp [hm, Ne.symm hm]

theorem Tidy.contains_addNode (h : g.Tidy) (s : Statement) (m : NodeId) :
    (g.addNode s).2.contains m = true ↔ m = (g.addNode s).1 ∨ g.contains m = true := by
  rw [contains, h.node?_addNode, contains]
  split <;> simp_all

theorem Tidy.addNode (h : g.Tidy) (s : Statement) : (g.addNode s).2.Tidy where
  joined := h.joined.mono (by simp) fun m hm => (h.contains_addNode s m).2 (.inr hm)
  vacant_empty m hm := by
    have hlen : g.slots.length ≤ (g.addNode s).2.slots.length := by
      unfold Graph.addNode
      split <;> simp
    have hne : m ≠ (g.addNode s).1 ∧ m ∈ g.vacant := by
      revert hm
      unfold Graph.addNode
      split
      · rename_i hv
        simp [hv]
      · rename_i k rest hv
        have hnd := h.vacant_nodup
        rw [hv, List.nodup_cons] at hnd
        intro hm
        refine ⟨?_, hv ▸ List.mem_cons_of_mem _ hm⟩
        rintro rfl
        exact hnd.1 hm
    obtain ⟨hlt, hnone⟩ := h.vacant_empty m hne.2
    rw [h.node?_addNode, if_neg hne.1]
    exact ⟨Nat.lt_of_lt_of_le hlt hlen, hnone⟩
  vacant_nodup := by
    have hnd := h.vacant_nodup
    unfold Graph.addNode
    split
    · exact hnd
    · rename_i k rest hv
      rw [hv, List.nodup_cons] at hnd
      exact hnd.2
  faultless := by
    unfold Graph.addNode
    split <;> exact h.faultless

@[simp] theorem node?_addEdge (g : Graph) (u v : NodeId) (k : EdgeKind) (m : NodeId) :
    (g.addEdge u v k).node? m = g.node? m := rfl

@[simp] theorem edges_addEdge (g : Graph) (u v : NodeId) (k : EdgeKind) :
    (g.addEdge u v k).edges = ⟨u, v, k⟩ :: g.edges := rfl

@[simp] theorem entries_addEdge (g : Graph) (u v : NodeId) (k : EdgeKind) :
    (g.addEdge u v k).entries = g.entries := rfl

theorem faults_addEdge {u v : NodeId} (hu : g.contains u = true) (hv : g.contains v = true)
    (k : EdgeKind) : (g.addEdge u v k).faults = g.faults := by
  simp [addEdge, hu, hv]

theorem Tidy.addEdge (h : g.Tidy) {u v : NodeId} (hu : g.contains u = true)
    (hv : g.contains v = true) (k : EdgeKind) : (g.addEdge u v k).Tidy where
  joined e he := by
    rcases List.mem_cons.1 he with rfl | he
    · exact ⟨hu, hv⟩
    · exact h.joined e he
  vacant_empty := h.vacant_empty
  vacant_nodup := h.vacant_nodup
  faultless := by rw [faults_addEdge hu hv, h.faultless]

@[simp] theorem node?_addEntry (g : Graph) (n m : NodeId) : (g.addEntry n).node? m = g.node? m := by
  unfold addEntry
  split <;> rfl

@[simp] theorem edges_addEntry (g : Graph) (n : NodeId) : (g.addEntry n).edges = g.edges := by
  unfold addEntry
  split <;> rfl

theorem entries_addEntry_of_nil (h : g.entries = []) : (g.addEntry n).entries = [n] := by
  simp [addEntry, h]

theorem Tidy.addEntry (h : g.Tidy) (n : NodeId) : (g.addEntry n).Tidy := by
  unfold Graph.addEntry
  split
  · exact h
  · exact h.setEntries _

/-! ### Changing and removing -/

theorem node?_setKind (g : Graph) (n : NodeId) (kind : StatementKind) (m : NodeId) :
    (g.setKind n kind).node? m =
      if m = n then (g.node? n).map fun s => { s with kind } else g.node? m := by
  unfold setKind
  split
  · rename_i s hs
    have hn := lt_of_contains (contains_of_node? hs)
    rw [hs]
    simp only [node?, List.getElem?_set]
    by_cases hm : m = n
    · simp [hm, hn]
    · simp [hm, Ne.symm hm]
  · rename_i hs
    rw [hs]
    by_cases hm : m = n <;> simp [hm, hs]

@[simp] theorem edges_setKind (g : Graph) (n : NodeId) (kind : StatementKind) :
    (g.setKind n kind).edges = g.edges := by
  unfold setKind
  split <;> rfl

@[simp] theorem entries_setKind (g : Graph) (n : NodeId) (kind : StatementKind) :
    (g.setKind n kind).entries = g.entries := by
  unfold setKind
  split <;> rfl

@[simp] theorem faults_setKind (g : Graph) (n : NodeId) (kind : StatementKind) :
    (g.setKind n kind).faults = g.faults := by
  unfold setKind
  split <;> rfl

@[simp] theorem contains_setKind (g : Graph) (n : NodeId) (kind : StatementKind) (m : NodeId) :
    (g.setKind n kind).contains m = g.contains m := by
  rw [contains, node?_setKind, contains]
  by_cases hm : m = n <;> simp [hm]

theorem Tidy.setKind (h : g.Tidy) (n : NodeId) (kind : StatementKind) :
    (g.setKind n kind).Tidy where
  joined := h.joined.mono (by simp) fun m hm => by rwa [contains_setKind]
  vacant_empty m hm := by
    have hv : (g.setKind n kind).vacant = g.vacant ∧
        (g.setKind n kind).slots.length = g.slots.length := by
      unfold Graph.setKind
      split <;> simp
    obtain ⟨hlt, hnone⟩ := h.vacant_empty m (hv.1 ▸ hm)
    refine ⟨by rw [hv.2]; exact hlt, ?_⟩
    rw [node?_setKind]
    split
    · rename_i hmn
      rw [← hmn, hnone]
      rfl
    · exact hnone
  vacant_nodup := by
    unfold Graph.setKind
    split <;> exact h.vacant_nodup
  faultless := by rw [faults_setKind, h.faultless]

@[simp] theorem node?_clearOutgoing (g : Graph) (n m : NodeId) :
    (g.clearOutgoing n).node? m = g.node? m := rfl

@[simp] theorem entries_clearOutgoing (g : Graph) (n : NodeId) :
    (g.clearOutgoing n).entries = g.entries := rfl

theorem mem_edges_clearOutgoing {e : Edge} :
    e ∈ (g.clearOutgoing n).edges ↔ e ∈ g.edges ∧ e.source ≠ n := by
  rw [clearOutgoing, List.mem_filter, bne_iff_ne]

theorem Tidy.clearOutgoing (h : g.Tidy) (n : NodeId) : (g.clearOutgoing n).Tidy :=
  h.removeEdges List.filter_sublist

theorem node?_removeNode (g : Graph) (n m : NodeId) :
    (g.removeNode n).node? m = if m = n then none else g.node? m := by
  unfold removeNode
  split
  · rename_i hn
    simp only [node?, List.getElem?_set]
    by_cases hm : m = n
    · simp [hm, lt_of_contains hn]
    · simp [hm, Ne.symm hm]
  · rename_i hn
    by_cases hm : m = n
    · rw [if_pos hm, hm]
      exact Option.not_isSome_iff_eq_none.1 hn
    · rw [if_neg hm]

theorem Tidy.edges_removeNode (h : g.Tidy) (n : NodeId) :
    (g.removeNode n).edges = g.edges.filter fun e => e.source != n && e.target != n := by
  unfold removeNode
  split
  · rfl
  · rename_i hn
    refine (List.filter_eq_self.2 fun e he => ?_).symm
    rw [Bool.and_eq_true, bne_iff_ne, bne_iff_ne]
    exact ⟨fun hs => hn (hs ▸ h.source_live e he), fun ht => hn (ht ▸ h.target_live e he)⟩

theorem Tidy.mem_edges_removeNode (h : g.Tidy) {e : Edge} :
    e ∈ (g.removeNode n).edges ↔ e ∈ g.edges ∧ e.source ≠ n ∧ e.target ≠ n := by
  rw [h.edges_removeNode, List.mem_filter, Bool.and_eq_true, bne_iff_ne, bne_iff_ne]

@[simp] theorem entries_removeNode (g : Graph) (n : NodeId) :
    (g.removeNode n).entries = g.entries := by
  unfold removeNode
  split <;> rfl

@[simp] theorem faults_removeNode (g : Graph) (n : NodeId) :
    (g.removeNode n).faults = g.faults := by
  unfold removeNode
  split <;> rfl

theorem contains_removeNode (g : Graph) (n m : NodeId) :
    (g.removeNode n).contains m = true ↔ m ≠ n ∧ g.contains m = true := by
  rw [contains, node?_removeNode, contains]
  by_cases hm : m = n <;> simp [hm]

theorem Tidy.removeNode (h : g.Tidy) (n : NodeId) : (g.removeNode n).Tidy where
  joined e he := by
    obtain ⟨he, hs, ht⟩ := h.mem_edges_removeNode.1 he
    rw [contains_removeNode, contains_removeNode]
    exact ⟨⟨hs, h.source_live e he⟩, ht, h.target_live e he⟩
  vacant_empty m hm := by
    rw [node?_removeNode]
    unfold Graph.removeNode at hm ⊢
    split
    · rename_i hn
      rw [if_pos hn] at hm
      rcases List.mem_cons.1 hm with rfl | hm
      · simpa using lt_of_contains hn
      · obtain ⟨hlt, hnone⟩ := h.vacant_empty m hm
        simpa [hnone] using hlt
    · rename_i hn
      rw [if_neg hn] at hm
      obtain ⟨hlt, hnone⟩ := h.vacant_empty m hm
      simpa [hnone] using hlt
  vacant_nodup := by
    unfold Graph.removeNode
    split
    · rename_i hn
      refine List.nodup_cons.2 ⟨fun hv => ?_, h.vacant_nodup⟩
      rw [contains, (h.vacant_empty n hv).2] at hn
      cases hn
    · exact h.vacant_nodup
  faultless := by rw [faults_removeNode, h.faultless]

@[simp] theorem node?_replaceEntry (g : Graph) (old new m : NodeId) :
    (g.replaceEntry old new).node? m = g.node? m := by
  unfold replaceEntry
  split
  · split <;> rfl
  · rfl

@[simp] theorem edges_replaceEntry (g : Graph) (old new : NodeId) :
    (g.replaceEntry old new).edges = g.edges := by
  unfold replaceEntry
  split
  · split <;> rfl
  · rfl

theorem entries_replaceEntry_single {e : NodeId} (h : g.entries = [e]) (old new : NodeId)
    (hne : old ≠ new) : (g.replaceEntry old new).entries = [if e = old then new else e] := by
  unfold replaceEntry
  rw [h]
  by_cases he : e = old
  · simp [he, Ne.symm hne]
  · simp [he, Ne.symm he, h]

theorem Tidy.replaceEntry (h : g.Tidy) (old new : NodeId) : (g.replaceEntry old new).Tidy := by
  unfold Graph.replaceEntry
  split
  · split <;> exact h.setEntries _
  · exact h

/-! ### Redirecting -/

/-- Adds to a graph an edge to a node for each edge of a list, from the same
source and of the same kind. -/
def joinAll (g : Graph) (es : List Edge) (target : NodeId) : Graph :=
  es.foldl (fun g e => g.addEdge e.source target e.kind) g

@[simp] theorem joinAll_nil (g : Graph) (t : NodeId) : g.joinAll [] t = g := rfl

@[simp] theorem joinAll_cons (g : Graph) (e : Edge) (es : List Edge) (t : NodeId) :
    g.joinAll (e :: es) t = (g.addEdge e.source t e.kind).joinAll es t := rfl

@[simp] theorem node?_joinAll (g : Graph) (es : List Edge) (t m : NodeId) :
    (g.joinAll es t).node? m = g.node? m := by
  induction es generalizing g with
  | nil => rfl
  | cons e es ih => rw [joinAll_cons, ih, node?_addEdge]

@[simp] theorem entries_joinAll (g : Graph) (es : List Edge) (t : NodeId) :
    (g.joinAll es t).entries = g.entries := by
  induction es generalizing g with
  | nil => rfl
  | cons e es ih => rw [joinAll_cons, ih, entries_addEdge]

theorem mem_edges_joinAll {es : List Edge} {t : NodeId} {e : Edge} :
    e ∈ (g.joinAll es t).edges ↔
      e ∈ g.edges ∨ ∃ d ∈ es, e = ⟨d.source, t, d.kind⟩ := by
  induction es generalizing g with
  | nil => simp
  | cons d es ih =>
    rw [joinAll_cons, ih, edges_addEdge, List.mem_cons]
    simp only [List.mem_cons, exists_eq_or_imp]
    tauto

theorem Tidy.joinAll (h : g.Tidy) {es : List Edge} {t : NodeId}
    (hs : ∀ e ∈ es, g.contains e.source = true) (ht : g.contains t = true) :
    (g.joinAll es t).Tidy := by
  induction es generalizing g with
  | nil => exact h
  | cons e es ih =>
    rw [joinAll_cons]
    exact ih (h.addEdge (hs e List.mem_cons_self) ht e.kind)
      (fun d hd => hs d (List.mem_cons_of_mem _ hd)) ht

theorem redirect_eq (g : Graph) (n t : NodeId) :
    g.redirect n t =
      ((g.removeNode n).joinAll ((g.incoming n).filter fun e => e.source != n) t).replaceEntry n t :=
  rfl

theorem node?_redirect (g : Graph) (n t m : NodeId) :
    (g.redirect n t).node? m = if m = n then none else g.node? m := by
  rw [redirect_eq, node?_replaceEntry, node?_joinAll, node?_removeNode]

/-- **Redirecting moves the edges into a node and drops the edges out of it.** -/
theorem Tidy.mem_edges_redirect (h : g.Tidy) {t : NodeId} {e : Edge} :
    e ∈ (g.redirect n t).edges ↔
      (e ∈ g.edges ∧ e.source ≠ n ∧ e.target ≠ n) ∨
        ∃ d ∈ g.edges, d.source ≠ n ∧ d.target = n ∧ e = ⟨d.source, t, d.kind⟩ := by
  rw [redirect_eq, edges_replaceEntry, mem_edges_joinAll, h.mem_edges_removeNode]
  refine or_congr_right ⟨?_, ?_⟩
  · rintro ⟨d, hd, rfl⟩
    obtain ⟨hd, hs⟩ := List.mem_filter.1 hd
    obtain ⟨hd, ht⟩ := mem_incoming.1 hd
    exact ⟨d, hd, bne_iff_ne.1 hs, ht, rfl⟩
  · rintro ⟨d, hd, hs, ht, rfl⟩
    exact ⟨d, List.mem_filter.2 ⟨mem_incoming.2 ⟨hd, ht⟩, bne_iff_ne.2 hs⟩, rfl⟩

theorem entries_redirect_single {e t : NodeId} (h : g.entries = [e]) (hne : n ≠ t) :
    (g.redirect n t).entries = [if e = n then t else e] := by
  rw [redirect_eq]
  exact entries_replaceEntry_single (by simpa using h) n t hne

theorem Tidy.redirect (h : g.Tidy) {t : NodeId} (ht : g.contains t = true) (hne : n ≠ t) :
    (g.redirect n t).Tidy := by
  rw [redirect_eq]
  refine ((h.removeNode n).joinAll (fun e he => ?_) ?_).replaceEntry n t
  · obtain ⟨he, hs⟩ := List.mem_filter.1 he
    exact (contains_removeNode g n _).2
      ⟨bne_iff_ne.1 hs, h.source_live e (mem_incoming.1 he).1⟩
  · exact (contains_removeNode g n t).2 ⟨Ne.symm hne, ht⟩

end Graph
end RustFlow
