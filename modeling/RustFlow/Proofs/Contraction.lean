/-
# Contraction of pass-through nodes

`simplify` splices pass-through no-ops out one at a time, over a graph that
changes with each of them.  `SpliceStep` says what one splice does; a splice
keeps the degrees of all other nodes (`length_incoming`, `length_outgoing`), so
the other pass-through nodes stay pass-through and no node becomes one
(`passThrough_iff`).  A node with one edge in that an entry reaches has no
self-loop, so no reachable pass-through node is ever refused
(`exists_spliceStep`), and one round removes them all (`spliceEach_all`).

The edges of the result are the paths of the start graph through the nodes that
were removed.  `Leads` says where such a path ends, and a splice keeps, for each
source and kind, the number of edges that lead to a given node (`countP_leads`).
Since a removed node has one edge out, an edge is the start of at most one path,
so that number is the number of paths (`encard_passages`).
-/

import RustFlow.Proofs.Traversal
import Mathlib.Data.Set.Card

namespace RustFlow
namespace Graph

variable {g g' : Graph} {n m : NodeId} {i o : Edge}

/-- A no-op, other than an entry, with one edge in and one edge out. -/
structure PassThrough (g : Graph) (n : NodeId) : Prop where
  noOp : ∃ s, g.node? n = some s ∧ s.isNoOp = true
  not_entry : g.isEntry n = false
  one_in : (g.incoming n).length = 1
  one_out : (g.outgoing n).length = 1

/-! ### One splice -/

/-- A pass-through node `n` is spliced out between its edges `i` and `o`. -/
structure SpliceStep (n : NodeId) (i o : Edge) (g g' : Graph) : Prop where
  pass : g.PassThrough n
  incoming : g.incoming n = [i]
  outgoing : g.outgoing n = [o]
  source_ne : i.source ≠ n
  target_ne : o.target ≠ n
  eq : g' = (g.removeNode n).addEdge i.source o.target i.kind

theorem spliceStep_of_splice? (hn : ∃ s, g.node? n = some s ∧ s.isNoOp = true)
    (he : g.isEntry n = false) (h : g.splice? n = some g') : ∃ i o, SpliceStep n i o g g' := by
  unfold splice? at h
  split at h
  · rename_i i o hi ho
    split at h
    · cases h
    · rename_i hloop
      rw [Bool.or_eq_true, beq_iff_eq, beq_iff_eq, not_or] at hloop
      refine ⟨i, o, ⟨hn, he, by rw [hi]; rfl, by rw [ho]; rfl⟩, hi, ho, hloop.1, hloop.2, ?_⟩
      exact (Option.some.inj h).symm
  · cases h

namespace SpliceStep

variable (h : SpliceStep n i o g g')

include h

theorem splice?_eq : g.splice? n = some g' := by
  have hs : (i.source == n) = false := beq_eq_false_iff_ne.2 h.source_ne
  have ht : (o.target == n) = false := beq_eq_false_iff_ne.2 h.target_ne
  simp only [splice?, h.incoming, h.outgoing, hs, ht, Bool.or_self, Bool.false_eq_true, if_false,
    h.eq]

theorem mem_in : i ∈ g.edges ∧ i.target = n :=
  mem_incoming.1 (by rw [h.incoming]; exact List.mem_singleton.2 rfl)

theorem mem_out : o ∈ g.edges ∧ o.source = n :=
  mem_outgoing.1 (by rw [h.outgoing]; exact List.mem_singleton.2 rfl)

theorem eq_in {e : Edge} (he : e ∈ g.edges) (ht : e.target = n) : e = i :=
  List.mem_singleton.1 (h.incoming ▸ mem_incoming.2 ⟨he, ht⟩)

theorem eq_out {e : Edge} (he : e ∈ g.edges) (hs : e.source = n) : e = o :=
  List.mem_singleton.1 (h.outgoing ▸ mem_outgoing.2 ⟨he, hs⟩)

theorem node?_eq (m : NodeId) : g'.node? m = if m = n then none else g.node? m := by
  rw [h.eq, node?_addEdge, node?_removeNode]

theorem entries_eq : g'.entries = g.entries := by
  rw [h.eq, entries_addEdge, entries_removeNode]

theorem edges_eq (ht : g.Tidy) :
    g'.edges = ⟨i.source, o.target, i.kind⟩ ::
      g.edges.filter fun e => e.source != n && e.target != n := by
  rw [h.eq, edges_addEdge, ht.edges_removeNode]

theorem mem_edges (ht : g.Tidy) {e : Edge} :
    e ∈ g'.edges ↔
      e = ⟨i.source, o.target, i.kind⟩ ∨ e ∈ g.edges ∧ e.source ≠ n ∧ e.target ≠ n := by
  rw [h.edges_eq ht, List.mem_cons, List.mem_filter, Bool.and_eq_true, bne_iff_ne, bne_iff_ne]

theorem tidy (ht : g.Tidy) : g'.Tidy := by
  rw [h.eq]
  refine (ht.removeNode n).addEdge ?_ ?_ i.kind
  · exact (contains_removeNode g n _).2 ⟨h.source_ne, ht.source_live i h.mem_in.1⟩
  · exact (contains_removeNode g n _).2 ⟨h.target_ne, ht.target_live o h.mem_out.1⟩

/-- **A splice trades two edges for one.**  What is counted among the edges changes
by these three only. -/
theorem countP_edges (ht : g.Tidy) (p : Edge → Bool) :
    g'.edges.countP p + (if p i then 1 else 0) + (if p o then 1 else 0) =
      g.edges.countP p + (if p ⟨i.source, o.target, i.kind⟩ then 1 else 0) := by
  have hin : (g.edges.filter fun e => e.target == n).countP p = if p i then 1 else 0 := by
    rw [show g.edges.filter (fun e => e.target == n) = [i] from h.incoming, List.countP_singleton]
  have hout : ((g.edges.filter fun e => !(e.target == n)).filter fun e => e.source == n).countP p =
      if p o then 1 else 0 := by
    -- an edge out of the node does not enter it again
    have hfilter : ((g.edges.filter fun e => !(e.target == n)).filter fun e => e.source == n) =
        g.outgoing n := by
      rw [List.filter_filter, Graph.outgoing]
      refine List.filter_congr fun e he => ?_
      by_cases hs : e.source = n
      · have ht : e.target ≠ n := by
          rw [h.eq_out he hs]
          exact h.target_ne
        simp [hs, ht]
      · simp [hs]
    rw [hfilter, h.outgoing, List.countP_singleton]
  have h₁ := List.countP_eq_countP_filter_add g.edges p fun e => e.target == n
  have h₂ := List.countP_eq_countP_filter_add (g.edges.filter fun e => !(e.target == n)) p
    fun e => e.source == n
  have hrest : ((g.edges.filter fun e => !(e.target == n)).filter fun e => !(e.source == n)) =
      g.edges.filter fun e => e.source != n && e.target != n := by
    rw [List.filter_filter]
    rfl
  rw [h.edges_eq ht, List.countP_cons]
  rw [← hrest]
  omega

theorem length_incoming (ht : g.Tidy) (hm : m ≠ n) :
    (g'.incoming m).length = (g.incoming m).length := by
  have hi : (i.target == m) = false := by simp [h.mem_in.2, Ne.symm hm]
  have := h.countP_edges ht fun e => e.target == m
  simp only [hi, Bool.false_eq_true, if_false] at this
  simp only [Graph.incoming, ← List.countP_eq_length_filter]
  omega

theorem length_outgoing (ht : g.Tidy) (hm : m ≠ n) :
    (g'.outgoing m).length = (g.outgoing m).length := by
  have ho : (o.source == m) = false := by simp [h.mem_out.2, Ne.symm hm]
  have := h.countP_edges ht fun e => e.source == m
  simp only [ho, Bool.false_eq_true, if_false] at this
  simp only [Graph.outgoing, ← List.countP_eq_length_filter]
  omega

/-- **The other pass-through nodes are what they were.** -/
theorem passThrough_iff (ht : g.Tidy) : g'.PassThrough m ↔ m ≠ n ∧ g.PassThrough m := by
  constructor
  · intro hm
    have hne : m ≠ n := by
      rintro rfl
      obtain ⟨s, hs, -⟩ := hm.noOp
      rw [h.node?_eq, if_pos rfl] at hs
      cases hs
    refine ⟨hne, ?_, ?_, ?_, ?_⟩
    · have := hm.noOp
      rwa [h.node?_eq, if_neg hne] at this
    · have := hm.not_entry
      rwa [isEntry, h.entries_eq] at this
    · rw [← h.length_incoming ht hne]
      exact hm.one_in
    · rw [← h.length_outgoing ht hne]
      exact hm.one_out
  · rintro ⟨hne, hm⟩
    refine ⟨?_, ?_, ?_, ?_⟩
    · rw [h.node?_eq, if_neg hne]
      exact hm.noOp
    · rw [isEntry, h.entries_eq]
      exact hm.not_entry
    · rw [h.length_incoming ht hne]
      exact hm.one_in
    · rw [h.length_outgoing ht hne]
      exact hm.one_out

/-- What is reached stays reached: a path through the node takes the new edge. -/
theorem reaches (ht : g.Tidy) {e : NodeId} (he : e ≠ n) (hr : g.Reaches e m) :
    (m ≠ n → g'.Reaches e m) ∧ (m = n → g'.Reaches e i.source) := by
  induction hr with
  | refl => exact ⟨fun _ => .refl, fun hm => absurd hm he⟩
  | @tail u v _ hstep ih =>
    obtain ⟨d, hd, rfl, rfl⟩ := hstep
    by_cases hs : d.source = n
    · obtain rfl := h.eq_out hd hs
      refine ⟨fun _ => (ih.2 hs).tail ?_, fun hn => absurd hn h.target_ne⟩
      exact ⟨_, (h.mem_edges ht).2 (.inl rfl), rfl, rfl⟩
    · refine ⟨fun hn => (ih.1 hs).tail ?_, fun hn => ?_⟩
      · exact ⟨d, (h.mem_edges ht).2 (.inr ⟨hd, hs, hn⟩), rfl, rfl⟩
      · obtain rfl := h.eq_in hd hn
        exact ih.1 hs

end SpliceStep

/-! ### Runs of splices -/

/-- Some splices lead from one graph to another. -/
def Splices : Graph → Graph → Prop :=
  Relation.ReflTransGen fun g g' => ∃ n i o, SpliceStep n i o g g'

theorem Splices.tidy (h : Splices g g') (ht : g.Tidy) : g'.Tidy := by
  induction h with
  | refl => exact ht
  | tail _ hstep ih =>
    obtain ⟨_, _, _, hstep⟩ := hstep
    exact hstep.tidy ih

/-- Every pass-through node is reached from an entry. -/
def PassReached (g : Graph) : Prop := ∀ n, g.PassThrough n → ∃ e ∈ g.entries, g.Reaches e n

theorem SpliceStep.passReached (h : SpliceStep n i o g g') (ht : g.Tidy) (hr : g.PassReached) :
    g'.PassReached := by
  intro m hm
  obtain ⟨hne, hm⟩ := (h.passThrough_iff ht).1 hm
  obtain ⟨e, he, hreach⟩ := hr m hm
  refine ⟨e, h.entries_eq.symm ▸ he, (h.reaches ht ?_ hreach).1 hne⟩
  rintro rfl
  have := h.pass.not_entry
  rw [isEntry, List.contains_eq_mem, decide_eq_false_iff_not] at this
  exact this he

/-- **A reachable pass-through node can be spliced out.**  Its only edge in comes
from elsewhere, so neither of its edges is a self-loop. -/
theorem exists_spliceStep (hr : g.PassReached) (hn : g.PassThrough n) :
    ∃ i o g', SpliceStep n i o g g' := by
  obtain ⟨i, hi⟩ := List.length_eq_one_iff.1 hn.one_in
  obtain ⟨o, ho⟩ := List.length_eq_one_iff.1 hn.one_out
  obtain ⟨e, he, hreach⟩ := hr n hn
  have hentry : e ≠ n := by
    rintro rfl
    have := hn.not_entry
    rw [isEntry, List.contains_eq_mem, decide_eq_false_iff_not] at this
    exact this he
  have hsource : i.source ≠ n := by
    -- with a self-loop as its only edge in, a path could end here only if it started here
    intro hself
    have hnever : ∀ u, g.Reaches e u → u ≠ n := by
      intro u hu
      induction hu with
      | refl => exact hentry
      | tail _ hstep ih =>
        rintro rfl
        obtain ⟨d, hd, hds, hdt⟩ := hstep
        have hdi : d = i := List.mem_singleton.1 (hi ▸ mem_incoming.2 ⟨hd, hdt⟩)
        exact ih (by rw [← hds, hdi, hself])
    exact hnever n hreach rfl
  have htarget : o.target ≠ n := by
    intro ht
    have hmem : o ∈ g.edges ∧ o.source = n :=
      mem_outgoing.1 (by rw [ho]; exact List.mem_singleton.2 rfl)
    have hoi : o = i := List.mem_singleton.1 (hi ▸ mem_incoming.2 ⟨hmem.1, ht⟩)
    exact hsource (hoi ▸ hmem.2)
  exact ⟨i, o, _, hn, hi, ho, hsource, htarget, rfl⟩

/-! ### Rounds -/

theorem spliceEach_eq_of_false (ns : List NodeId) (h : (spliceEach ns g).1 = false) :
    (spliceEach ns g).2 = g := by
  induction ns with
  | nil => rfl
  | cons n ns ih =>
    unfold spliceEach at h ⊢
    split
    · rename_i he
      rw [if_pos he] at h
      exact ih h
    · rename_i he
      rw [if_neg he] at h
      split
      · rename_i g' hs
        rw [hs] at h
        cases h
      · rename_i hs
        rw [hs] at h
        exact ih h

/-- **A round splices out every pass-through node of its list** and touches no
other node. -/
theorem spliceEach_all (ns : List NodeId) (ht : g.Tidy) (hr : g.PassReached) (hnd : ns.Nodup)
    (hno : ∀ n ∈ ns, ∃ s, g.node? n = some s ∧ s.isNoOp = true) :
    Splices g (spliceEach ns g).2 ∧
      (∀ m, (spliceEach ns g).2.PassThrough m ↔ g.PassThrough m ∧ m ∉ ns) ∧
      ((spliceEach ns g).1 = true ↔ ∃ n ∈ ns, g.PassThrough n) := by
  induction ns generalizing g with
  | nil => exact ⟨.refl, by simp [spliceEach], by simp [spliceEach]⟩
  | cons n ns ih =>
    rw [List.nodup_cons] at hnd
    have hskip : ¬g.PassThrough n →
        Splices g (spliceEach ns g).2 ∧
          (∀ m, (spliceEach ns g).2.PassThrough m ↔ g.PassThrough m ∧ m ∉ n :: ns) ∧
          ((spliceEach ns g).1 = true ↔ ∃ k ∈ n :: ns, g.PassThrough k) := by
      intro hn
      obtain ⟨h₁, h₂, h₃⟩ := ih ht hr hnd.2 fun k hk => hno k (List.mem_cons_of_mem _ hk)
      refine ⟨h₁, fun m => ?_, ?_⟩
      · rw [h₂, List.mem_cons, not_or]
        exact ⟨fun h => ⟨h.1, fun hm => hn (hm ▸ h.1), h.2⟩, fun h => ⟨h.1, h.2.2⟩⟩
      · rw [h₃, List.exists_mem_cons_iff]
        exact ⟨.inr, fun h => h.resolve_left hn⟩
    by_cases hn : g.PassThrough n
    · obtain ⟨i, o, g', hstep⟩ := exists_spliceStep hr hn
      have hrun : spliceEach (n :: ns) g = (true, (spliceEach ns g').2) := by
        rw [spliceEach, hn.not_entry, hstep.splice?_eq]
        rfl
      have hno' : ∀ k ∈ ns, ∃ s, g'.node? k = some s ∧ s.isNoOp = true := by
        intro k hk
        have hkn : k ≠ n := fun hkn => hnd.1 (hkn ▸ hk)
        rw [hstep.node?_eq, if_neg hkn]
        exact hno k (List.mem_cons_of_mem _ hk)
      obtain ⟨h₁, h₂, -⟩ := ih (hstep.tidy ht) (hstep.passReached ht hr) hnd.2 hno'
      rw [hrun]
      refine ⟨.head ⟨n, i, o, hstep⟩ h₁, fun m => ?_, iff_of_true rfl ⟨n, List.mem_cons_self, hn⟩⟩
      rw [h₂, hstep.passThrough_iff ht, List.mem_cons, not_or]
      tauto
    · have hrun : spliceEach (n :: ns) g = spliceEach ns g := by
        rw [spliceEach]
        split
        · rfl
        · rename_i he
          split
          · rename_i g' hs
            obtain ⟨i, o, hstep⟩ := spliceStep_of_splice? (hno n List.mem_cons_self)
              (Bool.eq_false_iff.2 he) hs
            exact absurd hstep.pass hn
          · rfl
      rw [hrun]
      exact hskip hn

theorem mem_noOps : n ∈ g.findNodes Statement.isNoOp ↔
    ∃ s, g.node? n = some s ∧ s.isNoOp = true := mem_findNodes

/-- **One round is enough.**  A second one finds nothing to splice, so any number of
rounds from one on gives the same graph. -/
theorem simplifyWithin_succ (ht : g.Tidy) (hr : g.PassReached) (k : Nat) :
    simplifyWithin (k + 1) g = (spliceEach (g.findNodes Statement.isNoOp) g).2 := by
  obtain ⟨h₁, h₂, -⟩ := spliceEach_all (g.findNodes Statement.isNoOp) ht hr (g.nodup_findNodes _)
    fun n hn => mem_noOps.1 hn
  have hnone : ∀ m, ¬(spliceEach (g.findNodes Statement.isNoOp) g).2.PassThrough m := by
    intro m hm
    obtain ⟨hm, hmem⟩ := (h₂ m).1 hm
    exact hmem (mem_noOps.2 hm.noOp)
  have ht' := h₁.tidy ht
  rw [simplifyWithin]
  split
  · rename_i g' hround
    rw [hround] at hnone ht' ⊢
    cases k with
    | zero => rfl
    | succ k =>
      obtain ⟨-, -, h₃⟩ := spliceEach_all (g'.findNodes Statement.isNoOp) ht'
        (fun m hm => absurd hm (hnone m)) (g'.nodup_findNodes _) fun n hn => mem_noOps.1 hn
      have hfalse : (spliceEach (g'.findNodes Statement.isNoOp) g').1 = false := by
        rw [← Bool.not_eq_true, h₃]
        rintro ⟨m, -, hm⟩
        exact hnone m hm
      have hsame := spliceEach_eq_of_false _ hfalse
      rw [simplifyWithin]
      split
      · rename_i h
        rw [h] at hfalse
        cases hfalse
      · rename_i h
        rw [h] at hsame
        exact hsame
  · rename_i g' hround
    rw [hround]

theorem Splices.passThrough_of (h : Splices g g') (ht : g.Tidy) (hm : g'.PassThrough m) :
    g.PassThrough m := by
  induction h with
  | refl => exact hm
  | tail hrun hstep ih =>
    obtain ⟨n, i, o, hstep⟩ := hstep
    exact ih ((hstep.passThrough_iff (Splices.tidy hrun ht)).1 hm).2

/-- What a run of splices does to a node: it stays as it is, unless it is a
pass-through node. -/
theorem Splices.node? (h : Splices g g') (ht : g.Tidy) (m : NodeId) :
    (¬g.PassThrough m → g'.node? m = g.node? m) ∧
      (g.PassThrough m → g'.PassThrough m ∨ g'.node? m = none) := by
  induction h with
  | refl => exact ⟨fun _ => rfl, .inl⟩
  | tail hrun hstep ih =>
    obtain ⟨n, i, o, hstep⟩ := hstep
    by_cases hm : m = n
    · refine ⟨fun hnot => absurd ?_ hnot, fun _ => .inr ?_⟩
      · rw [hm]
        exact Splices.passThrough_of hrun ht hstep.pass
      · rw [hstep.node?_eq, if_pos hm]
    · rw [hstep.node?_eq, if_neg hm, hstep.passThrough_iff (Splices.tidy hrun ht)]
      exact ⟨ih.1, fun hp => (ih.2 hp).imp (fun hp => ⟨hm, hp⟩) id⟩

theorem Splices.entries (h : Splices g g') : g'.entries = g.entries := by
  induction h with
  | refl => rfl
  | tail _ hstep ih =>
    obtain ⟨n, i, o, hstep⟩ := hstep
    rw [hstep.entries_eq, ih]

/-! ### Paths through pass-through nodes -/

/-- From the first node, passing only through pass-through nodes, one comes to the
second, which is none. -/
inductive Leads (g : Graph) : NodeId → NodeId → Prop where
  | here {v : NodeId} : ¬g.PassThrough v → Leads g v v
  | pass {v : NodeId} {e : Edge} : g.PassThrough e.source → e ∈ g.edges → Leads g e.target v →
      Leads g e.source v

theorem SpliceStep.leads (h : SpliceStep n i o g g') (ht : g.Tidy) {u v : NodeId}
    (hl : g.Leads u v) : (u ≠ n → g'.Leads u v) ∧ (u = n → g'.Leads o.target v) := by
  induction hl with
  | @here v hv =>
    refine ⟨fun _ => .here fun hp => hv ((h.passThrough_iff ht).1 hp).2, ?_⟩
    rintro rfl
    exact absurd h.pass hv
  | @pass v e hp he _ ih =>
    by_cases hs : e.source = n
    · obtain rfl := h.eq_out he hs
      exact ⟨fun hne => absurd hs hne, fun _ => ih.1 h.target_ne⟩
    · refine ⟨fun _ => ?_, fun hn => absurd hn hs⟩
      have hp' := (h.passThrough_iff ht).2 ⟨hs, hp⟩
      by_cases htn : e.target = n
      · -- the edge into the removed node continues as the new edge
        obtain rfl := h.eq_in he htn
        exact .pass (e := ⟨e.source, o.target, e.kind⟩) hp' ((h.mem_edges ht).2 (.inl rfl))
          (ih.2 htn)
      · exact .pass hp' ((h.mem_edges ht).2 (.inr ⟨he, hs, htn⟩)) (ih.1 htn)

theorem SpliceStep.leads_of_leads (h : SpliceStep n i o g g') (ht : g.Tidy) {u v : NodeId}
    (hv : v ≠ n) (hl : g'.Leads u v) : g.Leads u v := by
  induction hl with
  | @here v hnot => exact .here fun hp => hnot ((h.passThrough_iff ht).2 ⟨hv, hp⟩)
  | @pass v e hp he _ ih =>
    obtain ⟨hs, hp⟩ := (h.passThrough_iff ht).1 hp
    rcases (h.mem_edges ht).1 he with rfl | ⟨he, -, -⟩
    · refine .pass (e := i) hp h.mem_in.1 ?_
      rw [h.mem_in.2, ← h.mem_out.2]
      exact .pass (h.mem_out.2.symm ▸ h.pass) h.mem_out.1 (ih hv)
    · exact .pass hp he (ih hv)

open Classical in
/-- The edges out of `u` of a kind from which a path through pass-through nodes
leads to `v`. -/
noncomputable def leading (g : Graph) (u : NodeId) (k : EdgeKind) (v : NodeId) (e : Edge) : Bool :=
  decide (e.source = u ∧ e.kind = k ∧ g.Leads e.target v)

theorem leading_iff {u v : NodeId} {k : EdgeKind} {e : Edge} :
    g.leading u k v e = true ↔ e.source = u ∧ e.kind = k ∧ g.Leads e.target v := by
  simp only [leading, decide_eq_true_eq]

/-- **A splice keeps the number of edges that lead from one node to another.** -/
theorem SpliceStep.countP_leading (h : SpliceStep n i o g g') (ht : g.Tidy) {u v : NodeId}
    {k : EdgeKind} (hu : u ≠ n) (hv : v ≠ n) :
    g'.edges.countP (g'.leading u k v) = g.edges.countP (g.leading u k v) := by
  have hcount := h.countP_edges ht (g.leading u k v)
  have ho : g.leading u k v o = false := by
    rw [← Bool.not_eq_true, leading_iff]
    exact fun hl => hu (hl.1 ▸ h.mem_out.2)
  have hout : g.Leads n v ↔ g.Leads o.target v := by
    constructor
    · intro hl
      exact h.leads_of_leads ht hv ((h.leads ht hl).2 rfl)
    · intro hl
      rw [← h.mem_out.2]
      exact .pass (h.mem_out.2.symm ▸ h.pass) h.mem_out.1 hl
  have hi : g.leading u k v i = g.leading u k v ⟨i.source, o.target, i.kind⟩ := by
    rw [Bool.eq_iff_iff, leading_iff, leading_iff, h.mem_in.2, hout]
  have hsame : g'.edges.countP (g'.leading u k v) = g'.edges.countP (g.leading u k v) := by
    refine List.countP_congr fun e he => ?_
    have htarget : e.target ≠ n := by
      rcases (h.mem_edges ht).1 he with rfl | ⟨-, -, hne⟩
      · exact h.target_ne
      · exact hne
    rw [leading_iff, leading_iff]
    refine and_congr_right fun _ => and_congr_right fun _ => ?_
    exact ⟨h.leads_of_leads ht hv, fun hl => (h.leads ht hl).1 htarget⟩
  rw [hsame]
  rw [ho, hi] at hcount
  simp only [Bool.false_eq_true, if_false] at hcount
  omega

theorem Splices.countP_leading (h : Splices g g') (ht : g.Tidy) {u v : NodeId} {k : EdgeKind}
    (hu : ¬g.PassThrough u) (hv : ¬g.PassThrough v) :
    g'.edges.countP (g'.leading u k v) = g.edges.countP (g.leading u k v) := by
  induction h with
  | refl => rfl
  | tail hrun hstep ih =>
    obtain ⟨n, i, o, hstep⟩ := hstep
    have hn := Splices.passThrough_of hrun ht hstep.pass
    have hun : u ≠ n := fun h => hu (h ▸ hn)
    have hvn : v ≠ n := fun h => hv (h ▸ hn)
    rw [hstep.countP_leading (Splices.tidy hrun ht) hun hvn, ih]

theorem leads_iff_of_none (hnone : ∀ m, ¬g.PassThrough m) {u v : NodeId} :
    g.Leads u v ↔ u = v := by
  constructor
  · intro hl
    cases hl with
    | here => rfl
    | pass hp => exact absurd hp (hnone _)
  · rintro rfl
    exact .here (hnone _)

theorem countP_leading_of_none (hnone : ∀ m, ¬g.PassThrough m) (u v : NodeId) (k : EdgeKind) :
    g.edges.countP (g.leading u k v) = g.edges.count ⟨u, v, k⟩ := by
  rw [List.count]
  refine List.countP_congr fun e _ => ?_
  rw [leading_iff, leads_iff_of_none hnone, beq_iff_eq]
  cases e
  simp only [Edge.mk.injEq]
  tauto

/-! ### Counting the paths -/

/-- The positions of the elements with a property are as many as are counted. -/
theorem encard_positions {α : Type} (p : α → Bool) (l : List α) :
    {j : Nat | ∃ a, l[j]? = some a ∧ p a = true}.encard = l.countP p := by
  induction l with
  | nil => simp
  | cons a l ih =>
    have hset : {j : Nat | ∃ b, (a :: l)[j]? = some b ∧ p b = true} =
        {j : Nat | j = 0 ∧ p a = true} ∪ Nat.succ '' {j : Nat | ∃ b, l[j]? = some b ∧ p b = true} := by
      ext j
      cases j <;> simp
    have hdisj : Disjoint {j : Nat | j = 0 ∧ p a = true}
        (Nat.succ '' {j : Nat | ∃ b, l[j]? = some b ∧ p b = true}) := by
      rw [Set.disjoint_left]
      rintro j ⟨rfl, -⟩ ⟨k, -, hk⟩
      cases hk
    rw [hset, Set.encard_union_eq hdisj, Nat.succ_injective.encard_image, ih, List.countP_cons]
    by_cases ha : p a = true
    · simp [ha, add_comm]
    · simp [ha]

theorem position_unique {α : Type} {p : α → Bool} {l : List α} (h : (l.filter p).length = 1)
    {j k : Nat} {a b : α} (hj : l[j]? = some a) (hk : l[k]? = some b) (ha : p a = true)
    (hb : p b = true) : j = k := by
  have hone := encard_positions p l
  rw [List.countP_eq_length_filter, h] at hone
  obtain ⟨x, hx⟩ := Set.encard_eq_one.1 (by simpa using hone)
  have hj' : j ∈ {j : Nat | ∃ a, l[j]? = some a ∧ p a = true} := ⟨a, hj, ha⟩
  have hk' : k ∈ {j : Nat | ∃ a, l[j]? = some a ∧ p a = true} := ⟨b, hk, hb⟩
  rw [hx] at hj' hk'
  exact hj'.trans hk'.symm

/-- Positions of edges that form a path from a node to `v` all of whose nodes but
the last are in `S`. -/
def Threads (g : Graph) (S : NodeId → Prop) (v : NodeId) : NodeId → List Nat → Prop
  | w, [] => w = v
  | w, j :: p => S w ∧ ∃ e, g.edges[j]? = some e ∧ e.source = w ∧ Threads g S v e.target p

/-- Positions of edges that form a path which leaves `u` by an edge of kind `k`,
passes only through nodes of `S` and ends in `v`.  Parallel edges stand at
different positions, so they give different paths. -/
def Passage (g : Graph) (S : NodeId → Prop) (u : NodeId) (k : EdgeKind) (v : NodeId) :
    List Nat → Prop
  | [] => False
  | j :: p => ∃ e, g.edges[j]? = some e ∧ e.source = u ∧ e.kind = k ∧ Threads g S v e.target p

theorem exists_threads_iff {v w : NodeId} (hv : ¬g.PassThrough v) :
    (∃ p, Threads g g.PassThrough v w p) ↔ g.Leads w v := by
  constructor
  · rintro ⟨p, hp⟩
    induction p generalizing w with
    | nil =>
      obtain rfl : w = v := hp
      exact .here hv
    | cons j p ih =>
      obtain ⟨hw, e, he, rfl, hp⟩ := hp
      exact .pass hw (List.mem_of_getElem? he) (ih hp)
  · intro hl
    induction hl with
    | here => exact ⟨[], rfl⟩
    | @pass v e hp he _ ih =>
      obtain ⟨p, hthreads⟩ := ih hv
      obtain ⟨j, hj⟩ := List.getElem?_of_mem he
      exact ⟨j :: p, hp, e, hj, rfl, hthreads⟩

/-- Since a pass-through node has one edge out, there is one way on from a node. -/
theorem threads_unique {v w : NodeId} (hv : ¬g.PassThrough v) {p q : List Nat}
    (hp : Threads g g.PassThrough v w p) (hq : Threads g g.PassThrough v w q) : p = q := by
  induction p generalizing w q with
  | nil =>
    obtain rfl : w = v := hp
    cases q with
    | nil => rfl
    | cons k q => exact absurd hq.1 hv
  | cons j p ih =>
    obtain ⟨hw, e, he, hes, hp⟩ := hp
    cases q with
    | nil =>
      obtain rfl : w = v := hq
      exact absurd hw hv
    | cons k q =>
      obtain ⟨-, d, hd, hds, hq⟩ := hq
      obtain rfl : j = k := position_unique hw.one_out he hd (beq_iff_eq.2 hes) (beq_iff_eq.2 hds)
      obtain rfl : e = d := Option.some.inj (he.symm.trans hd)
      rw [ih hp hq]

/-- **There are as many paths as edges that lead there.** -/
theorem encard_passages {v : NodeId} (hv : ¬g.PassThrough v) (u : NodeId) (k : EdgeKind) :
    {p | Passage g g.PassThrough u k v p}.encard = g.edges.countP (g.leading u k v) := by
  rw [← encard_positions]
  -- a path is determined by its first edge
  refine Set.encard_congr (Equiv.ofBijective (fun p => ⟨p.1.headD 0, ?_⟩) ⟨?_, ?_⟩)
  · rcases p with ⟨_ | ⟨j, p⟩, hp⟩
    · exact absurd hp id
    · obtain ⟨e, he, hs, hk, hp⟩ := hp
      exact ⟨e, he, leading_iff.2 ⟨hs, hk, (exists_threads_iff hv).1 ⟨p, hp⟩⟩⟩
  · rintro ⟨_ | ⟨j, p⟩, hp⟩ ⟨_ | ⟨j', q⟩, hq⟩ hjj
    · rfl
    · exact absurd hp id
    · exact absurd hq id
    · obtain rfl : j = j' := congrArg Subtype.val hjj
      obtain ⟨e, he, -, -, hp⟩ := hp
      obtain ⟨d, hd, -, -, hq⟩ := hq
      obtain rfl : e = d := Option.some.inj (he.symm.trans hd)
      obtain rfl := threads_unique hv hp hq
      rfl
  · rintro ⟨j, e, he, hl⟩
    obtain ⟨hs, hk, hl⟩ := leading_iff.1 hl
    obtain ⟨p, hp⟩ := (exists_threads_iff hv).2 hl
    exact ⟨⟨j :: p, e, he, hs, hk, hp⟩, rfl⟩

/-! ### The whole contraction -/

/-- `r` is `g` with its pass-through nodes contracted: they are gone, all else is as
it was, and the edges of the result are the paths of `g` through them. -/
structure Contracts (g r : Graph) : Prop where
  removed : ∀ n, g.PassThrough n → r.node? n = none
  kept : ∀ n, ¬g.PassThrough n → r.node? n = g.node? n
  entries : r.entries = g.entries
  edges : ∀ u v k, ¬g.PassThrough u → ¬g.PassThrough v →
    {p | Passage g g.PassThrough u k v p}.encard = r.edges.count ⟨u, v, k⟩
  none_left : ∀ n, ¬r.PassThrough n

theorem simplify_eq_round (ht : g.Tidy) (hr : g.PassReached) :
    g.simplify = (spliceEach (g.findNodes Statement.isNoOp) g).2 :=
  simplifyWithin_succ ht hr _

theorem splices_simplify (ht : g.Tidy) (hr : g.PassReached) : Splices g g.simplify := by
  rw [simplify_eq_round ht hr]
  exact (spliceEach_all _ ht hr (g.nodup_findNodes _) fun n hn => mem_noOps.1 hn).1

theorem not_passThrough_simplify (ht : g.Tidy) (hr : g.PassReached) (m : NodeId) :
    ¬g.simplify.PassThrough m := by
  rw [simplify_eq_round ht hr,
    (spliceEach_all _ ht hr (g.nodup_findNodes _) fun n hn => mem_noOps.1 hn).2.1]
  exact fun h => h.2 (mem_noOps.2 h.1.noOp)

/-- **Simplification contracts the pass-through nodes,** whatever the order in which
they are spliced out. -/
theorem contracts_simplify (ht : g.Tidy) (hr : g.PassReached) : Contracts g g.simplify := by
  have hrun := splices_simplify ht hr
  have hnone := not_passThrough_simplify ht hr
  refine ⟨fun n hn => ((hrun.node? ht n).2 hn).resolve_left (hnone n), fun n hn => (hrun.node? ht n).1 hn,
    hrun.entries, fun u v k hu hv => ?_, hnone⟩
  rw [encard_passages hv, ← countP_leading_of_none hnone, hrun.countP_leading ht hu hv]

end Graph
end RustFlow
