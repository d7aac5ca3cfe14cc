/-
# Lowering is local

A call that lowers an expression, a block or a statement may start anywhere: at the first
statement of a body, or in the middle of a loop of one.  Whatever the nodes are that it
finds, it leaves them and the edges between them as they are, and adds nodes after them and
edges between its own nodes, whether or not it succeeds (`Graph.GrownFrom`).

An edge that is asked for without both its ends is a fault, which the graph records and never
forgets.  Nothing is recorded while a body is lowered, while its graph is closed, as far as
that goes, or while it is simplified (`lowering_local`).

This is growth (`Body.Grew`) for every sink: a returned value is allowed as if the function
had a result.
-/

import RustFlow.Proofs.ExitShape

namespace RustFlow

namespace Graph

/-- The nodes of a graph are `0`, ..., `n - 1`. -/
structure Dense (g : Graph) (n : Nat) : Prop where
  length : g.slots.length = n
  live : ∀ k, k < n → g.contains k = true
  vacant : g.vacant = []

/-- A node is one of `n`, ..., `m - 1`. -/
def Own (n m : Nat) (k : NodeId) : Prop := n ≤ k ∧ k < m

/-- A graph with the nodes `0`, ..., `m - 1` that was made from one with the nodes `0`, ...,
`n - 1`: these are as before, each new edge joins two of the new nodes, and none was asked
for without its ends. -/
structure GrownFrom (n m : Nat) (g g' : Graph) : Prop where
  dense : g'.Dense m
  le : n ≤ m
  nodes : ∀ k, k < n → g'.node? k = g.node? k
  edges : ∃ added, g'.edges = added ++ g.edges ∧
    ∀ e ∈ added, Own n m e.source ∧ Own n m e.target
  faults : g'.faults = g.faults

/-- Every edge that was ever asked for joined two nodes, and those that are left do. -/
def Faultless (g : Graph) : Prop := g.faults = [] ∧ g.Joined

theorem Tidy.noFault {g : Graph} (h : g.Tidy) : g.Faultless := ⟨h.faultless, h.joined⟩

end Graph

/-- The nodes that a fragment is entered and left by. -/
def Fragment.ends (f : Fragment) : List NodeId := f.entry :: f.exit.toList

namespace Body

open Graph

variable {set : Setting} {b b' : Body} {n : Nat} {f : Fragment}

/-- A call extends the graph, and the fragment that it gives, if any, ends at new nodes. -/
def Extending {α : Type} (m : Attempt Body α) (fragment : α → Option Fragment) (b : Body)
    (n : Nat) : Prop :=
  ∃ k, GrownFrom n k b.graph (m b).2.graph ∧
    ∀ v, (m b).1 = .ok v → ∀ f ∈ fragment v, ∀ x ∈ f.ends, Own n k x

theorem Placed.own {k : NodeId} (h : Placed n b k) : Own n b.size k := ⟨h.1, lt_of_contains h.2⟩

theorem FragmentIn.own (h : FragmentIn n b f) : ∀ x ∈ f.ends, Own n b.size x := by
  intro x hx
  rcases List.mem_cons.1 hx with rfl | hx
  · exact h.entry.own
  · exact (h.exit x (Option.mem_toList.1 hx)).placed.own

theorem Grew.grownFrom (h : Grew set n b b') (hb : b.graph.Dense n) :
    GrownFrom n b'.size b.graph b'.graph := by
  obtain ⟨ss, hss, -⟩ := h.slots
  obtain ⟨es, hes, hends⟩ := h.edges
  have hnodes (k : NodeId) (hk : k < n) : b'.graph.node? k = b.graph.node? k := by
    rw [Graph.node?, Graph.node?, hss, List.getElem?_append_left (hb.length ▸ hk)]
  refine ⟨⟨rfl, fun k hk => ?_, h.vacant⟩, hb.length ▸ h.size_le, hnodes,
    ⟨es, hes, fun e he => ?_⟩, h.faults⟩
  · by_cases hlt : k < n
    · rw [contains, hnodes k hlt]
      exact hb.live k hlt
    · rw [size, hss, List.length_append, List.length_map, hb.length] at hk
      have hin : k - n < ss.length := by omega
      refine contains_of_node? (s := ss[k - n]) ?_
      rw [Graph.node?, hss, List.getElem?_append_right (by rw [hb.length]; omega), hb.length]
      simp [hin]
  · exact ⟨(hends e he).1.placed.own, (hends e he).2.own⟩

theorem Ensures.extending {α : Type} {m : Attempt Body α} {fragment : α → Option Fragment}
    (hb : b.graph.Dense n)
    (h : Ensures set b.size m b fun v b' => ∀ f, fragment v = some f → FragmentIn b.size b' f) :
    Extending m fragment b n := by
  obtain rfl : b.size = n := hb.length
  exact ⟨_, h.1.grownFrom hb, fun v hv f hf => (h.2 v hv f hf).own⟩

theorem Local.extending {m : Attempt Body Fragment} (h : Local set m) (hb : b.graph.Dense n) :
    Extending m some b n :=
  Ensures.extending hb ((h b hb.vacant).imp fun _ _ _ hf _ hfrag => Option.some.inj hfrag ▸ hf)

theorem sound_everywhere (set : Setting) : (growth set { set with returnsUnit := false }).Sound :=
  sound_growth fun _ => rfl

end Body

namespace Cfg

open Graph

variable {g g' : Graph}

theorem faults_closeValueReturn (sig : Signature) {n : NodeId}
    (h : closeValueReturn sig g n = .ok g') : g'.faults = g.faults := by
  unfold closeValueReturn at h
  split at h <;> cases h
  · exact faults_setKind ..
  · rfl

theorem faults_closeExit (sig : Signature) {n : NodeId} (h : closeExit sig g n = .ok g') :
    g'.faults = g.faults := by
  unfold closeExit at h
  split at h <;> cases h
  · exact faults_setKind ..
  · rfl

theorem faults_foldlM {step : Graph → NodeId → Except Error Graph} {ns : List NodeId}
    (hstep : ∀ {g g' n}, step g n = .ok g' → g'.faults = g.faults) (h : ns.foldlM step g = .ok g') :
    g'.faults = g.faults := by
  induction ns generalizing g with
  | nil =>
    cases h
    rfl
  | cons n ns ih =>
    rw [List.foldlM_cons] at h
    cases hfirst : step g n with
    | error e =>
      rw [hfirst] at h
      cases h
    | ok g₁ =>
      rw [hfirst] at h
      exact (ih h).trans (hstep hfirst)

/-- **Lowering is local, and no edge is asked for without its ends.**  On a graph with the nodes
`0`, ..., `n - 1` every call that lowers an expression of any kind, a block or a statement, into
whatever sink, leaves a graph with the nodes `0`, ..., `m - 1`, whether or not it succeeds; the
first `n` nodes and the edges between them are as before, each edge that was added joins two of
the others, and so do the ends of the fragment that it gives.

No fault is recorded in the graph of a body, as far as it was lowered, nor in the graph that is
closed and simplified, and both ends of every edge are nodes.  Closing the graph of a function
with a result can fail at a `return` or at an exit; up to there it records no fault either. -/
theorem lowering_local (set : Setting) :
    (∀ {b : Body} {n : Nat}, b.graph.Dense n →
      (∀ sink e, Body.Extending (Body.lowerFlow set sink e) some b n) ∧
      (∀ sink body, Body.Extending (Body.lowerBlock set sink body) some b n) ∧
      ∀ sink s, Body.Extending (Body.lowerStmt set sink s) id b n) ∧
    (∀ config scope sig body arena,
      (lowerBody config scope sig body arena).2.graph.Faultless ∧
      ∀ cfg, (ofBody config scope sig body arena).1 = .ok cfg → cfg.graph.Faultless) ∧
    ∀ sig g h u (returns exits : List NodeId), returns.foldlM (closeValueReturn sig) g = .ok h →
      exits.foldlM (closeExit sig) (h.removeUnreachable []) = .ok u →
      h.faults = g.faults ∧ u.faults = g.faults := by
  have hJ := Body.sound_everywhere set
  refine ⟨fun hb => ⟨fun sink e => ?_, fun sink body => ?_, fun sink s => ?_⟩,
    fun config scope sig body arena => ⟨?_, fun cfg hcfg => ?_⟩,
    fun sig g h u returns exits hreturns hexits => ?_⟩
  · exact (Body.local_of_holds fun w => hJ.lowerFlow e (Body.sinks_growth fun _ => rfl)).extending hb
  · exact (Body.local_of_holds fun w => hJ.lowerBlock body (Body.sinks_growth fun _ => rfl)).extending hb
  · exact Body.Ensures.extending hb
      (Body.localOption_of_holds (fun w => hJ.lowerStmt s (Body.sinks_growth fun _ => rfl)) _ hb.vacant)
  · exact (Body.lowered_lower ⟨scope, config.freshStem, sig.returnsUnit⟩ body
      (sig.context arena)).1.tidy.noFault
  · rcases hrun : lowerBody config scope sig body arena with ⟨e | f, b⟩
    · rw [ofBody_of_error config scope sig body arena hrun] at hcfg
      cases hcfg
    · rw [ofBody_of_ok config scope sig body arena hrun] at hcfg
      rcases closeExits_cases sig (unclosed_lowerBody config scope sig body arena hrun) with
        ⟨-, s, -, he⟩ | ⟨-, u, e, hu, hshape⟩
      · rw [he] at hcfg
        cases hcfg
      · rw [hu] at hcfg
        cases hcfg
        have hsimple : Shape sig.returnsUnit e (if config.simplify then u.simplify else u) := by
          split
          · exact hshape.splices (splices_simplify hshape.tidy hshape.passReached)
          · exact hshape
        obtain ⟨e', hfinish, -⟩ := hsimple.finish sig
        exact hfinish.tidy.noFault
  · have hclosed := faults_foldlM (faults_closeValueReturn sig) hreturns
    refine ⟨hclosed, (faults_foldlM (faults_closeExit sig) hexits).trans ?_⟩
    rw [faults_removeUnreachable, hclosed]

/-- An endless loop is lowered beside a node that is already there. -/
theorem lowering_local_beside :
    let set : Setting := ⟨⟨⟨0⟩, none, [], true, "a.rs"⟩, "it", true⟩
    let b : Body := ⟨default, ⟨[some (.noOp ⟨1, 0⟩)], [], [], [0], []⟩, [], 0⟩
    b.graph.Dense 1 ∧
      Body.Extending (Body.lowerFlow set .discard (.loop ⟨1, 2⟩ none (.mk ⟨1, 7⟩ []))) some b 1 := by
  intro set b
  have hb : b.graph.Dense 1 := ⟨rfl, by decide, rfl⟩
  exact ⟨hb, ((lowering_local set).1 hb).1 .discard _⟩

end Cfg

end RustFlow
