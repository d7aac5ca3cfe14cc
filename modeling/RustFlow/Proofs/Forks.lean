/-
# How control forks in a finished graph

A node of a finished graph ends the function, tests a term, or proceeds in sequence
(`Role.Fits`).  While a body is lowered the ledger says so of each node that has all its
edges (`Held.branches`).  What comes after that changes many nodes and edges, but from
where control forks it goes on as before: each change only *reworks* the graph
(`Graph.Reworks`), that is, a node is what it was, with as many edges of each kind out of
it, or at most one edge leaves it, in sequence.  Closing the exits, splicing and the no-op
before a single node are all of this sort.
-/

import RustFlow.Proofs.Drawing
import RustFlow.Proofs.ExitShape
import RustFlow.Proofs.Walks

namespace RustFlow

open Ast

namespace Graph

variable {g g' g'' : Graph} {n m : NodeId} {strict : Prop} {sole : Term → Prop}

/-! ### Counting the edges out of a node -/

theorem fan_eq_countP (g : Graph) (n : NodeId) (k : EdgeKind) :
    g.fan n k = g.edges.countP fun e => e.kind == k && e.source == n := List.countP_filter

theorem fan_of_edges_eq (h : g'.edges = g.edges) (n : NodeId) (k : EdgeKind) :
    g'.fan n k = g.fan n k := by
  rw [fan_eq_countP, fan_eq_countP, h]

theorem fan_addEdge_of_ne (g : Graph) {u : NodeId} (v : NodeId) (k : EdgeKind) (hm : m ≠ u)
    (k' : EdgeKind) : (g.addEdge u v k).fan m k' = g.fan m k' := by
  refine fan_congr ?_ k'
  exact List.filter_cons_of_neg fun h => hm (beq_iff_eq.1 h).symm

theorem fan_pos_iff {k : EdgeKind} :
    0 < g.fan n k ↔ ∃ e ∈ g.edges, e.source = n ∧ e.kind = k := by
  simp only [fan_eq_countP, List.countP_pos_iff, Bool.and_eq_true, beq_iff_eq, and_comm]

theorem length_outgoing_eq (g : Graph) (n : NodeId) :
    (g.outgoing n).length =
      g.fan n .sequential + g.fan n .whenTrue + g.fan n .whenFalse := by
  simp only [fan]
  induction g.outgoing n with
  | nil => rfl
  | cons e es ih =>
    obtain ⟨source, target, kind⟩ := e
    simp only [List.length_cons, List.countP_cons, ih]
    cases kind <;> simp <;> omega

/-! ### Reworked graphs -/

/-- At most one edge leaves a node, in sequence. -/
structure Simple (g : Graph) (n : NodeId) : Prop where
  whenTrue : g.fan n .whenTrue = 0
  whenFalse : g.fan n .whenFalse = 0
  sequential : g.fan n .sequential ≤ 1

theorem Simple.congr (h : g.Simple n) (hfan : ∀ k, g'.fan n k = g.fan n k) : g'.Simple n :=
  ⟨(hfan _).trans h.whenTrue, (hfan _).trans h.whenFalse, hfan _ ▸ h.sequential⟩

theorem Halts.simple (h : g.Halts n) : g.Simple n := by
  have hfan := fan_of_nil (outgoing_eq_nil.2 h)
  exact ⟨hfan _, hfan _, hfan _ ▸ Nat.zero_le 1⟩

theorem Halts.simple_addEdge (h : g.Halts n) (v : NodeId) :
    (g.addEdge n v .sequential).Simple n := by
  have hrest : g.edges.filter (fun e => e.source == n) = [] := outgoing_eq_nil.2 h
  have hout : (g.addEdge n v .sequential).outgoing n = [⟨n, v, .sequential⟩] := by
    rw [outgoing, edges_addEdge, List.filter_cons, hrest, beq_self_eq_true, if_pos rfl]
  have hfan (k : EdgeKind) : (g.addEdge n v .sequential).fan n k =
      [(⟨n, v, .sequential⟩ : Edge)].countP fun e => e.kind == k := by rw [fan, hout]
  exact ⟨hfan _, hfan _, Nat.le_of_eq (hfan _)⟩

/-- Each node of the second graph is as in the first, or at most one edge leaves it, in
sequence. -/
def Reworks (g g' : Graph) : Prop :=
  ∀ n s, g'.node? n = some s →
    (g.node? n = some s ∧ ∀ k, g'.fan n k = g.fan n k) ∨ g'.Simple n

theorem Reworks.refl (g : Graph) : Reworks g g := fun _ _ hn => .inl ⟨hn, fun _ => rfl⟩

theorem Reworks.trans (h : Reworks g g') (h' : Reworks g' g'') : Reworks g g'' := by
  intro n s hn
  rcases h' n s hn with ⟨hn', hfan'⟩ | hsimple
  · rcases h n s hn' with ⟨hn, hfan⟩ | hsimple
    · exact .inl ⟨hn, fun k => (hfan' k).trans (hfan k)⟩
    · exact .inr (hsimple.congr hfan')
  · exact .inr hsimple

/-- Control forks at each node the way it should. -/
def Branches (strict : Prop) (sole : Term → Prop) (g : Graph) : Prop :=
  ∀ n s, g.node? n = some s → g.Forks strict sole n s

/-- **Control forks in a reworked graph as it did before.** -/
theorem Branches.reworks (h : g.Branches strict sole) (hr : Reworks g g') :
    g'.Branches strict sole := by
  intro n s hn
  rcases hr n s hn with ⟨hn, hfan⟩ | hsimple
  · exact (h n s hn).congr hfan
  · exact .step hsimple.whenTrue hsimple.whenFalse fun _ => hsimple.sequential

/-! ### Single changes -/

theorem reworks_of_ne (hnode : ∀ m, m ≠ n → g'.node? m = g.node? m)
    (hfan : ∀ m, m ≠ n → ∀ k, g'.fan m k = g.fan m k) (hn : g'.Simple n) : Reworks g g' := by
  intro m s hm
  by_cases hmn : m = n
  · exact .inr (hmn ▸ hn)
  · exact .inl ⟨by rw [← hnode m hmn, hm], hfan m hmn⟩

theorem reworks_addNode (ht : g.Tidy) (s : Statement) : Reworks g (g.addNode s).2 := by
  have hfan := fan_of_edges_eq (edges_addNode g s)
  refine reworks_of_ne (fun m hm => by rw [ht.node?_addNode, if_neg hm]) (fun m _ => hfan m) ?_
  -- an edge out of the new node would have no source before
  refine (Halts.simple fun e he hsource => ?_).congr (hfan _)
  have hlive := ht.source_live e he
  rw [hsource, contains, ht.node?_fresh s] at hlive
  cases hlive

theorem halts_clearOutgoing (g : Graph) (n : NodeId) : (g.clearOutgoing n).Halts n :=
  fun _ he => (mem_edges_clearOutgoing.1 he).2

theorem fan_clearOutgoing_of_ne (hm : m ≠ n) (k : EdgeKind) :
    (g.clearOutgoing n).fan m k = g.fan m k := by
  refine fan_congr ?_ k
  rw [outgoing, clearOutgoing, List.filter_filter]
  refine List.filter_congr fun e _ => ?_
  by_cases hs : e.source = m
  · simp [hs, hm]
  · simp [hs]

theorem node?_setKind_of_ne (g : Graph) (kind : StatementKind) (hm : m ≠ n) :
    (g.setKind n kind).node? m = g.node? m := by
  rw [node?_setKind, if_neg hm]

theorem reworks_end (g : Graph) (n : NodeId) (kind : StatementKind) :
    Reworks g ((g.setKind n kind).clearOutgoing n) :=
  reworks_of_ne (fun _ hm => node?_setKind_of_ne g kind hm)
    (fun m hm k => (fan_clearOutgoing_of_ne hm k).trans
      (fan_of_edges_eq (edges_setKind g n kind) m k))
    (halts_clearOutgoing _ n).simple

theorem reworks_setKind (hn : g.Halts n) (kind : StatementKind) :
    Reworks g (g.setKind n kind) := by
  have hfan := fan_of_edges_eq (edges_setKind g n kind)
  exact reworks_of_ne (fun _ hm => node?_setKind_of_ne g kind hm) (fun m _ => hfan m)
    (hn.simple.congr (hfan n))

theorem reworks_addEdge (hn : g.Halts n) (v : NodeId) :
    Reworks g (g.addEdge n v .sequential) :=
  reworks_of_ne (fun _ _ => rfl) (fun _ hm => fan_addEdge_of_ne g v .sequential hm)
    (hn.simple_addEdge v)

theorem fan_joinAll (g : Graph) (es : List Edge) (t : NodeId) (m : NodeId) (k : EdgeKind) :
    (g.joinAll es t).fan m k = g.fan m k + es.countP fun e => e.kind == k && e.source == m := by
  induction es generalizing g with
  | nil => rfl
  | cons e es ih =>
    rw [joinAll_cons, ih, fan_eq_countP, fan_eq_countP, edges_addEdge, List.countP_cons,
      List.countP_cons]
    dsimp only
    omega

/-- **Redirecting keeps the edges out of the other nodes,** but for where they lead. -/
theorem fan_redirect (hn : g.contains n = true) (t : NodeId) (hm : m ≠ n) (k : EdgeKind) :
    (g.redirect n t).fan m k = g.fan m k := by
  have hkept : (g.removeNode n).fan m k =
      (g.edges.filter fun e => !(e.target == n)).countP fun e => e.kind == k && e.source == m := by
    rw [fan_eq_countP, removeNode, if_pos hn, List.countP_filter, List.countP_filter]
    refine List.countP_congr fun e _ => ?_
    by_cases hs : e.source = m <;> simp [hs, hm]
  have hmoved : ((g.incoming n).filter fun e => e.source != n).countP
      (fun e => e.kind == k && e.source == m) =
      (g.edges.filter fun e => e.target == n).countP fun e => e.kind == k && e.source == m := by
    rw [List.countP_filter, incoming]
    refine List.countP_congr fun e _ => ?_
    by_cases hs : e.source = m <;> simp [hs, hm]
  rw [redirect_eq, fan_of_edges_eq (edges_replaceEntry _ n t), fan_joinAll, hkept, hmoved,
    fan_eq_countP, Nat.add_comm, ← List.countP_eq_countP_filter_add]

theorem reworks_redirect (hn : g.contains n = true) (t : NodeId) : Reworks g (g.redirect n t) := by
  intro m s hm
  rw [node?_redirect] at hm
  split at hm
  · cases hm
  · rename_i hmn
    exact .inl ⟨hm, fan_redirect hn t hmn⟩

/-! ### Closing and splicing -/

theorem reworks_foldl {f : Graph → NodeId → Graph} (h : ∀ g n, Reworks g (f g n))
    (ns : List NodeId) (g : Graph) : Reworks g (ns.foldl f g) := by
  induction ns generalizing g with
  | nil => exact .refl g
  | cons n ns ih => exact (h g n).trans (ih (f g n))

theorem reworks_foldlM {f : Graph → NodeId → Except Error Graph} {I : Graph → Prop}
    (ns : List NodeId)
    (hstep : ∀ n ∈ ns, ∀ g g', I g → f g n = .ok g' → Reworks g g' ∧ I g') (hg : I g)
    (hrun : ns.foldlM f g = .ok g') : Reworks g g' ∧ I g' := by
  induction ns generalizing g with
  | nil =>
    cases hrun
    exact ⟨.refl _, hg⟩
  | cons n ns ih =>
    rw [List.foldlM_cons] at hrun
    cases hone : f g n with
    | error e =>
      rw [hone] at hrun
      cases hrun
    | ok g₁ =>
      rw [hone] at hrun
      obtain ⟨hr, h₁⟩ := hstep n List.mem_cons_self g g₁ hg hone
      obtain ⟨hr', h'⟩ := ih (fun m hm => hstep m (List.mem_cons_of_mem n hm)) h₁ hrun
      exact ⟨hr.trans hr', h'⟩

theorem reworks_closeUnitReturn (ret : NodeId) (g : Graph) (n : NodeId) :
    Reworks g (Cfg.closeUnitReturn ret g n) := by
  unfold Cfg.closeUnitReturn
  split
  · exact (reworks_end g n _).trans (reworks_addEdge (halts_clearOutgoing _ n) ret)
  · rename_i hn
    obtain ⟨s, hs, -⟩ := Option.map_eq_some_iff.1 hn
    exact reworks_redirect (contains_of_node? hs) ret
  · exact .refl g

/-- **What is reached keeps all its edges,** since they lead to what is reached. -/
theorem outgoing_removeUnreachable (ht : g.Tidy) (hentries : ∀ e ∈ g.entries, g.contains e = true)
    (keep : List NodeId) (hn : ∃ e ∈ g.entries, g.Reaches e n) :
    (g.removeUnreachable keep).outgoing n = g.outgoing n := by
  have hreached : n ∈ g.postorder := (mem_postorder ht hentries).2 hn
  simp only [removeUnreachable]
  rw [outgoing, ht.edges_removeAll, List.filter_filter]
  refine List.filter_congr fun e he => ?_
  by_cases hs : e.source = n
  · obtain ⟨d, hd, hreach⟩ := hn
    have htarget : e.target ∈ g.postorder :=
      (mem_postorder ht hentries).2 ⟨d, hd, hreach.tail ⟨e, he, hs, rfl⟩⟩
    simp [hs, hreached, htarget]
  · simp [hs]

theorem reworks_removeUnreachable (ht : g.Tidy) (hentries : ∀ e ∈ g.entries, g.contains e = true)
    {keep : List NodeId} (hkeep : ∀ n ∈ keep, g.Halts n) :
    Reworks g (g.removeUnreachable keep) := by
  intro n s hn
  rcases node?_removeUnreachable ht hentries keep n with ⟨hnode, hreached | hmem⟩ | ⟨hnone, -⟩
  · exact .inl ⟨hnode ▸ hn, fan_congr (outgoing_removeUnreachable ht hentries keep hreached)⟩
  · refine .inr (Halts.simple fun e he => hkeep n hmem e ?_)
    exact ((mem_edges_removeUnreachable ht hentries keep).1 he).1
  · rw [hnone] at hn
    cases hn

theorem reworks_foldl_joinExit (ret : NodeId) (ns : List NodeId) (hns : ∀ n ∈ ns, g.Halts n)
    (hnd : ns.Nodup) : Reworks g (ns.foldl (Cfg.joinExit ret) g) := by
  induction ns generalizing g with
  | nil => exact .refl g
  | cons n ns ih =>
    rw [List.nodup_cons] at hnd
    rw [List.foldl_cons]
    have hrest (m : NodeId) (hm : m ∈ ns) : g.Halts m := hns m (List.mem_cons_of_mem n hm)
    by_cases hret : n = ret
    · have heq : Cfg.joinExit ret g n = g := by simp [Cfg.joinExit, hret]
      rw [heq]
      exact ih hrest hnd.2
    · have heq : Cfg.joinExit ret g n = g.addEdge n ret .sequential := by
        simp [Cfg.joinExit, hret]
      rw [heq]
      refine (reworks_addEdge (hns n List.mem_cons_self) ret).trans (ih (fun m hm e he => ?_) hnd.2)
      rcases List.mem_cons.1 he with rfl | he
      · exact fun (h : n = m) => hnd.1 (h ▸ hm)
      · exact hrest m hm e he

theorem reworks_joinExits (ret : NodeId) (g : Graph) :
    Reworks g (g.exits.foldl (Cfg.joinExit ret) g) :=
  reworks_foldl_joinExit ret g.exits (fun _ hn => (mem_exits.1 hn).2) (g.nodup_nodes.filter _)

/-- **Closing a function without a result.** -/
theorem reworks_closeUnit {entry : NodeId} (ht : g.Tidy) (hentries : g.entries = [entry])
    (hentry : g.contains entry = true) (pos : Position) : Reworks g (Cfg.closeUnit pos g) := by
  have hmerged := merged_closeReturns ht hentries pos
  have hkeep : ∀ n ∈ [(g.addNode ⟨.ret, pos⟩).1], Halts _ n := fun n hn e he =>
    List.mem_singleton.1 hn ▸ hmerged.source_ne ht he
  have hreturns := reworks_foldl (reworks_closeUnitReturn (g.addNode ⟨.ret, pos⟩).1)
    ((g.addNode ⟨.ret, pos⟩).2.findNodes Statement.isWrittenReturn) (g.addNode ⟨.ret, pos⟩).2
  have hpruned := reworks_removeUnreachable hmerged.tidy (hmerged.entries_live hentry) hkeep
  have hclosed := ((reworks_addNode ht ⟨.ret, pos⟩).trans hreturns).trans hpruned
  exact hclosed.trans (reworks_joinExits (g.addNode ⟨.ret, pos⟩).1 _)

/-- What a function with a result keeps while its written returns are turned into final
ones. -/
structure Entered (entry : NodeId) (g : Graph) : Prop where
  tidy : g.Tidy
  entries : g.entries = [entry]
  live : g.contains entry = true

theorem reworks_closeValueReturn {entry : NodeId} (sig : Signature) (hg : g.Entered entry)
    (hrun : Cfg.closeValueReturn sig g n = .ok g') : Reworks g g' ∧ g'.Entered entry := by
  unfold Cfg.closeValueReturn at hrun
  split at hrun
  · cases hrun
    refine ⟨reworks_end g n _, (hg.tidy.setKind n _).clearOutgoing n, ?_, ?_⟩
    · rw [entries_clearOutgoing, entries_setKind, hg.entries]
    · exact (contains_setKind g n _ entry).trans hg.live
  · cases hrun
  · cases hrun
    exact ⟨.refl g, hg⟩

theorem reworks_closeExit (sig : Signature) (hn : g.Halts n)
    (hrun : Cfg.closeExit sig g n = .ok g') : Reworks g g' ∧ g'.edges = g.edges := by
  unfold Cfg.closeExit at hrun
  split at hrun
  · cases hrun
    exact ⟨reworks_setKind hn _, edges_setKind g n _⟩
  · cases hrun
  · cases hrun
    exact ⟨.refl g, rfl⟩

/-- **Closing a function with a result.** -/
theorem reworks_closeValue {entry : NodeId} (sig : Signature) (hg : g.Entered entry)
    (hrun : Cfg.closeValue sig g = .ok g') : Reworks g g' := by
  unfold Cfg.closeValue at hrun
  cases hreturns : (g.findNodes Statement.isWrittenReturn).foldlM (Cfg.closeValueReturn sig) g with
  | error e =>
    rw [hreturns] at hrun
    cases hrun
  | ok h =>
    rw [hreturns] at hrun
    obtain ⟨hr, hh⟩ := reworks_foldlM _ (fun n _ g g' => reworks_closeValueReturn sig) hg hreturns
    have hentries : ∀ e ∈ h.entries, h.contains e = true := by
      rw [hh.entries]
      rintro e he
      rw [List.mem_singleton.1 he]
      exact hh.live
    have hpruned : Reworks h (h.removeUnreachable []) :=
      reworks_removeUnreachable hh.tidy hentries fun _ hn => by cases hn
    refine (hr.trans hpruned).trans (reworks_foldlM (I := fun u => u.edges =
      (h.removeUnreachable []).edges) _ (fun n hn u u' hu hone => ?_) rfl hrun).1
    have hhalts : u.Halts n := by
      rw [Halts, hu]
      exact (mem_exits.1 hn).2
    obtain ⟨hr', hedges⟩ := reworks_closeExit sig hhalts hone
    exact ⟨hr', hedges.trans hu⟩

/-- **A splice** keeps the edges out of the other nodes, but for where they lead. -/
theorem SpliceStep.reworks {i o : Edge} (h : SpliceStep n i o g g') (ht : g.Tidy) :
    Reworks g g' := by
  intro m s hm
  rw [h.node?_eq] at hm
  split at hm
  · cases hm
  · rename_i hmn
    refine .inl ⟨hm, fun k => ?_⟩
    have hcount := h.countP_edges ht fun e => e.kind == k && e.source == m
    have ho : (o.source == m) = false := by simp [h.mem_out.2, Ne.symm hmn]
    simp only [ho, Bool.and_false, Bool.false_eq_true, if_false] at hcount
    rw [fan_eq_countP, fan_eq_countP]
    omega

theorem Splices.reworks (h : Splices g g') (ht : g.Tidy) : Reworks g g' := by
  induction h with
  | refl => exact .refl g
  | tail hrun hstep ih =>
    obtain ⟨_, _, _, hstep⟩ := hstep
    exact ih.trans (hstep.reworks (Splices.tidy hrun ht))

theorem Guarded.reworks {entry e : NodeId} {pos : Position} (h : Guarded entry e pos g g')
    (ht : g.Tidy) : Reworks g g' := by
  have hhalts : g.Halts e := fun d hd hs => h.ne_of_contains (ht.source_live d hd) hs
  have hfan (m : NodeId) (k : EdgeKind) : g'.fan m k = (g.addEdge e entry .sequential).fan m k :=
    fan_of_edges_eq h.edges m k
  refine reworks_of_ne (fun m hm => by rw [h.node?, if_neg hm]) (fun m hm k => ?_) ?_
  · rw [hfan, fan_addEdge_of_ne g entry .sequential hm]
  · exact (hhalts.simple_addEdge entry).congr (hfan e)

theorem reworks_finish {entry : NodeId} (sig : Signature) (hg : g.Entered entry) :
    Reworks g (Cfg.finish sig g) := by
  unfold Cfg.finish
  split
  · obtain ⟨e, pos, hguarded⟩ := guarded_guardSingle sig hg.tidy hg.entries hg.live
    exact hguarded.reworks hg.tidy
  · exact .refl g

/-- **Closing the exits.** -/
theorem reworks_closeExits {entry : NodeId} (sig : Signature) (hg : g.Entered entry)
    (hrun : Cfg.closeExits sig g = .ok g') : Reworks g g' := by
  unfold Cfg.closeExits at hrun
  split at hrun
  · obtain rfl := Except.ok.inj hrun
    exact reworks_closeUnit hg.tidy hg.entries hg.live _
  · exact reworks_closeValue sig hg hrun

end Graph

/-! ### Whole bodies -/

/-- Whether a place is no `loop`, or one that a `break` inside it leaves. -/
def Place.isLeft (p : Place) : Bool :=
  match p.expr with
  | .loop _ label body => (leavesOf (body.jumps (label :: p.loops))).contains p.loops.length
  | _ => true

namespace Ast

/-- The places of the body of a function. -/
def Block.allPlaces (set : Setting) (body : Block) : List Place :=
  body.places set.returnsUnit [] (!set.returnsUnit)

/-- Whether each `loop` of a body is left by a `break`. -/
def Block.loopsLeft (set : Setting) (body : Block) : Bool :=
  (body.allPlaces set).all Place.isLeft

/-- A term is the test of the last arm of a `match` whose value is returned, or of a last
arm that takes every value. -/
def Block.Unfailing (set : Setting) (body : Block) (t : Term) : Prop :=
  ∃ p ∈ body.allPlaces set, ∃ pos scrutinee arms arm value,
    p.expr = .matchOn pos scrutinee arms ∧ scrutinee.Becomes set.scope value ∧
      arms.getLast? = some arm ∧ (p.returned = true ∨ arm.takesAll = true) ∧
      arm.TestedBy set value t

end Ast

namespace Body

open Graph Ast

variable {D : Design} {left : List Nat} {b : Body}

/-- Outside all loops the exit is the only node in the ledger of a fragment. -/
theorem Held.branches {f : Fragment} (h : Held D [] (f.exits ++ []) left b) :
    b.graph.Branches D.strict D.sole := by
  intro n s hn
  have hwaiting : b.waiting = [] := by
    rw [waiting, List.map_eq_nil_iff.1 h.labels, List.flatMap_nil]
  by_cases hmem : n ∈ (f.exits ++ []).map Prod.fst
  · obtain ⟨p, hp, rfl⟩ := List.mem_map.1 hmem
    have hmeets := h.entries p hp
    obtain ⟨x, -, rfl⟩ := List.mem_map.1 (List.append_nil f.exits ▸ hp)
    obtain ⟨-, htrue, hfalse, hseq⟩ := hmeets
    refine .step htrue hfalse fun hstrict => ?_
    rw [fan_of_nil (hseq hstrict)]
    exact Nat.zero_le 1
  · exact h.settled n s hn (by rwa [hwaiting, List.append_nil])

theorem isReturned_start (unit : Bool) :
    (if unit then Sink.discard else Sink.returned).isReturned = !unit := by cases unit <;> rfl

/-- **Control forks in a lowered body as its syntax says.** -/
theorem branches_lower (set : Setting) (body : Block) (c : Context) {f : Fragment}
    (hrun : lower set body (.start c) = (.ok f, b)) :
    b.graph.Branches (body.loopsLeft set = true) (body.Unfailing set) := by
  let D : Design := ⟨body.loopsLeft set = true, body.Unfailing set, b.graph⟩
  have hcovers : CoversAll D set (body.allPlaces set) := by
    intro p hp
    refine ⟨fun pos label inner heq hstrict => ?_, fun pos scrutinee arms arm value t => ?_⟩
    · have hleft := List.all_eq_true.1 hstrict p hp
      rw [Place.isLeft, heq] at hleft
      exact List.contains_iff_mem.1 hleft
    · exact fun heq hvalue hlast hor htest =>
        ⟨p, hp, pos, scrutinee, arms, arm, value, heq, hvalue, hlast, hor, htest⟩
  rw [Block.allPlaces, ← isReturned_start] at hcovers
  obtain ⟨-, hheld, -⟩ := constructs_lowerBlock set body hcovers [] [] _ f b hrun (held_start D c)
  exact hheld.branches

end Body

/-! ### Finished graphs -/

/-- What a node of a finished graph does. -/
inductive Role where
  /-- The node ends the function. -/
  | ends
  /-- The node tests a term. -/
  | tests
  /-- Control proceeds from the node in sequence. -/
  | proceeds

/-- A node plays a role, where the tests that need no false edge are given. -/
def Role.Fits (sole : Term → Prop) (g : Graph) (n : NodeId) (s : Statement) : Role → Prop
  | ends => (s.isRet = true ∨ s.isReturnValue = true) ∧ g.outgoing n = []
  | tests => ∃ t, s.kind = .expression t ∧ g.fan n .whenTrue = 1 ∧ g.fan n .whenFalse ≤ 1 ∧
      g.fan n .sequential = 0 ∧ (g.fan n .whenFalse = 0 → sole t)
  | proceeds => (s.isNoOp = true ∨ ∃ t, s.kind = .expression t) ∧ g.outgoing n ≠ [] ∧
      ∀ e ∈ g.outgoing n, e.kind = .sequential

namespace Graph

variable {g : Graph} {n entry : NodeId} {s : Statement} {strict : Prop} {sole : Term → Prop}
  {returnsUnit : Bool}

/-- The role that the edges out of a node allow it. -/
def roleAt (g : Graph) (n : NodeId) : Role :=
  if (g.outgoing n).isEmpty then .ends
  else if g.fan n .whenTrue = 0 then .proceeds
  else .tests

theorem eq_roleAt {r : Role} (h : r.Fits sole g n s) : r = g.roleAt n := by
  unfold roleAt
  cases r with
  | ends => rw [h.2, List.isEmpty_nil, if_pos rfl]
  | tests =>
    obtain ⟨t, -, htrue, -⟩ := h
    have hne : ¬(g.outgoing n).isEmpty = true := fun hempty => by
      rw [fan_of_nil (List.isEmpty_iff.1 hempty)] at htrue
      cases htrue
    rw [if_neg hne, htrue, if_neg Nat.one_ne_zero]
  | proceeds =>
    obtain ⟨-, hne, hseq⟩ := h
    have htrue : g.fan n .whenTrue = 0 := by
      refine List.countP_eq_zero.2 fun e he hk => ?_
      rw [hseq e he] at hk
      cases hk
    rw [if_neg (mt List.isEmpty_iff.1 hne), if_pos htrue]

section Roles

variable (hg : Shape returnsUnit entry g) (hn : g.node? n = some s)

include hg hn

theorem Shape.ends_iff : g.outgoing n = [] ↔ s.isRet = true ∨ s.isReturnValue = true := by
  have hother := hg.other_kind n s hn
  rw [outgoing_eq_nil, hg.halts_iff n s hn]
  cases returnsUnit <;> simp_all

theorem Shape.kind_of_goesOn (hout : g.outgoing n ≠ []) :
    s.isNoOp = true ∨ ∃ t, s.kind = .expression t := by
  have hwritten := hg.not_written n s hn
  rw [ne_eq, hg.ends_iff hn, not_or] at hout
  obtain ⟨kind, pos⟩ := s
  cases kind with
  | expression t => exact .inr ⟨t, rfl⟩
  | noOp => exact .inl rfl
  | ret => exact absurd rfl hout.1
  | returnValue t => exact absurd rfl hout.2
  | writtenReturn t => cases hwritten

/-- **A node plays the role that its edges allow it.** -/
theorem Shape.fits_roleAt (hb : g.Branches strict sole) : (g.roleAt n).Fits sole g n s := by
  by_cases hout : g.outgoing n = []
  · rw [roleAt, hout, List.isEmpty_nil, if_pos rfl]
    exact ⟨(hg.ends_iff hn).1 hout, hout⟩
  · rw [roleAt, if_neg (mt List.isEmpty_iff.1 hout)]
    cases hb n s hn with
    | step htrue hfalse _ =>
      rw [if_pos htrue]
      refine ⟨hg.kind_of_goesOn hn hout, hout, fun e he => ?_⟩
      cases hk : e.kind with
      | sequential => rfl
      | whenTrue => exact absurd (beq_iff_eq.2 hk) (List.countP_eq_zero.1 htrue e he)
      | whenFalse => exact absurd (beq_iff_eq.2 hk) (List.countP_eq_zero.1 hfalse e he)
    | guard ht htrue hseq hfalse =>
      rw [htrue, if_neg Nat.one_ne_zero]
      refine ⟨_, ht, htrue, ?_, hseq, fun hzero => ?_⟩
      · rcases hfalse with hone | ⟨hzero, -⟩ <;> omega
      · exact (hfalse.resolve_left (by omega)).2

omit hg

theorem length_of_proceeds (hb : g.Branches strict sole) (hstrict : strict)
    (h : Role.proceeds.Fits sole g n s) : (g.outgoing n).length = 1 := by
  obtain ⟨-, hne, hseq⟩ := h
  have hpos : 0 < (g.outgoing n).length := List.length_pos_iff.2 hne
  have hlength := g.length_outgoing_eq n
  cases hb n s hn with
  | step htrue hfalse hle =>
    have := hle hstrict
    omega
  | guard _ htrue _ _ =>
    obtain ⟨e, he, hs, hk⟩ := fan_pos_iff.1 (Nat.lt_of_lt_of_eq Nat.one_pos htrue.symm)
    have := hseq e (mem_outgoing.2 ⟨he, hs⟩)
    rw [hk] at this
    cases this

end Roles

theorem Shape.expression_of_kind (hg : Shape returnsUnit entry g) (hb : g.Branches strict sole)
    {e : Edge} (he : e ∈ g.edges) (hk : e.kind ≠ .sequential) :
    ∃ s t, g.node? e.source = some s ∧ s.kind = .expression t := by
  obtain ⟨s, hs⟩ := contains_iff.1 (hg.tidy.source_live e he)
  have hmem : e ∈ g.outgoing e.source := mem_outgoing.2 ⟨he, rfl⟩
  have hfits := hg.fits_roleAt hs hb
  cases hrole : g.roleAt e.source with
  | ends =>
    rw [hrole] at hfits
    rw [hfits.2] at hmem
    cases hmem
  | tests =>
    rw [hrole] at hfits
    obtain ⟨t, ht, -⟩ := hfits
    exact ⟨s, t, hs, ht⟩
  | proceeds =>
    rw [hrole] at hfits
    exact absurd (hfits.2.2 e hmem) hk

theorem Unclosed.entered (h : Unclosed returnsUnit entry g) : g.Entered entry :=
  ⟨h.tidy, h.entries, h.entry_live⟩

theorem Shape.entered (h : Shape returnsUnit entry g) : g.Entered entry :=
  ⟨h.tidy, h.entries, h.entry_live⟩

theorem reworks_addEntry (g : Graph) (n : NodeId) : Reworks g (g.addEntry n) := fun m _ hm =>
  .inl ⟨node?_addEntry g n m ▸ hm, fan_of_edges_eq (edges_addEntry g n) m⟩

end Graph

namespace Cfg

open Graph

variable (config : Config) (scope : Scope) (sig : Signature) (body : Block) (arena : Arena)

/-- **A finished graph** has its shape, and control forks in it as the syntax says. -/
theorem branches_ofBody {cfg : Cfg} (h : (ofBody config scope sig body arena).1 = .ok cfg) :
    let set : Setting := ⟨scope, config.freshStem, sig.returnsUnit⟩
    ∃ entry, Shape sig.returnsUnit entry cfg.graph ∧
      cfg.graph.Branches (body.loopsLeft set = true) (body.Unfailing set) := by
  intro set
  obtain ⟨f, b, u, e, hrun, hu, hshape, rfl⟩ := ofBody_ok config scope sig body arena h
  have hopen := unclosed_lowerBody config scope sig body arena hrun
  have hbranches : u.Branches (body.loopsLeft set = true) (body.Unfailing set) :=
    ((Body.branches_lower set body _ hrun).reworks (reworks_addEntry _ _)).reworks
      (reworks_closeExits sig hopen.entered hu)
  obtain ⟨hsimple, hreworks⟩ :
      Shape sig.returnsUnit e (if config.simplify then u.simplify else u) ∧
        Reworks u (if config.simplify then u.simplify else u) := by
    split
    · have hsplices := splices_simplify hshape.tidy hshape.passReached
      exact ⟨hshape.splices hsplices, hsplices.reworks hshape.tidy⟩
    · exact ⟨hshape, .refl u⟩
  obtain ⟨e', hfinish, -⟩ := hsimple.finish sig
  exact ⟨e', hfinish, (hbranches.reworks hreworks).reworks (reworks_finish sig hsimple.entered)⟩

/-- **The branches of every graph that is built.**  Each node plays exactly one of three
roles: it ends the function and no edge leaves it; it tests a term, with one true edge, at
most one false edge and none in sequence; or it evaluates a term or nothing, and all edges
that leave it, of which there are some, are in sequence.  Only the test of the last arm of
a `match` may lack the false edge, if the value is returned or the arm takes every value.
If each `loop` is left by a `break`, there is never a choice between edges in sequence. -/
theorem ofBody_roles {cfg : Cfg} (h : (ofBody config scope sig body arena).1 = .ok cfg) :
    let set : Setting := ⟨scope, config.freshStem, sig.returnsUnit⟩
    (∀ n s, cfg.graph.node? n = some s →
      ∃! role : Role, role.Fits (body.Unfailing set) cfg.graph n s) ∧
    (body.loopsLeft set = true → ∀ n s, cfg.graph.node? n = some s →
      Role.proceeds.Fits (body.Unfailing set) cfg.graph n s → (cfg.graph.outgoing n).length = 1) ∧
    ∀ e ∈ cfg.graph.edges, e.kind ≠ .sequential →
      ∃ s t, cfg.graph.node? e.source = some s ∧ s.kind = .expression t := by
  intro set
  obtain ⟨entry, hshape, hbranches⟩ := branches_ofBody config scope sig body arena h
  refine ⟨fun n s hn => ?_, fun hleft n s hn => ?_, fun e he hk => ?_⟩
  · exact ⟨cfg.graph.roleAt n, hshape.fits_roleAt hn hbranches, fun role hfits => eq_roleAt hfits⟩
  · exact length_of_proceeds hn hbranches hleft
  · exact hshape.expression_of_kind hbranches he hk

/-- `{ loop { if true { break; } } match true { true => false, false => true } }`, where the
last arm does not take every value. -/
def returnedMatch : Block :=
  let block (stmts : List Stmt) : Block := .mk default stmts
  let truth (value : Bool) : Expr := .literal default (.bool value)
  let arm (value : Bool) : Arm := .mk (.literal default (.bool value)) none (truth !value)
  let leave : Expr := .branch default
    [.mk (truth true) (block [.expr (.leave default none none) true])] none
  block [
    .expr (.loop default none (block [.expr leave false])) false,
    .expr (.matchOn default (truth true) [arm true, arm false]) false]

theorem ofBody_roles_returnedMatch :
    let scope : Scope := ⟨default, none, [], true, "a.rs"⟩
    let sig : Signature := ⟨"f", default, default, [], .bool, none⟩
    let sole := returnedMatch.Unfailing ⟨scope, "__iter", false⟩
    ∃ cfg, (ofBody {} scope sig returnedMatch .empty).1 = .ok cfg ∧
      (∃ n ∈ cfg.graph.nodes, cfg.graph.fan n .whenTrue = 1 ∧ cfg.graph.fan n .whenFalse = 0) ∧
      (∀ n s, cfg.graph.node? n = some s → ∃! role : Role, role.Fits sole cfg.graph n s) ∧
      ∀ n s, cfg.graph.node? n = some s → Role.proceeds.Fits sole cfg.graph n s →
        (cfg.graph.outgoing n).length = 1 := by
  intro scope sig sole
  have hbuilt : (ofBody {} scope sig returnedMatch .empty).1.toOption.any (fun cfg =>
      decide (∃ n ∈ cfg.graph.nodes,
        cfg.graph.fan n .whenTrue = 1 ∧ cfg.graph.fan n .whenFalse = 0)) = true := by decide +kernel
  obtain ⟨cfg, hok, hsole⟩ := exists_of_any hbuilt
  obtain ⟨hroles, hone, -⟩ := ofBody_roles {} scope sig returnedMatch .empty hok
  exact ⟨cfg, hok, of_decide_eq_true hsole, hroles, hone (by decide +kernel)⟩

end Cfg

end RustFlow
