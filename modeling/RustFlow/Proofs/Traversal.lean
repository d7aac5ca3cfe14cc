/-
# A traversal lists the reachable nodes

`Graph.Reaches` is the second side: there is a chain of edges from one node to
another.  A traversal from an entry ends with an empty stack within its bound,
since each step lowers `Walk.potential`, and what it has listed then are the nodes
that the entry reaches, each once (`mem_postorderFrom`, `nodup_postorderFrom`).
The invariant behind it is `Walk.Valid`: what is discovered is on the stack or
listed, and the successors of what is discovered are on the stack or discovered.

With several entries the same holds of their union (`mem_postorder`), so
`removeUnreachable` removes exactly the nodes that no entry reaches and that are
not to be kept, with the edges that touch them (`node?_removeUnreachable`,
`mem_edges_removeUnreachable`).
-/

import RustFlow.Proofs.GraphOps
import Mathlib.Logic.Relation

namespace RustFlow
namespace Graph

variable {g : Graph}

/-- An edge leads from one node to another. -/
def Step (g : Graph) (u v : NodeId) : Prop := ∃ e ∈ g.edges, e.source = u ∧ e.target = v

/-- A chain of edges leads from one node to another. -/
def Reaches (g : Graph) : NodeId → NodeId → Prop := Relation.ReflTransGen g.Step

theorem Tidy.contains_of_reaches (h : g.Tidy) {u v : NodeId} (hu : g.contains u = true)
    (huv : g.Reaches u v) : g.contains v = true := by
  induction huv with
  | refl => exact hu
  | tail _ hstep _ =>
    obtain ⟨e, he, -, rfl⟩ := hstep
    exact h.target_live e he

namespace Walk

/-! ### The step -/

/-- The topmost node was discovered before: it leaves the stack, and is listed. -/
def popped (w : Walk) (n : NodeId) (rest : List NodeId) : Walk :=
  { w with
    stack := rest
    finished := if w.finished.contains n then w.finished else n :: w.finished }

/-- The topmost node is marked, and its undiscovered successors are pushed. -/
def pushed (g : Graph) (w : Walk) (n : NodeId) : Walk :=
  { w with
    stack := (((g.outgoing n).map Edge.target).filter
      fun m => !(n :: w.discovered).contains m).reverse ++ w.stack
    discovered := n :: w.discovered }

theorem step_cases (g : Graph) (w : Walk) :
    w.stack = [] ∧ step g w = w ∨ ∃ n rest, w.stack = n :: rest ∧
      (n ∈ w.discovered ∧ step g w = popped w n rest ∨
        n ∉ w.discovered ∧ step g w = pushed g w n) := by
  unfold step
  split
  · exact .inl ⟨‹_›, rfl⟩
  · rename_i n rest hstack
    refine .inr ⟨n, rest, hstack, ?_⟩
    split
    · rename_i hn
      rw [List.contains_eq_mem, decide_eq_true_eq] at hn
      exact .inl ⟨hn, rfl⟩
    · rename_i hn
      rw [List.contains_eq_mem, decide_eq_true_eq] at hn
      exact .inr ⟨hn, rfl⟩

/-! ### The bound -/

/-- What is left to do: the stack, the undiscovered nodes, and the edges out of
them. -/
def potential (g : Graph) (w : Walk) : Nat :=
  w.stack.length + ((List.range g.slots.length).filter fun n => !w.discovered.contains n).length +
    (g.edges.filter fun e => !w.discovered.contains e.source).length

/-- Marking one more node as seen takes the nodes with that mark out of a list. -/
theorem length_filter_mark {α : Type} (f : α → NodeId) (xs : List α) (seen : List NodeId)
    {n : NodeId} (hn : n ∉ seen) :
    (xs.filter fun x => !(n :: seen).contains (f x)).length + (xs.filter fun x => f x == n).length =
      (xs.filter fun x => !seen.contains (f x)).length := by
  induction xs with
  | nil => rfl
  | cons x xs ih =>
    simp only [List.contains_eq_mem, List.mem_cons, List.filter_cons] at ih ⊢
    by_cases hx : f x = n
    · simp [hx, hn] at ih ⊢
      omega
    · by_cases hs : f x ∈ seen
      · simp [hx, hs] at ih ⊢
        omega
      · simp [hx, hs] at ih ⊢
        omega

theorem length_filter_beq_range {n k : NodeId} (h : n < k) :
    ((List.range k).filter fun m => m == n).length = 1 := by
  rw [← List.countP_eq_length_filter]
  exact List.count_eq_one_of_mem List.nodup_range (List.mem_range.2 h)

theorem potential_step_lt {w : Walk} (hw : w.stack ≠ [])
    (hlive : ∀ n ∈ w.stack, g.contains n = true) : potential g (step g w) < potential g w := by
  rcases step_cases g w with ⟨hnil, -⟩ | ⟨n, rest, hstack, ⟨-, hstep⟩ | ⟨hn, hstep⟩⟩
  · exact absurd hnil hw
  · rw [hstep]
    simp only [potential, popped, hstack, List.length_cons]
    omega
  · have hlt := lt_of_contains (hlive n (by rw [hstack]; exact List.mem_cons_self))
    have hnodes := length_filter_mark id (List.range g.slots.length) w.discovered hn
    have hedges := length_filter_mark Edge.source g.edges w.discovered hn
    have hone := length_filter_beq_range hlt
    have hfresh : (((g.outgoing n).map Edge.target).filter
        fun m => !(n :: w.discovered).contains m).length ≤
        (g.edges.filter fun e => e.source == n).length := by
      refine Nat.le_trans (List.length_filter_le _ _) (Nat.le_of_eq ?_)
      rw [List.length_map, outgoing]
    rw [hstep]
    simp only [potential, pushed, List.length_append, List.length_reverse, id] at hnodes hedges ⊢
    omega

/-! ### The invariant -/

/-- What holds of the marks throughout a traversal from an entry. -/
structure Valid (g : Graph) (entry : NodeId) (w : Walk) : Prop where
  started : entry ∈ w.stack ∨ entry ∈ w.discovered
  stack_reached : ∀ n ∈ w.stack, g.Reaches entry n
  discovered_reached : ∀ n ∈ w.discovered, g.Reaches entry n
  accounted : ∀ n ∈ w.discovered, n ∈ w.stack ∨ n ∈ w.finished
  closed : ∀ n ∈ w.discovered, ∀ m, g.Step n m → m ∈ w.stack ∨ m ∈ w.discovered
  finished_discovered : ∀ n ∈ w.finished, n ∈ w.discovered
  finished_nodup : w.finished.Nodup

variable {entry : NodeId} {w : Walk}

theorem Valid.start : Valid g entry ⟨[entry], [], []⟩ where
  started := .inl (List.mem_singleton.2 rfl)
  stack_reached n hn := by
    rw [List.mem_singleton.1 hn]
    exact .refl
  discovered_reached n hn := absurd hn List.not_mem_nil
  accounted n hn := absurd hn List.not_mem_nil
  closed n hn := absurd hn List.not_mem_nil
  finished_discovered n hn := absurd hn List.not_mem_nil
  finished_nodup := List.nodup_nil

theorem Valid.pop (h : Valid g entry w) {n : NodeId} {rest : List NodeId}
    (hstack : w.stack = n :: rest) (hn : n ∈ w.discovered) : Valid g entry (popped w n rest) := by
  unfold popped
  have hfin : ∀ m, m ∈ (if w.finished.contains n then w.finished else n :: w.finished) ↔
      m = n ∨ m ∈ w.finished := by
    intro m
    split
    · rename_i hf
      rw [List.contains_eq_mem, decide_eq_true_eq] at hf
      exact ⟨.inr, fun hm => hm.elim (fun hmn => hmn ▸ hf) id⟩
    · exact List.mem_cons
  have hmem : ∀ m, m ∈ w.stack → m ∈ rest ∨ m = n := by
    intro m hm
    rw [hstack] at hm
    exact (List.mem_cons.1 hm).symm
  refine ⟨?_, ?_, h.discovered_reached, ?_, ?_, ?_, ?_⟩
  · rcases h.started with hs | hs
    · rcases hmem _ hs with hs | hs
      · exact .inl hs
      · exact .inr (hs ▸ hn)
    · exact .inr hs
  · exact fun m hm => h.stack_reached m (hstack ▸ List.mem_cons_of_mem _ hm)
  · intro m hm
    rw [hfin]
    rcases h.accounted m hm with hs | hf
    · rcases hmem m hs with hs | hs
      · exact .inl hs
      · exact .inr (.inl hs)
    · exact .inr (.inr hf)
  · intro m hm k hk
    rcases h.closed m hm k hk with hs | hd
    · rcases hmem k hs with hs | hs
      · exact .inl hs
      · exact .inr (hs ▸ hn)
    · exact .inr hd
  · intro m hm
    rcases (hfin m).1 hm with rfl | hm
    · exact hn
    · exact h.finished_discovered m hm
  · show (if w.finished.contains n then w.finished else n :: w.finished).Nodup
    split
    · exact h.finished_nodup
    · rename_i hf
      rw [List.contains_eq_mem, decide_eq_true_eq] at hf
      exact List.nodup_cons.2 ⟨hf, h.finished_nodup⟩

theorem mem_fresh (g : Graph) (n m : NodeId) (marked : List NodeId) :
    m ∈ (((g.outgoing n).map Edge.target).filter fun m => !marked.contains m).reverse ↔
      g.Step n m ∧ m ∉ marked := by
  rw [List.mem_reverse, List.mem_filter, List.mem_map]
  simp only [mem_outgoing, Step, List.contains_eq_mem, Bool.not_eq_true', decide_eq_false_iff_not,
    and_assoc]

theorem Valid.push (h : Valid g entry w) {n : NodeId} {rest : List NodeId}
    (hstack : w.stack = n :: rest) : Valid g entry (pushed g w n) := by
  have hn : n ∈ w.stack := hstack ▸ List.mem_cons_self
  have hfresh (m : NodeId) := mem_fresh g n m (n :: w.discovered)
  refine ⟨?_, ?_, ?_, ?_, ?_, ?_, h.finished_nodup⟩
  · rcases h.started with hs | hs
    · exact .inl (List.mem_append_right _ hs)
    · exact .inr (List.mem_cons_of_mem _ hs)
  · intro m hm
    rcases List.mem_append.1 hm with hm | hm
    · exact (h.stack_reached n hn).tail ((hfresh m).1 hm).1
    · exact h.stack_reached m hm
  · intro m hm
    rcases List.mem_cons.1 hm with rfl | hm
    · exact h.stack_reached m hn
    · exact h.discovered_reached m hm
  · intro m hm
    rcases List.mem_cons.1 hm with rfl | hm
    · exact .inl (List.mem_append_right _ hn)
    · exact (h.accounted m hm).imp (List.mem_append_right _) id
  · intro m hm k hk
    rcases List.mem_cons.1 hm with rfl | hm
    · by_cases hkd : k ∈ m :: w.discovered
      · exact .inr hkd
      · exact .inl (List.mem_append_left _ ((hfresh k).2 ⟨hk, hkd⟩))
    · exact (h.closed m hm k hk).imp (List.mem_append_right _) (List.mem_cons_of_mem _)
  · exact fun m hm => List.mem_cons_of_mem _ (h.finished_discovered m hm)

theorem Valid.step (h : Valid g entry w) : Valid g entry (step g w) := by
  rcases step_cases g w with ⟨-, hstep⟩ | ⟨n, rest, hstack, ⟨hn, hstep⟩ | ⟨-, hstep⟩⟩
  · rw [hstep]
    exact h
  · rw [hstep]
    exact h.pop hstack hn
  · rw [hstep]
    exact h.push hstack

/-- **A traversal ends within its potential,** and the invariant still holds. -/
theorem Valid.run (ht : g.Tidy) (hentry : g.contains entry = true) {k : Nat} {w : Walk}
    (h : Valid g entry w) (hk : potential g w ≤ k) :
    (Walk.run g k w).stack = [] ∧ Valid g entry (Walk.run g k w) := by
  induction k generalizing w with
  | zero =>
    refine ⟨List.length_eq_zero_iff.1 ?_, h⟩
    unfold potential at hk
    rw [Walk.run]
    omega
  | succ k ih =>
    unfold Walk.run
    split
    · rename_i hs
      exact ⟨List.isEmpty_iff.1 hs, h⟩
    · rename_i hs
      rw [List.isEmpty_iff] at hs
      have hlt := potential_step_lt hs fun n hn =>
        ht.contains_of_reaches hentry (h.stack_reached n hn)
      exact ih h.step (by omega)

end Walk

/-! ### One entry -/

theorem potential_start_le (g : Graph) (entry : NodeId) :
    Walk.potential g ⟨[entry], [], []⟩ ≤ g.walkBound := by
  have h₁ := List.length_filter_le (fun n => !([] : List NodeId).contains n)
    (List.range g.slots.length)
  have h₂ := List.length_filter_le (fun e => !([] : List NodeId).contains e.source) g.edges
  rw [List.length_range] at h₁
  simp only [Walk.potential, walkBound, List.length_singleton]
  omega

theorem walk_ends (ht : g.Tidy) {entry : NodeId} (hentry : g.contains entry = true) :
    (Walk.run g g.walkBound ⟨[entry], [], []⟩).stack = [] ∧
      Walk.Valid g entry (Walk.run g g.walkBound ⟨[entry], [], []⟩) :=
  Walk.Valid.start.run ht hentry (potential_start_le g entry)

theorem nodup_postorderFrom (ht : g.Tidy) {entry : NodeId} (hentry : g.contains entry = true) :
    (g.postorderFrom entry).Nodup :=
  List.nodup_reverse.2 (walk_ends ht hentry).2.finished_nodup

/-- **From one entry, exactly the reachable nodes are listed.** -/
theorem mem_postorderFrom (ht : g.Tidy) {entry n : NodeId} (hentry : g.contains entry = true) :
    n ∈ g.postorderFrom entry ↔ g.Reaches entry n := by
  obtain ⟨hstack, hv⟩ := walk_ends ht hentry
  rw [postorderFrom, List.mem_reverse]
  have hfin : ∀ m ∈ (Walk.run g g.walkBound ⟨[entry], [], []⟩).discovered,
      m ∈ (Walk.run g g.walkBound ⟨[entry], [], []⟩).finished := fun m hm =>
    (hv.accounted m hm).resolve_left (by rw [hstack]; exact List.not_mem_nil)
  constructor
  · exact fun hn => hv.discovered_reached n (hv.finished_discovered n hn)
  · intro hn
    refine hfin n ?_
    induction hn with
    | refl => exact hv.started.resolve_left (by rw [hstack]; exact List.not_mem_nil)
    | tail _ hstep ih =>
      exact (hv.closed _ ih _ hstep).resolve_left (by rw [hstack]; exact List.not_mem_nil)

/-! ### All entries -/

/-- The orders collected so far list, each once, what some entries reach. -/
structure Lists (g : Graph) (entries order : List NodeId) : Prop where
  nodup : order.Nodup
  mem : ∀ n, n ∈ order ↔ ∃ e ∈ entries, g.Reaches e n

theorem Lists.add (ht : g.Tidy) {entries order : List NodeId} (h : Lists g entries order)
    {entry : NodeId} (hentry : g.contains entry = true) :
    Lists g (entry :: entries)
      (if order.contains entry then order
        else order ++ (g.postorderFrom entry).filter fun n => !order.contains n) := by
  split
  · rename_i ho
    rw [List.contains_eq_mem, decide_eq_true_eq, h.mem] at ho
    obtain ⟨e, he, hreach⟩ := ho
    refine ⟨h.nodup, fun n => ?_⟩
    rw [h.mem]
    constructor
    · rintro ⟨d, hd, hn⟩
      exact ⟨d, List.mem_cons_of_mem _ hd, hn⟩
    · rintro ⟨d, hd, hn⟩
      rcases List.mem_cons.1 hd with rfl | hd
      · exact ⟨e, he, hreach.trans hn⟩
      · exact ⟨d, hd, hn⟩
  · refine ⟨List.Nodup.append h.nodup ((nodup_postorderFrom ht hentry).filter _) ?_, fun n => ?_⟩
    · intro n hn hf
      have := (List.mem_filter.1 hf).2
      simp [hn] at this
    · rw [List.mem_append, List.mem_filter, mem_postorderFrom ht hentry, h.mem]
      simp only [List.contains_eq_mem, Bool.not_eq_true', decide_eq_false_iff_not, h.mem,
        List.exists_mem_cons_iff]
      by_cases hn : ∃ e, e ∈ entries ∧ g.Reaches e n <;> simp [hn]

/-- **From all entries, exactly the reachable nodes are listed, each once.** -/
theorem lists_postorder (ht : g.Tidy) (hentries : ∀ e ∈ g.entries, g.contains e = true) :
    Lists g g.entries g.postorder := by
  have hfold : ∀ (es done order : List NodeId), (∀ e ∈ es, g.contains e = true) →
      Lists g done order →
      Lists g (es.reverse ++ done) (es.foldl
        (fun order entry =>
          if order.contains entry then order
          else order ++ (g.postorderFrom entry).filter fun n => !order.contains n) order) := by
    intro es
    induction es with
    | nil => exact fun _ _ _ h => h
    | cons e es ih =>
      intro done order hes h
      have := ih (e :: done) _ (fun d hd => hes d (List.mem_cons_of_mem _ hd))
        (h.add ht (hes e List.mem_cons_self))
      rwa [List.reverse_cons, List.append_assoc]
  have h := hfold g.entries.reverse [] [] (fun e he => hentries e (List.mem_reverse.1 he))
    ⟨List.nodup_nil, fun n => by simp⟩
  rwa [List.reverse_reverse, List.append_nil] at h

theorem mem_postorder (ht : g.Tidy) (hentries : ∀ e ∈ g.entries, g.contains e = true)
    {n : NodeId} : n ∈ g.postorder ↔ ∃ e ∈ g.entries, g.Reaches e n :=
  (lists_postorder ht hentries).mem n

/-! ### Removing what is not reached -/

theorem node?_removeAll (ns : List NodeId) (g : Graph) (m : NodeId) :
    (ns.foldl removeNode g).node? m = if m ∈ ns then none else g.node? m := by
  induction ns generalizing g with
  | nil => rfl
  | cons n ns ih =>
    rw [List.foldl_cons, ih, node?_removeNode]
    by_cases hm : m ∈ ns
    · simp [hm]
    · by_cases hmn : m = n <;> simp [hm, hmn]

theorem removeAll_keeps {α : Type} {field : Graph → α} (h : ∀ g n, field (g.removeNode n) = field g)
    (ns : List NodeId) (g : Graph) : field (ns.foldl removeNode g) = field g := by
  induction ns generalizing g with
  | nil => rfl
  | cons n ns ih => rw [List.foldl_cons, ih, h]

theorem Tidy.removeAll (h : g.Tidy) (ns : List NodeId) : (ns.foldl Graph.removeNode g).Tidy := by
  induction ns generalizing g with
  | nil => exact h
  | cons n ns ih => exact ih (h.removeNode n)

theorem Tidy.edges_removeAll (h : g.Tidy) (ns : List NodeId) :
    (ns.foldl Graph.removeNode g).edges =
      g.edges.filter fun e => !ns.contains e.source && !ns.contains e.target := by
  induction ns generalizing g with
  | nil => simp
  | cons n ns ih =>
    rw [List.foldl_cons, ih (h.removeNode n), h.edges_removeNode, List.filter_filter]
    refine List.filter_congr fun e _ => ?_
    simp only [List.contains_cons, bne]
    cases e.source == n <;> cases e.target == n <;> simp

theorem node?_removeUnreachable (ht : g.Tidy) (hentries : ∀ e ∈ g.entries, g.contains e = true)
    (keep : List NodeId) (m : NodeId) :
    (g.removeUnreachable keep).node? m = g.node? m ∧
        ((∃ e ∈ g.entries, g.Reaches e m) ∨ m ∈ keep) ∨
      (g.removeUnreachable keep).node? m = none ∧
        ¬((∃ e ∈ g.entries, g.Reaches e m) ∨ m ∈ keep) := by
  simp only [removeUnreachable]
  rw [node?_removeAll, ← mem_postorder ht hentries]
  simp only [List.mem_filter, mem_nodes, List.contains_eq_mem, Bool.and_eq_true, Bool.not_eq_true',
    decide_eq_false_iff_not]
  by_cases hm : m ∈ g.postorder ∨ m ∈ keep
  · refine .inl ⟨if_neg fun h => ?_, hm⟩
    exact hm.elim h.2.1 h.2.2
  · refine .inr ⟨?_, hm⟩
    split
    · rfl
    · rename_i h
      rw [not_or] at hm
      exact Option.not_isSome_iff_eq_none.1 fun hc => h ⟨hc, hm⟩

theorem entries_removeUnreachable (g : Graph) (keep : List NodeId) :
    (g.removeUnreachable keep).entries = g.entries := removeAll_keeps entries_removeNode ..

theorem faults_removeUnreachable (g : Graph) (keep : List NodeId) :
    (g.removeUnreachable keep).faults = g.faults := removeAll_keeps faults_removeNode ..

theorem Tidy.removeUnreachable (h : g.Tidy) (keep : List NodeId) :
    (g.removeUnreachable keep).Tidy := h.removeAll _

theorem mem_edges_removeUnreachable (ht : g.Tidy)
    (hentries : ∀ e ∈ g.entries, g.contains e = true) (keep : List NodeId) {e : Edge} :
    e ∈ (g.removeUnreachable keep).edges ↔
      e ∈ g.edges ∧ ((∃ d ∈ g.entries, g.Reaches d e.source) ∨ e.source ∈ keep) ∧
        ((∃ d ∈ g.entries, g.Reaches d e.target) ∨ e.target ∈ keep) := by
  simp only [removeUnreachable]
  rw [ht.edges_removeAll, List.mem_filter, ← mem_postorder ht hentries,
    ← mem_postorder ht hentries]
  refine and_congr_right fun he => ?_
  have hs := ht.source_live e he
  have ht := ht.target_live e he
  simp only [List.contains_eq_mem, Bool.and_eq_true, Bool.not_eq_true', decide_eq_false_iff_not,
    List.mem_filter, mem_nodes, hs, ht, true_and, not_and, not_not]
  tauto

end Graph
end RustFlow
