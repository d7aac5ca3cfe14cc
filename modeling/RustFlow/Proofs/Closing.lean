/-
# What closing the exits does to a lowered graph

The written returns of a graph end it, whatever edges still leave them: `Graph.cut`
drops these edges.  Both ways of closing are then described from the cut graph and
the part of it that the entry reaches.

* In a function without a result (`UnitClosed`) that part is kept, a bare return
  is merged into the `ret` node, and every other node that nothing follows is
  joined to it.
* In a function with a result (`ValueClosed`) that part is kept, and the nodes
  that nothing follows become `return` nodes.  It fails (`closeValue_error_iff`)
  exactly if some return is bare, or if the entry reaches a no-op that nothing
  follows.

The returns are rewritten one at a time, so each description is an invariant of
that loop (`ReturnsMerged`, `ReturnsValued`).
-/

import RustFlow.Proofs.Growth
import RustFlow.Proofs.Traversal

namespace RustFlow

namespace Statement

/-- A `return` without a value, as written. -/
def isBareReturn (s : Statement) : Bool :=
  match s.kind with
  | .writtenReturn none => true
  | _ => false

/-- What is left of a statement once the written returns of a function without a
result lead to its `ret` node: a bare return is gone, and one with a value
evaluates it. -/
def settled (s : Statement) : Option Statement :=
  match s.kind with
  | .writtenReturn none => none
  | .writtenReturn (some t) => some { s with kind := .expression t }
  | _ => some s

/-- The statement that ends a function with the value it evaluates, if it has one. -/
def asReturn (s : Statement) : Statement :=
  match s.kind with
  | .expression t => { s with kind := .returnValue t }
  | .writtenReturn (some t) => { s with kind := .returnValue t }
  | _ => s

theorem asReturn_asReturn (s : Statement) : s.asReturn.asReturn = s.asReturn := by
  obtain ⟨kind, pos⟩ := s
  cases kind with
  | writtenReturn t => cases t <;> rfl
  | _ => rfl

theorem bare_cases {s : Statement} (h : s.isBareReturn = true) :
    s.isWrittenReturn = true ∧ s.settled = none := by
  obtain ⟨kind, pos⟩ := s
  cases kind with
  | writtenReturn t => cases t <;> simp_all [isBareReturn, isWrittenReturn, settled]
  | _ => cases h

theorem isWrittenReturn_cases {s : Statement} (h : s.isWrittenReturn = true) :
    s.kind = .writtenReturn none ∧ s.isBareReturn = true ∧ s.settled = none ∨
      ∃ t, s.kind = .writtenReturn (some t) ∧ s.isBareReturn = false ∧
        s.settled = some { s with kind := .expression t } := by
  obtain ⟨kind, pos⟩ := s
  cases kind with
  | writtenReturn t => cases t <;> simp [isBareReturn, settled]
  | _ => cases h

theorem settled_of_not_written {s : Statement} (h : s.isWrittenReturn = false) :
    s.settled = some s ∧ s.isBareReturn = false := by
  obtain ⟨kind, pos⟩ := s
  cases kind with
  | writtenReturn t => cases h
  | _ => exact ⟨rfl, rfl⟩

end Statement

namespace Graph

variable {g h : Graph} {n m : NodeId}

/-- A node with a written return. -/
def WrittenAt (g : Graph) (n : NodeId) : Prop :=
  ∃ s, g.node? n = some s ∧ s.isWrittenReturn = true

/-- A node with a written return that has no value. -/
def BareAt (g : Graph) (n : NodeId) : Prop :=
  ∃ s, g.node? n = some s ∧ s.isBareReturn = true

/-- The graph without the edges that leave written returns. -/
def cut (g : Graph) : Graph :=
  { g with edges := g.edges.filter fun e => !(g.node? e.source).any Statement.isWrittenReturn }

@[simp] theorem node?_cut (g : Graph) (n : NodeId) : g.cut.node? n = g.node? n := rfl

theorem any_isWrittenReturn :
    (g.node? n).any Statement.isWrittenReturn = true ↔ g.WrittenAt n :=
  Option.any_eq_true ..

theorem any_isBareReturn : (g.node? n).any Statement.isBareReturn = true ↔ g.BareAt n :=
  Option.any_eq_true ..

theorem mem_edges_cut {e : Edge} : e ∈ g.cut.edges ↔ e ∈ g.edges ∧ ¬g.WrittenAt e.source := by
  rw [cut, List.mem_filter, Bool.not_eq_true', ← Bool.not_eq_true, any_isWrittenReturn]

theorem Tidy.cut (h : g.Tidy) : g.cut.Tidy := h.removeEdges List.filter_sublist

theorem BareAt.writtenAt (h : g.BareAt n) : g.WrittenAt n := by
  obtain ⟨s, hs, hb⟩ := h
  exact ⟨s, hs, (Statement.bare_cases hb).1⟩

theorem exists_settled {s : Statement} (hs : g.node? n = some s) (hb : ¬g.BareAt n) :
    ∃ s', s.settled = some s' := by
  cases hw : s.isWrittenReturn with
  | false => exact ⟨_, (Statement.settled_of_not_written hw).1⟩
  | true =>
    rcases Statement.isWrittenReturn_cases hw with ⟨-, hbare, -⟩ | ⟨t, -, -, hset⟩
    · exact absurd ⟨s, hs, hbare⟩ hb
    · exact ⟨_, hset⟩

theorem WrittenAt.halts_cut (h : g.WrittenAt n) : g.cut.Halts n := by
  rintro e he rfl
  exact (mem_edges_cut.1 he).2 h

/-! ### Merging returns into the `ret` node -/

/-- Where an edge to a node leads once the bare returns are merged into `ret`. -/
def merged (g : Graph) (ret n : NodeId) : NodeId :=
  if (g.node? n).any Statement.isBareReturn = true then ret else n

theorem merged_of_bare {ret : NodeId} (hn : g.BareAt n) : g.merged ret n = ret :=
  if_pos (any_isBareReturn.2 hn)

theorem merged_of_not_bare {ret : NodeId} (hn : ¬g.BareAt n) : g.merged ret n = n :=
  if_neg fun h => hn (any_isBareReturn.1 h)

/-- Where an edge to a node leads once the bare returns among `done` are merged. -/
def landing (g : Graph) (ret : NodeId) (done : List NodeId) (n : NodeId) : NodeId :=
  if n ∈ done then g.merged ret n else n

theorem landing_of_not_mem {ret : NodeId} {done : List NodeId} (hn : n ∉ done) :
    g.landing ret done n = n := if_neg hn

theorem landing_cons_of_ne {ret : NodeId} {done : List NodeId} (hn : m ≠ n) :
    g.landing ret (n :: done) m = g.landing ret done m := by
  simp only [landing, List.mem_cons, hn, false_or]

theorem landing_of_not_bare {ret : NodeId} (done : List NodeId) (hn : ¬g.BareAt n) :
    g.landing ret done n = n := by
  simp only [landing, merged_of_not_bare hn, ite_self]

theorem landing_cons_self {ret : NodeId} {done : List NodeId} (hn : g.BareAt n) :
    g.landing ret (n :: done) n = ret :=
  (if_pos List.mem_cons_self).trans (merged_of_bare hn)

theorem landing_eq_or (g : Graph) (ret : NodeId) (done : List NodeId) (n : NodeId) :
    g.landing ret done n = ret ∨ g.landing ret done n = n := by
  by_cases hb : g.BareAt n
  · simp only [landing, merged_of_bare hb]
    split <;> simp
  · exact .inr (landing_of_not_bare done hb)

/-- A graph with a `ret` node and an entry in which the returns among `done` lead
to that node. -/
structure ReturnsMerged (g : Graph) (entry ret : NodeId) (pos : Position) (done : List NodeId)
    (h : Graph) : Prop where
  tidy : h.Tidy
  node? : ∀ m, h.node? m =
    if m = ret then some ⟨.ret, pos⟩
    else if m ∈ done then (g.node? m).bind Statement.settled else g.node? m
  edges : ∀ d, d ∈ h.edges ↔
    (∃ d₀ ∈ g.edges, d₀.source ∉ done ∧ d = ⟨d₀.source, g.landing ret done d₀.target, d₀.kind⟩) ∨
      ∃ n ∈ done, ¬g.BareAt n ∧ d = ⟨n, ret, .sequential⟩
  entries : h.entries = [g.landing ret done entry]

section Merging

variable {entry ret : NodeId} {pos : Position} {done : List NodeId} {s : Statement}

theorem ReturnsMerged.redirect (hm : ReturnsMerged g entry ret pos done h) (hne : n ≠ ret)
    (hfresh : n ∉ done) (hbare : g.BareAt n) :
    ReturnsMerged g entry ret pos (n :: done) (h.redirect n ret) := by
  have hrlive : h.contains ret = true := contains_of_node? (by rw [hm.node?, if_pos rfl])
  have hland : ∀ m, m ≠ n → g.landing ret done m ≠ n := fun m hmn h =>
    (landing_eq_or g ret done m).elim (fun hr => hne (h.symm.trans hr)) fun hr =>
      hmn (hr.symm.trans h)
  refine ⟨hm.tidy.redirect hrlive hne, fun m => ?_, fun d => ?_, ?_⟩
  · rw [node?_redirect, hm.node?]
    by_cases hmn : m = n
    · obtain ⟨s, hs, hb⟩ := hbare
      simp [hmn, hne, hs, (Statement.bare_cases hb).2]
    · simp [hmn]
  · rw [hm.tidy.mem_edges_redirect]
    constructor
    · rintro (⟨hd, hs', ht'⟩ | ⟨d', hd', hs', ht', rfl⟩)
      · rcases (hm.edges d).1 hd with ⟨d₀, hd₀, hsrc, rfl⟩ | ⟨k, hk, hnb, rfl⟩
        · have ht : d₀.target ≠ n := fun h => ht' (by rw [h]; exact landing_of_not_mem hfresh)
          exact .inl ⟨d₀, hd₀, by simpa using ⟨hs', hsrc⟩, by rw [landing_cons_of_ne ht]⟩
        · exact .inr ⟨k, List.mem_cons_of_mem _ hk, hnb, rfl⟩
      · rcases (hm.edges d').1 hd' with ⟨d₀, hd₀, hsrc, rfl⟩ | ⟨k, hk, hnb, rfl⟩
        · have ht : d₀.target = n := by_contra fun h => hland _ h ht'
          exact .inl ⟨d₀, hd₀, by simpa using ⟨hs', hsrc⟩, by rw [ht, landing_cons_self hbare]⟩
        · exact absurd ht'.symm hne
    · rintro (⟨d₀, hd₀, hsrc, rfl⟩ | ⟨k, hk, hnb, rfl⟩)
      · rw [List.mem_cons, not_or] at hsrc
        by_cases ht : d₀.target = n
        · refine .inr ⟨⟨d₀.source, n, d₀.kind⟩, (hm.edges _).2 (.inl ⟨d₀, hd₀, hsrc.2, ?_⟩),
            hsrc.1, rfl, ?_⟩
          · rw [ht, landing_of_not_mem hfresh]
          · rw [ht, landing_cons_self hbare]
        · rw [landing_cons_of_ne ht]
          exact .inl ⟨(hm.edges _).2 (.inl ⟨d₀, hd₀, hsrc.2, rfl⟩), hsrc.1, hland _ ht⟩
      · have hkn : k ≠ n := fun h => hnb (h ▸ hbare)
        have hk := (List.mem_cons.1 hk).resolve_left hkn
        exact .inl ⟨(hm.edges _).2 (.inr ⟨k, hk, hnb, rfl⟩), hkn, Ne.symm hne⟩
  · rw [entries_redirect_single hm.entries hne]
    by_cases he : entry = n
    · rw [he, landing_of_not_mem hfresh, if_pos rfl, landing_cons_self hbare]
    · rw [landing_cons_of_ne he, if_neg (hland _ he)]

theorem ReturnsMerged.evaluate (hm : ReturnsMerged g entry ret pos done h) (hne : n ≠ ret)
    (hfresh : n ∉ done) (hs : g.node? n = some s) {t : Term} (hbare : ¬g.BareAt n)
    (hset : s.settled = some { s with kind := .expression t }) :
    ReturnsMerged g entry ret pos (n :: done)
      (((h.setKind n (.expression t)).clearOutgoing n).addEdge n ret .sequential) := by
  have hnode : h.node? n = some s := by rw [hm.node?, if_neg hne, if_neg hfresh, hs]
  have hrlive : h.contains ret = true := contains_of_node? (by rw [hm.node?, if_pos rfl])
  have hland : ∀ m, g.landing ret (n :: done) m = g.landing ret done m := by
    intro m
    by_cases hmn : m = n
    · rw [hmn, landing_of_not_bare _ hbare, landing_of_not_bare _ hbare]
    · exact landing_cons_of_ne hmn
  refine ⟨?_, fun m => ?_, fun d => ?_, ?_⟩
  · refine ((hm.tidy.setKind n _).clearOutgoing n).addEdge ?_ ?_ _
    · exact (contains_setKind h n _ n).trans (contains_of_node? hnode)
    · exact (contains_setKind h n _ ret).trans hrlive
  · rw [node?_addEdge, node?_clearOutgoing, node?_setKind]
    by_cases hmn : m = n
    · simp [hmn, hne, hs, hset, hnode]
    · simp [hmn, hm.node?]
  · rw [edges_addEdge, List.mem_cons, mem_edges_clearOutgoing, edges_setKind]
    simp only [hland, List.mem_cons, not_or]
    constructor
    · rintro (rfl | ⟨hd, hs'⟩)
      · exact .inr ⟨n, .inl rfl, hbare, rfl⟩
      · rcases (hm.edges d).1 hd with ⟨d₀, hd₀, hsrc, rfl⟩ | ⟨k, hk, hnb, rfl⟩
        · exact .inl ⟨d₀, hd₀, ⟨hs', hsrc⟩, rfl⟩
        · exact .inr ⟨k, .inr hk, hnb, rfl⟩
    · rintro (⟨d₀, hd₀, ⟨hs', hsrc⟩, rfl⟩ | ⟨k, rfl | hk, hnb, rfl⟩)
      · exact .inr ⟨(hm.edges _).2 (.inl ⟨d₀, hd₀, hsrc, rfl⟩), hs'⟩
      · exact .inl rfl
      · exact .inr ⟨(hm.edges _).2 (.inr ⟨k, hk, hnb, rfl⟩), fun h => hfresh (h ▸ hk)⟩
  · rw [entries_addEdge, entries_clearOutgoing, entries_setKind, hm.entries, hland]

/-- **One more return is merged.** -/
theorem ReturnsMerged.step (hm : ReturnsMerged g entry ret pos done h)
    (hret : g.node? ret = none) (hn : g.WrittenAt n) (hfresh : n ∉ done) :
    ReturnsMerged g entry ret pos (n :: done) (Cfg.closeUnitReturn ret h n) := by
  obtain ⟨s, hs, hw⟩ := hn
  have hne : n ≠ ret := by
    rintro rfl
    rw [hret] at hs
    cases hs
  have hnode : h.node? n = some s := by rw [hm.node?, if_neg hne, if_neg hfresh, hs]
  rcases Statement.isWrittenReturn_cases hw with ⟨hk, hb, -⟩ | ⟨t, hk, hb, hset⟩
  · have heq : Cfg.closeUnitReturn ret h n = h.redirect n ret := by
      simp only [Cfg.closeUnitReturn, hnode, Option.map_some, hk]
    exact heq ▸ hm.redirect hne hfresh ⟨s, hs, hb⟩
  · have heq : Cfg.closeUnitReturn ret h n =
        ((h.setKind n (.expression t)).clearOutgoing n).addEdge n ret .sequential := by
      simp only [Cfg.closeUnitReturn, hnode, Option.map_some, hk]
    refine heq ▸ hm.evaluate hne hfresh hs (fun hbare => ?_) hset
    obtain ⟨s', hs', hb'⟩ := hbare
    cases hs.symm.trans hs'
    rw [hb] at hb'
    cases hb'

end Merging

theorem ReturnsMerged.start (ht : g.Tidy) {entry : NodeId} (hentry : g.entries = [entry])
    (pos : Position) :
    ReturnsMerged g entry (g.addNode ⟨.ret, pos⟩).1 pos [] (g.addNode ⟨.ret, pos⟩).2 := by
  refine ⟨ht.addNode _, fun m => by simp [ht.node?_addNode], fun d => ?_, ?_⟩
  · rw [edges_addNode]
    constructor
    · exact fun hd => .inl ⟨d, hd, List.not_mem_nil, by rw [landing_of_not_mem List.not_mem_nil]⟩
    · rintro (⟨d₀, hd₀, -, rfl⟩ | ⟨_, hk, -⟩)
      · rwa [landing_of_not_mem List.not_mem_nil]
      · cases hk
  · rw [entries_addNode, hentry, landing_of_not_mem List.not_mem_nil]

theorem ReturnsMerged.foldl {entry ret : NodeId} {pos : Position} (hret : g.node? ret = none)
    (ns : List NodeId) {done : List NodeId} (hm : ReturnsMerged g entry ret pos done h)
    (hns : ∀ n ∈ ns, g.WrittenAt n) (hnd : ns.Nodup) (hfresh : ∀ n ∈ ns, n ∉ done) :
    ReturnsMerged g entry ret pos (ns.reverse ++ done) (ns.foldl (Cfg.closeUnitReturn ret) h) := by
  induction ns generalizing done h with
  | nil => exact hm
  | cons n ns ih =>
    rw [List.nodup_cons] at hnd
    rw [List.foldl_cons, List.reverse_cons, List.append_assoc]
    refine ih (hm.step hret (hns n List.mem_cons_self) (hfresh n List.mem_cons_self))
      (fun m hm => hns m (List.mem_cons_of_mem _ hm)) hnd.2 fun m hm => ?_
    rw [List.singleton_append, List.mem_cons, not_or]
    exact ⟨fun h => hnd.1 (h ▸ hm), hfresh m (List.mem_cons_of_mem _ hm)⟩

/-- A graph with an entry and a `ret` node to which every written return leads. -/
structure Merged (g : Graph) (entry ret : NodeId) (pos : Position) (h : Graph) : Prop where
  tidy : h.Tidy
  fresh : g.node? ret = none
  ends : h.node? ret = some ⟨.ret, pos⟩
  node? : ∀ m, m ≠ ret → h.node? m = (g.node? m).bind Statement.settled
  edges : ∀ d, d ∈ h.edges ↔
    (∃ d₀ ∈ g.cut.edges, d = ⟨d₀.source, g.merged ret d₀.target, d₀.kind⟩) ∨
      ∃ n, g.WrittenAt n ∧ ¬g.BareAt n ∧ d = ⟨n, ret, .sequential⟩
  entries : h.entries = [g.merged ret entry]

/-- **Once every written return is merged,** the graph is the cut graph with an edge
to `ret` from the returns that have a value. -/
theorem merged_closeReturns (ht : g.Tidy) {entry : NodeId} (hentry : g.entries = [entry])
    (pos : Position) :
    Merged g entry (g.addNode ⟨.ret, pos⟩).1 pos
      (((g.addNode ⟨.ret, pos⟩).2.findNodes Statement.isWrittenReturn).foldl
        (Cfg.closeUnitReturn (g.addNode ⟨.ret, pos⟩).1) (g.addNode ⟨.ret, pos⟩).2) := by
  have hret := ht.node?_fresh ⟨.ret, pos⟩
  generalize hns : (g.addNode ⟨.ret, pos⟩).2.findNodes Statement.isWrittenReturn = ns
  have hmem : ∀ n, n ∈ ns ↔ g.WrittenAt n := by
    intro n
    rw [← hns, mem_findNodes, ht.node?_addNode]
    by_cases hn : n = (g.addNode ⟨.ret, pos⟩).1
    · simp [hn, WrittenAt, hret, Statement.isWrittenReturn]
    · simp [hn, WrittenAt]
  have hm := (ReturnsMerged.start ht hentry pos).foldl hret ns (fun n hn => (hmem n).1 hn)
    (hns ▸ nodup_findNodes _ _) fun _ _ => List.not_mem_nil
  rw [List.append_nil] at hm
  have hland : ∀ m, g.landing (g.addNode ⟨.ret, pos⟩).1 ns.reverse m =
      g.merged (g.addNode ⟨.ret, pos⟩).1 m := by
    intro m
    by_cases hb : g.BareAt m
    · exact if_pos (List.mem_reverse.2 ((hmem m).2 hb.writtenAt))
    · rw [merged_of_not_bare hb, landing_of_not_bare _ hb]
  refine ⟨hm.tidy, hret, by rw [hm.node?, if_pos rfl], fun m hm' => ?_, fun d => ?_, ?_⟩
  · rw [hm.node?, if_neg hm']
    split
    · rfl
    · rename_i hnot
      rw [List.mem_reverse, hmem] at hnot
      cases hs : g.node? m with
      | none => rfl
      | some s =>
        have hw : s.isWrittenReturn = false := by
          rw [← Bool.not_eq_true]
          exact fun hw => hnot ⟨s, hs, hw⟩
        exact (Statement.settled_of_not_written hw).1.symm
  · rw [hm.edges]
    simp only [hland, List.mem_reverse, hmem, mem_edges_cut, and_assoc]
  · rw [hm.entries, hland]

section Unit

variable {entry ret : NodeId} {pos : Position}

theorem Merged.ne_ret (hm : Merged g entry ret pos h) (hn : g.contains n = true) : n ≠ ret := by
  rintro rfl
  rw [contains, hm.fresh] at hn
  cases hn

theorem Merged.source_ne (hm : Merged g entry ret pos h) (ht : g.Tidy) {d : Edge}
    (hd : d ∈ h.edges) : d.source ≠ ret := by
  rcases (hm.edges d).1 hd with ⟨d₀, hd₀, rfl⟩ | ⟨k, ⟨s, hs, -⟩, -, rfl⟩
  · exact hm.ne_ret (ht.cut.source_live d₀ hd₀)
  · exact hm.ne_ret (contains_of_node? hs)

theorem Merged.reaches (hm : Merged g entry ret pos h) (hr : g.cut.Reaches entry n) :
    h.Reaches (g.merged ret entry) (g.merged ret n) := by
  induction hr with
  | refl => exact .refl
  | tail _ hstep ih =>
    obtain ⟨d, hd, rfl, rfl⟩ := hstep
    have hsource : ¬g.BareAt d.source := fun hb => (mem_edges_cut.1 hd).2 hb.writtenAt
    rw [merged_of_not_bare hsource] at ih
    exact ih.tail ⟨_, (hm.edges _).2 (.inl ⟨d, hd, rfl⟩), rfl, rfl⟩

theorem Merged.reaches_cases (hm : Merged g entry ret pos h) (ht : g.Tidy)
    (hr : h.Reaches (g.merged ret entry) n) :
    n = ret ∨ g.cut.Reaches entry n ∧ ¬g.BareAt n := by
  have hland : ∀ m, g.cut.Reaches entry m →
      g.merged ret m = ret ∨ g.cut.Reaches entry (g.merged ret m) ∧ ¬g.BareAt (g.merged ret m) := by
    intro m hreach
    by_cases hb : g.BareAt m
    · exact .inl (merged_of_bare hb)
    · rw [merged_of_not_bare hb]
      exact .inr ⟨hreach, hb⟩
  induction hr with
  | refl => exact hland entry .refl
  | tail _ hstep ih =>
    obtain ⟨d, hd, rfl, rfl⟩ := hstep
    have hreach := (ih.resolve_left (hm.source_ne ht hd)).1
    rcases (hm.edges d).1 hd with ⟨d₀, hd₀, rfl⟩ | ⟨k, -, -, rfl⟩
    · exact hland _ (hreach.tail ⟨d₀, hd₀, rfl, rfl⟩)
    · exact .inl rfl

theorem joinExits (ns : List NodeId) (ht : g.Tidy) (hret : g.contains ret = true)
    (hns : ∀ n ∈ ns, g.contains n = true) :
    (ns.foldl (Cfg.joinExit ret) g).Tidy ∧
      (∀ m, (ns.foldl (Cfg.joinExit ret) g).node? m = g.node? m) ∧
      (ns.foldl (Cfg.joinExit ret) g).entries = g.entries ∧
      ∀ d, d ∈ (ns.foldl (Cfg.joinExit ret) g).edges ↔
        d ∈ g.edges ∨ ∃ n ∈ ns, n ≠ ret ∧ d = ⟨n, ret, .sequential⟩ := by
  induction ns generalizing g with
  | nil => exact ⟨ht, fun _ => rfl, rfl, by simp⟩
  | cons n ns ih =>
    have hrest := fun m hm => hns m (List.mem_cons_of_mem n hm)
    rw [List.foldl_cons]
    by_cases hn : n = ret
    · have heq : Cfg.joinExit ret g n = g := by simp [Cfg.joinExit, hn]
      rw [heq]
      obtain ⟨h₁, h₂, h₃, h₄⟩ := ih ht hret hrest
      refine ⟨h₁, h₂, h₃, fun d => ?_⟩
      simp [h₄, hn]
    · have heq : Cfg.joinExit ret g n = g.addEdge n ret .sequential := by simp [Cfg.joinExit, hn]
      rw [heq]
      obtain ⟨h₁, h₂, h₃, h₄⟩ := ih (ht.addEdge (hns n List.mem_cons_self) hret _) hret hrest
      refine ⟨h₁, h₂, h₃, fun d => ?_⟩
      simp [h₄, hn, or_assoc, or_comm]

/-- The graph of a function without a result after closing: the reached part of the
cut graph `g.cut` with its bare returns merged into the `ret` node, and an edge to
that node from every other node that nothing follows. -/
structure UnitClosed (g : Graph) (entry ret : NodeId) (pos : Position) (u : Graph) : Prop where
  tidy : u.Tidy
  fresh : g.node? ret = none
  ends : u.node? ret = some ⟨.ret, pos⟩
  kept : ∀ n, n ≠ ret → g.cut.Reaches entry n → u.node? n = (g.node? n).bind Statement.settled
  dropped : ∀ n, n ≠ ret → ¬g.cut.Reaches entry n → u.node? n = none
  edges : ∀ d, d ∈ u.edges ↔
    (∃ d₀ ∈ g.cut.edges, g.cut.Reaches entry d₀.source ∧
      d = ⟨d₀.source, g.merged ret d₀.target, d₀.kind⟩) ∨
      ∃ n, g.cut.Reaches entry n ∧ g.cut.Halts n ∧ ¬g.BareAt n ∧ d = ⟨n, ret, .sequential⟩
  entries : u.entries = [g.merged ret entry]

theorem Merged.contains_of_not_bare (hm : Merged g entry ret pos h) (hne : n ≠ ret)
    (hn : g.contains n = true) (hb : ¬g.BareAt n) : h.contains n = true := by
  obtain ⟨s, hs⟩ := contains_iff.1 hn
  rw [contains_iff, hm.node? n hne, hs]
  exact exists_settled hs hb

theorem Merged.entries_live (hm : Merged g entry ret pos h) (hentry : g.contains entry = true) :
    ∀ e ∈ h.entries, h.contains e = true := by
  intro e he
  rw [hm.entries, List.mem_singleton] at he
  subst he
  by_cases hb : g.BareAt entry
  · rw [merged_of_bare hb]
    exact contains_of_node? hm.ends
  · rw [merged_of_not_bare hb]
    exact hm.contains_of_not_bare (hm.ne_ret hentry) hentry hb

/-- What is kept beside `ret` is what the entry reached before the returns were
merged, without the bare returns. -/
theorem Merged.reached_iff (hm : Merged g entry ret pos h) (ht : g.Tidy) (hn : n ≠ ret) :
    (∃ e ∈ h.entries, h.Reaches e n) ∨ n ∈ [ret] ↔ g.cut.Reaches entry n ∧ ¬g.BareAt n := by
  simp only [hm.entries, List.mem_singleton, exists_eq_left, hn, or_false]
  refine ⟨fun hr => (hm.reaches_cases ht hr).resolve_left hn, fun ⟨hr, hb⟩ => ?_⟩
  have hr := hm.reaches hr
  rwa [merged_of_not_bare hb] at hr

theorem Merged.mem_edges_of_cut (hm : Merged g entry ret pos h) (ht : g.Tidy)
    (hentry : g.contains entry = true) {d : Edge} (hd : d ∈ g.cut.edges)
    (hr : g.cut.Reaches entry d.source) :
    ⟨d.source, g.merged ret d.target, d.kind⟩ ∈ (h.removeUnreachable [ret]).edges := by
  have hb : ¬g.BareAt d.source := fun hb => (mem_edges_cut.1 hd).2 hb.writtenAt
  rw [mem_edges_removeUnreachable hm.tidy (hm.entries_live hentry)]
  refine ⟨(hm.edges _).2 (.inl ⟨d, hd, rfl⟩),
    (hm.reached_iff ht (hm.ne_ret (ht.cut.source_live _ hd))).2 ⟨hr, hb⟩, .inl ?_⟩
  exact ⟨_, by rw [hm.entries]; exact List.mem_singleton.2 rfl,
    hm.reaches (hr.tail ⟨d, hd, rfl, rfl⟩)⟩

theorem Merged.node?_removeUnreachable (hm : Merged g entry ret pos h) (ht : g.Tidy)
    (hentry : g.contains entry = true) (hn : n ≠ ret) :
    (h.removeUnreachable [ret]).node? n = h.node? n ∧ g.cut.Reaches entry n ∧ ¬g.BareAt n ∨
      (h.removeUnreachable [ret]).node? n = none ∧ ¬(g.cut.Reaches entry n ∧ ¬g.BareAt n) := by
  rw [← hm.reached_iff ht hn]
  exact Graph.node?_removeUnreachable hm.tidy (hm.entries_live hentry) [ret] n

theorem Merged.unitClosed (hm : Merged g entry ret pos h) (ht : g.Tidy)
    (hentry : g.contains entry = true) :
    UnitClosed g entry ret pos
      ((h.removeUnreachable [ret]).exits.foldl (Cfg.joinExit ret) (h.removeUnreachable [ret])) := by
  have hlive := hm.entries_live hentry
  have hnode := fun n (hn : n ≠ ret) => hm.node?_removeUnreachable ht hentry hn
  have hedges := fun d => mem_edges_removeUnreachable hm.tidy hlive [ret] (e := d)
  have hends : (h.removeUnreachable [ret]).node? ret = some ⟨.ret, pos⟩ := by
    rcases Graph.node?_removeUnreachable hm.tidy hlive [ret] ret with ⟨heq, -⟩ | ⟨-, hnot⟩
    · rw [heq, hm.ends]
    · exact absurd (.inr (List.mem_singleton.2 rfl)) hnot
  obtain ⟨hu₁, hu₂, hu₃, hu₄⟩ := joinExits (h.removeUnreachable [ret]).exits
    (hm.tidy.removeUnreachable [ret]) (contains_of_node? hends) fun n hn => (mem_exits.1 hn).1
  refine ⟨hu₁, hm.fresh, (hu₂ ret).trans hends, fun n hn hr => ?_, fun n hn hr => ?_,
    fun d => ?_, ?_⟩
  · rw [hu₂]
    rcases hnode n hn with ⟨heq, -⟩ | ⟨heq, hnot⟩
    · rw [heq, hm.node? n hn]
    · obtain ⟨s, hs, hb⟩ : g.BareAt n := by_contra fun hb => hnot ⟨hr, hb⟩
      rw [heq, hs, Option.bind_some, (Statement.bare_cases hb).2]
  · rw [hu₂]
    exact (hnode n hn).elim (fun hyes => absurd hyes.2.1 hr) And.left
  · rw [hu₄]
    constructor
    · rintro (hd | ⟨n, hn, hnr, rfl⟩)
      · obtain ⟨hd, hs, -⟩ := (hedges d).1 hd
        obtain ⟨hs, -⟩ := (hm.reached_iff ht (hm.source_ne ht hd)).1 hs
        rcases (hm.edges d).1 hd with ⟨d₀, hd₀, rfl⟩ | ⟨n, hw, hb, rfl⟩
        · exact .inl ⟨d₀, hd₀, hs, rfl⟩
        · exact .inr ⟨n, hs, hw.halts_cut, hb, rfl⟩
      · obtain ⟨hc, hh⟩ := mem_exits.1 hn
        rcases hnode n hnr with ⟨-, hr, hb⟩ | ⟨heq, -⟩
        · refine .inr ⟨n, hr, fun d₀ hd₀ hs => ?_, hb, rfl⟩
          exact hh _ (hm.mem_edges_of_cut ht hentry hd₀ (hs ▸ hr)) hs
        · rw [contains, heq] at hc
          cases hc
    · rintro (⟨d₀, hd₀, hr, rfl⟩ | ⟨n, hr, hh, hb, rfl⟩)
      · exact .inl (hm.mem_edges_of_cut ht hentry hd₀ hr)
      · have hnc := ht.cut.contains_of_reaches hentry hr
        have hnr := hm.ne_ret hnc
        by_cases hw : g.WrittenAt n
        · exact .inl ((hedges _).2 ⟨(hm.edges _).2 (.inr ⟨n, hw, hb, rfl⟩),
            (hm.reached_iff ht hnr).2 ⟨hr, hb⟩, .inr (List.mem_singleton.2 rfl)⟩)
        · refine .inr ⟨n, mem_exits.2 ⟨?_, ?_⟩, hnr, rfl⟩
          · rcases hnode n hnr with ⟨heq, -⟩ | ⟨-, hnot⟩
            · rw [contains, heq]
              exact hm.contains_of_not_bare hnr hnc hb
            · exact absurd ⟨hr, hb⟩ hnot
          · rintro d hd rfl
            rcases (hm.edges d).1 ((hedges d).1 hd).1 with ⟨d₀, hd₀, rfl⟩ | ⟨k, hk, -, rfl⟩
            · exact hh d₀ hd₀ rfl
            · exact hw hk
  · rw [hu₃, entries_removeUnreachable, hm.entries]

/-- **Closing a function without a result** gives a graph of this kind. -/
theorem unitClosed_closeUnit (ht : g.Tidy) (hentries : g.entries = [entry])
    (hentry : g.contains entry = true) (pos : Position) :
    UnitClosed g entry (g.addNode ⟨.ret, pos⟩).1 pos (Cfg.closeUnit pos g) :=
  (merged_closeReturns ht hentries pos).unitClosed ht hentry

end Unit

/-! ### Turning exits into returned values -/

/-- Nodes handled in turn, some of which fail: either one of them stops the loop,
or none fails and the invariant holds of all. -/
theorem foldlM_cases {f : Graph → NodeId → Except Error Graph} {inv : List NodeId → Graph → Prop}
    {bad : NodeId → Error → Prop} (ns : List NodeId) {done : List NodeId} (hnd : ns.Nodup)
    (hfresh : ∀ n ∈ ns, n ∉ done)
    (hstep : ∀ done h, ∀ n ∈ ns, n ∉ done → inv done h →
      (∃ e, bad n e ∧ f h n = .error e) ∨
        (∀ e, ¬bad n e) ∧ ∃ h', f h n = .ok h' ∧ inv (n :: done) h')
    (hinv : inv done h) :
    (∃ n ∈ ns, ∃ e, bad n e ∧ ns.foldlM f h = .error e) ∨
      (∀ n ∈ ns, ∀ e, ¬bad n e) ∧ ∃ h', ns.foldlM f h = .ok h' ∧ inv (ns.reverse ++ done) h' := by
  induction ns generalizing done h with
  | nil => exact .inr ⟨fun _ hn => absurd hn List.not_mem_nil, h, rfl, hinv⟩
  | cons n ns ih =>
    rw [List.nodup_cons] at hnd
    rw [List.foldlM_cons]
    rcases hstep done h n List.mem_cons_self (hfresh n List.mem_cons_self) hinv with
      ⟨e, hbad, he⟩ | ⟨hgood, h', he, hinv'⟩
    · exact .inl ⟨n, List.mem_cons_self, e, hbad, by rw [he]; rfl⟩
    · have hfresh' : ∀ m ∈ ns, m ∉ n :: done := by
        intro m hm
        rw [List.mem_cons, not_or]
        exact ⟨fun h => hnd.1 (h ▸ hm), hfresh m (List.mem_cons_of_mem _ hm)⟩
      have hrun : (f h n >>= fun h => ns.foldlM f h) = ns.foldlM f h' := by rw [he]; rfl
      rw [hrun]
      rcases ih hnd.2 hfresh' (fun done h m hm => hstep done h m (List.mem_cons_of_mem _ hm))
        hinv' with ⟨m, hm, e, hbad, he⟩ | ⟨hall, h'', he, hinv''⟩
      · exact .inl ⟨m, List.mem_cons_of_mem _ hm, e, hbad, he⟩
      · refine .inr ⟨fun m hm => ?_, h'', he, ?_⟩
        · rcases List.mem_cons.1 hm with rfl | hm
          · exact hgood
          · exact hall m hm
        · rwa [List.reverse_cons, List.append_assoc]

/-- A graph in which the nodes of `done` end the function with a value. -/
structure ReturnsValued (g : Graph) (done : List NodeId) (h : Graph) : Prop where
  tidy : h.Tidy
  node? : ∀ m, h.node? m =
    if m ∈ done then (g.node? m).map Statement.asReturn else g.node? m
  edges : ∀ d, d ∈ h.edges ↔ d ∈ g.edges ∧ d.source ∉ done
  entries : h.entries = g.entries

theorem ReturnsValued.start (ht : g.Tidy) : ReturnsValued g [] g :=
  ⟨ht, by simp, by simp, rfl⟩

section Value

variable {done : List NodeId} {s : Statement}

/-- One more node ends the function: its statement returns the value, and no edge
leaves it. -/
theorem ReturnsValued.setKind (hv : ReturnsValued g done h) (hfresh : n ∉ done)
    (hs : g.node? n = some s) {k : StatementKind} (hk : s.asReturn = { s with kind := k })
    {h' : Graph} (ht : h'.Tidy) (hnode : ∀ m, h'.node? m = (h.setKind n k).node? m)
    (hedges : ∀ d, d ∈ h'.edges ↔ d ∈ h.edges ∧ d.source ≠ n) (hentries : h'.entries = h.entries) :
    ReturnsValued g (n :: done) h' := by
  refine ⟨ht, fun m => ?_, fun d => ?_, hentries.trans hv.entries⟩
  · rw [hnode, node?_setKind, hv.node?, hv.node?]
    by_cases hmn : m = n
    · simp [hmn, hfresh, hs, hk]
    · simp [hmn]
  · rw [hedges, hv.edges, List.mem_cons, not_or]
    tauto

/-- The failure of a path that ends in a given statement. -/
def missingAt (sig : Signature) (s : Statement) : Error :=
  .missingReturnValue sig.name ⟨sig.location.file, s.pos⟩

theorem missingValue_eq (sig : Signature) (hs : h.node? n = some s) :
    Cfg.missingValue sig h n = missingAt sig s := by
  simp only [Cfg.missingValue, hs, Option.map_some, Option.getD_some, missingAt]

/-- **Written returns of a function with a result:** a bare one fails, the others
end the function. -/
theorem ReturnsValued.step (sig : Signature) (hv : ReturnsValued g done h) (hn : g.WrittenAt n)
    (hfresh : n ∉ done) :
    (∃ e, (∃ s, g.node? n = some s ∧ s.isBareReturn = true ∧ e = missingAt sig s) ∧
        Cfg.closeValueReturn sig h n = .error e) ∨
      (∀ e, ¬∃ s, g.node? n = some s ∧ s.isBareReturn = true ∧ e = missingAt sig s) ∧
        ∃ h', Cfg.closeValueReturn sig h n = .ok h' ∧ ReturnsValued g (n :: done) h' := by
  obtain ⟨s, hs, hw⟩ := hn
  have hnode : h.node? n = some s := by rw [hv.node?, if_neg hfresh, hs]
  rcases Statement.isWrittenReturn_cases hw with ⟨hk, hb, -⟩ | ⟨t, hk, hb, -⟩
  · refine .inl ⟨_, ⟨s, hs, hb, rfl⟩, ?_⟩
    simp only [Cfg.closeValueReturn, hnode, Option.map_some, hk, missingValue_eq sig hnode]
  · refine .inr ⟨?_, (h.setKind n (.returnValue t)).clearOutgoing n, ?_, ?_⟩
    · rintro e ⟨s', hs', hb', -⟩
      cases hs.symm.trans hs'
      rw [hb] at hb'
      cases hb'
    · simp only [Cfg.closeValueReturn, hnode, Option.map_some, hk]
    · refine hv.setKind hfresh hs (k := .returnValue t) ?_ ((hv.tidy.setKind n _).clearOutgoing n)
        (fun m => node?_clearOutgoing _ _ _) (fun d => ?_) ?_
      · simp only [Statement.asReturn, hk]
      · rw [mem_edges_clearOutgoing, edges_setKind]
      · rw [entries_clearOutgoing, entries_setKind]

/-- **Exits of a function with a result:** a no-op fails, an expression becomes the
value. -/
theorem ReturnsValued.stepExit (sig : Signature) (hv : ReturnsValued g done h)
    (hn : n ∈ g.exits) (hw : ∀ m, ¬g.WrittenAt m) (hfresh : n ∉ done) :
    (∃ e, (∃ s, g.node? n = some s ∧ s.isNoOp = true ∧ e = missingAt sig s) ∧
        Cfg.closeExit sig h n = .error e) ∨
      (∀ e, ¬∃ s, g.node? n = some s ∧ s.isNoOp = true ∧ e = missingAt sig s) ∧
        ∃ h', Cfg.closeExit sig h n = .ok h' ∧ ReturnsValued g (n :: done) h' := by
  obtain ⟨hc, hh⟩ := mem_exits.1 hn
  obtain ⟨s, hs⟩ := contains_iff.1 hc
  have hnode : h.node? n = some s := by rw [hv.node?, if_neg hfresh, hs]
  have hout : ∀ d ∈ h.edges, d.source ≠ n := fun d hd => hh d ((hv.edges d).1 hd).1
  by_cases hno : s.isNoOp = true
  · refine .inl ⟨_, ⟨s, hs, hno, rfl⟩, ?_⟩
    have hk : s.kind = .noOp := by
      unfold Statement.isNoOp at hno
      split at hno <;> simp_all
    simp only [Cfg.closeExit, hnode, Option.map_some, hk, missingValue_eq sig hnode]
  · have hedges : ∀ d, d ∈ h.edges ↔ d ∈ h.edges ∧ d.source ≠ n := fun d =>
      ⟨fun hd => ⟨hd, hout d hd⟩, And.left⟩
    refine .inr ⟨?_, ?_⟩
    · rintro e ⟨s', hs', hno', -⟩
      cases hs.symm.trans hs'
      exact hno hno'
    · by_cases hexp : ∃ t, s.kind = .expression t
      · obtain ⟨t, hk⟩ := hexp
        refine ⟨h.setKind n (.returnValue t), ?_, ?_⟩
        · simp only [Cfg.closeExit, hnode, Option.map_some, hk]
        · refine hv.setKind hfresh hs (k := .returnValue t) ?_ (hv.tidy.setKind n _) (fun _ => rfl)
            (by simpa using hedges) (entries_setKind ..)
          simp only [Statement.asReturn, hk]
      · have hkept : Cfg.closeExit sig h n = .ok h ∧ s.asReturn = s := by
          obtain ⟨kind, pos⟩ := s
          cases kind with
          | expression t => exact absurd ⟨t, rfl⟩ hexp
          | noOp => exact absurd rfl hno
          | writtenReturn t => exact absurd ⟨_, hs, rfl⟩ (hw n)
          | _ => simp [Cfg.closeExit, hnode, Statement.asReturn]
        refine ⟨h, hkept.1, hv.setKind hfresh hs (k := s.kind) hkept.2 hv.tidy (fun m => ?_) hedges rfl⟩
        rw [node?_setKind]
        by_cases hmn : m = n <;> simp [hmn, hnode]

/-- A path that ends in a statement without a value: a bare return anywhere, or a
no-op that the entry reaches and nothing follows. -/
def LacksValue (g : Graph) (entry : NodeId) (s : Statement) : Prop :=
  (∃ n, g.node? n = some s ∧ s.isBareReturn = true) ∨
    ∃ n, g.node? n = some s ∧ s.isNoOp = true ∧ g.cut.Reaches entry n ∧ g.cut.Halts n

/-- The graph of a function with a result after closing: the reached part of the
cut graph, with the nodes that nothing follows turned into returned values. -/
structure ValueClosed (g : Graph) (entry : NodeId) (u : Graph) : Prop where
  tidy : u.Tidy
  kept : ∀ n, g.cut.Reaches entry n → ¬g.cut.Halts n → u.node? n = g.node? n
  ended : ∀ n, g.cut.Reaches entry n → g.cut.Halts n →
    u.node? n = (g.node? n).map Statement.asReturn
  dropped : ∀ n, ¬g.cut.Reaches entry n → u.node? n = none
  edges : ∀ d, d ∈ u.edges ↔ d ∈ g.cut.edges ∧ g.cut.Reaches entry d.source
  entries : u.entries = [entry]

theorem reaches_congr {g' : Graph} (h : ∀ d, d ∈ g.edges ↔ d ∈ g'.edges) :
    g.Reaches = g'.Reaches := by
  have hstep : g.Step = g'.Step := by
    funext u v
    simp only [Step, h]
  rw [Reaches, Reaches, hstep]

/-- The graph between the two loops: written returns are final, and only what is
reached is left. -/
structure Pruned (g : Graph) (entry : NodeId) (p : Graph) : Prop where
  tidy : p.Tidy
  open_node : ∀ n, g.cut.Reaches entry n → ¬g.WrittenAt n → p.node? n = g.node? n
  written_node : ∀ n, g.cut.Reaches entry n → g.WrittenAt n →
    p.node? n = (g.node? n).map Statement.asReturn
  dropped : ∀ n, ¬g.cut.Reaches entry n → p.node? n = none
  edges : ∀ d, d ∈ p.edges ↔ d ∈ g.cut.edges ∧ g.cut.Reaches entry d.source
  entries : p.entries = [entry]

theorem ReturnsValued.pruned {entry : NodeId} (hv : ReturnsValued g done h)
    (hdone : ∀ n, n ∈ done ↔ g.WrittenAt n) (hentries : g.entries = [entry])
    (hentry : g.contains entry = true) : Pruned g entry (h.removeUnreachable []) := by
  have hedges : ∀ d, d ∈ h.edges ↔ d ∈ g.cut.edges := fun d => by
    rw [hv.edges, mem_edges_cut, hdone]
  have hreach : ∀ n, (∃ e ∈ h.entries, h.Reaches e n) ∨ n ∈ [] ↔ g.cut.Reaches entry n := by
    intro n
    rw [hv.entries, hentries, reaches_congr hedges]
    simp
  have hlive : ∀ e ∈ h.entries, h.contains e = true := by
    intro e he
    rw [hv.entries, hentries, List.mem_singleton] at he
    obtain ⟨s, hs⟩ := contains_iff.1 hentry
    rw [he, contains_iff, hv.node?, hs]
    split
    · exact ⟨_, rfl⟩
    · exact ⟨_, rfl⟩
  have hnode := node?_removeUnreachable hv.tidy hlive []
  refine ⟨hv.tidy.removeUnreachable [], fun n hr hw => ?_, fun n hr hw => ?_, fun n hr => ?_,
    fun d => ?_, by rw [entries_removeUnreachable, hv.entries, hentries]⟩
  · rcases hnode n with ⟨heq, -⟩ | ⟨-, hnot⟩
    · rw [heq, hv.node?, if_neg fun hm => hw ((hdone n).1 hm)]
    · exact absurd ((hreach n).2 hr) hnot
  · rcases hnode n with ⟨heq, -⟩ | ⟨-, hnot⟩
    · rw [heq, hv.node?, if_pos ((hdone n).2 hw)]
    · exact absurd ((hreach n).2 hr) hnot
  · rcases hnode n with ⟨-, hyes⟩ | ⟨heq, -⟩
    · exact absurd ((hreach n).1 hyes) hr
    · exact heq
  · rw [mem_edges_removeUnreachable hv.tidy hlive, hreach, hreach, hedges]
    exact ⟨fun ⟨hd, hs, _⟩ => ⟨hd, hs⟩, fun ⟨hd, hs⟩ => ⟨hd, hs, hs.tail ⟨d, hd, rfl, rfl⟩⟩⟩

section Pruned

variable {entry : NodeId} {p : Graph}

theorem Pruned.reaches_of_contains (hp : Pruned g entry p) (hn : p.contains n = true) :
    g.cut.Reaches entry n := by
  by_contra hr
  rw [contains, hp.dropped n hr] at hn
  cases hn

theorem Pruned.halts_iff (hp : Pruned g entry p) (hr : g.cut.Reaches entry n) :
    p.Halts n ↔ g.cut.Halts n := by
  refine ⟨fun hh d hd hs => hh d ((hp.edges d).2 ⟨hd, hs ▸ hr⟩) hs, fun hh d hd => ?_⟩
  exact hh d ((hp.edges d).1 hd).1

theorem Pruned.mem_exits (hp : Pruned g entry p) (ht : g.Tidy) (hentry : g.contains entry = true) :
    n ∈ p.exits ↔ g.cut.Reaches entry n ∧ g.cut.Halts n := by
  rw [Graph.mem_exits]
  constructor
  · rintro ⟨hc, hh⟩
    have hr := hp.reaches_of_contains hc
    exact ⟨hr, (hp.halts_iff hr).1 hh⟩
  · rintro ⟨hr, hh⟩
    refine ⟨?_, (hp.halts_iff hr).2 hh⟩
    obtain ⟨s, hs⟩ := contains_iff.1 (ht.cut.contains_of_reaches hentry hr)
    rw [node?_cut] at hs
    by_cases hw : g.WrittenAt n
    · exact contains_of_node? (by rw [hp.written_node n hr hw, hs]; rfl)
    · exact contains_of_node? (by rw [hp.open_node n hr hw, hs])

theorem Pruned.node?_cases (hp : Pruned g entry p) (hb : ∀ m, ¬g.BareAt m)
    (hs : p.node? n = some s) :
    g.cut.Reaches entry n ∧
      (g.node? n = some s ∧ s.isWrittenReturn = false ∨ ∃ t, s.kind = .returnValue t) := by
  have hr := hp.reaches_of_contains (contains_of_node? hs)
  refine ⟨hr, ?_⟩
  by_cases hw : g.WrittenAt n
  · obtain ⟨s₀, hs₀, hw₀⟩ := id hw
    rw [hp.written_node n hr hw, hs₀] at hs
    cases hs
    rcases Statement.isWrittenReturn_cases hw₀ with ⟨-, hbare, -⟩ | ⟨t, hk, -⟩
    · exact absurd ⟨s₀, hs₀, hbare⟩ (hb n)
    · exact .inr ⟨t, by simp only [Statement.asReturn, hk]⟩
  · rw [hp.open_node n hr hw] at hs
    refine .inl ⟨hs, ?_⟩
    rw [← Bool.not_eq_true]
    exact fun h => hw ⟨s, hs, h⟩

theorem Pruned.not_writtenAt (hp : Pruned g entry p) (hb : ∀ m, ¬g.BareAt m) (m : NodeId) :
    ¬p.WrittenAt m := by
  rintro ⟨s, hs, hw⟩
  rcases (hp.node?_cases hb hs).2 with ⟨-, hno⟩ | ⟨t, hk⟩
  · rw [hw] at hno
    cases hno
  · simp [Statement.isWrittenReturn, hk] at hw

theorem Pruned.valueClosed (hp : Pruned g entry p) (ht : g.Tidy)
    (hentry : g.contains entry = true) {u : Graph} {done : List NodeId}
    (hv : ReturnsValued p done u) (hdone : ∀ n, n ∈ done ↔ n ∈ p.exits) :
    ValueClosed g entry u := by
  have hexit : ∀ n, n ∈ done ↔ g.cut.Reaches entry n ∧ g.cut.Halts n := fun n => by
    rw [hdone, hp.mem_exits ht hentry]
  refine ⟨hv.tidy, fun n hr hh => ?_, fun n hr hh => ?_, fun n hr => ?_, fun d => ?_,
    hv.entries.trans hp.entries⟩
  · have hw : ¬g.WrittenAt n := fun hw => hh hw.halts_cut
    rw [hv.node?, if_neg fun hm => hh ((hexit n).1 hm).2, hp.open_node n hr hw]
  · rw [hv.node?, if_pos ((hexit n).2 ⟨hr, hh⟩)]
    by_cases hw : g.WrittenAt n
    · rw [hp.written_node n hr hw, Option.map_map]
      congr 1
      funext s
      exact s.asReturn_asReturn
    · rw [hp.open_node n hr hw]
  · rw [hv.node?, hp.dropped n hr]
    simp
  · rw [hv.edges, hp.edges]
    refine ⟨And.left, fun hd => ⟨hd, fun hm => ((hexit _).1 hm).2 d hd.1 rfl⟩⟩

end Pruned

/-- **Closing a function with a result** fails exactly if a path lacks a value, and
otherwise gives a graph of this kind. -/
theorem closeValue_cases (sig : Signature) {entry : NodeId} (ht : g.Tidy)
    (hentries : g.entries = [entry]) (hentry : g.contains entry = true) :
    (∃ s, g.LacksValue entry s ∧ Cfg.closeValue sig g = .error (missingAt sig s)) ∨
      (∀ s, ¬g.LacksValue entry s) ∧ ∃ u, Cfg.closeValue sig g = .ok u ∧ ValueClosed g entry u := by
  unfold Cfg.closeValue
  rcases foldlM_cases (g.findNodes Statement.isWrittenReturn) (nodup_findNodes _ _)
    (fun _ _ => List.not_mem_nil)
    (fun done h n hn hfresh hv => hv.step sig (mem_findNodes.1 hn) hfresh)
    (ReturnsValued.start ht) with ⟨n, -, e, ⟨s, hs, hb, rfl⟩, he⟩ | ⟨hgood, h, he, hv⟩
  · exact .inl ⟨s, .inl ⟨n, hs, hb⟩, by rw [he]; rfl⟩
  have hbare : ∀ n, ¬g.BareAt n := by
    rintro n ⟨s, hs, hb⟩
    exact hgood n (mem_findNodes.2 (BareAt.writtenAt ⟨s, hs, hb⟩)) _ ⟨s, hs, hb, rfl⟩
  have hp : Pruned g entry (h.removeUnreachable []) := hv.pruned
    (fun n => by rw [List.append_nil, List.mem_reverse]; exact mem_findNodes) hentries hentry
  simp only [he]
  show (∃ s, _ ∧ (h.removeUnreachable []).exits.foldlM (Cfg.closeExit sig) _ = _) ∨
    _ ∧ ∃ u, (h.removeUnreachable []).exits.foldlM (Cfg.closeExit sig) _ = _ ∧ _
  generalize h.removeUnreachable [] = p at hp ⊢
  rcases foldlM_cases p.exits ((nodup_nodes p).filter _) (fun _ _ => List.not_mem_nil)
    (fun done h n hn hfresh hv => hv.stepExit sig hn (hp.not_writtenAt hbare) hfresh)
    (ReturnsValued.start hp.tidy) with ⟨n, hn, e, ⟨s, hs, hno, rfl⟩, he⟩ | ⟨hgood, u, he, hv⟩
  · refine .inl ⟨s, .inr ⟨n, ?_, hno, (hp.mem_exits ht hentry).1 hn⟩, he⟩
    rcases (hp.node?_cases hbare hs).2 with ⟨h, -⟩ | ⟨t, hk⟩
    · exact h
    · simp [Statement.isNoOp, hk] at hno
  · refine .inr ⟨?_, u, he, hp.valueClosed ht hentry hv fun n => by
      rw [List.append_nil, List.mem_reverse]⟩
    rintro s (⟨n, hs, hb⟩ | ⟨n, hs, hno, hr, hh⟩)
    · exact hbare n ⟨s, hs, hb⟩
    · refine hgood n ((hp.mem_exits ht hentry).2 ⟨hr, hh⟩) _ ⟨s, ?_, hno, rfl⟩
      rw [hp.open_node n hr, hs]
      rintro ⟨s', hs', hw⟩
      cases hs.symm.trans hs'
      unfold Statement.isNoOp at hno
      unfold Statement.isWrittenReturn at hw
      split at hno <;> simp_all

end Value

end Graph
end RustFlow
