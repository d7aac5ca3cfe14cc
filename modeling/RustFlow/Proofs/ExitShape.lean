/-
# How control leaves a function

The finished graph of a function has one entry, from which every node is reached
(the `ret` node of a function without a result may not be), and no return is left
as it was written.  Without a result the `ret` node is the one exit; with a result
the exits are exactly the nodes that return a value, and there are at least two
nodes (`Graph.ExitShape`).

Closing establishes this (`UnitClosed.shape`, `ValueClosed.shape`), each splice
keeps it (`Shape.splice`), and so does the no-op before a single node
(`Shape.finish`).  The last section gives the two results: the shape of every
graph that is built, with the exact condition for a failure, and what switching
simplification on changes.
-/

import RustFlow.Proofs.Closing
import RustFlow.Proofs.Contraction

namespace RustFlow

namespace Statement

/-- Whether a statement leaves a function without a result. -/
def isRet (s : Statement) : Bool :=
  match s.kind with
  | .ret => true
  | _ => false

theorem of_settled {s s' : Statement} (h : s.settled = some s') :
    s'.isWrittenReturn = false ∧ s'.isRet = s.isRet ∧ s'.isReturnValue = s.isReturnValue := by
  obtain ⟨kind, pos⟩ := s
  cases kind with
  | writtenReturn t =>
    cases t with
    | none => cases h
    | some t =>
      cases h
      exact ⟨rfl, rfl, rfl⟩
  | _ =>
    cases h
    exact ⟨rfl, rfl, rfl⟩

theorem isRet_asReturn (s : Statement) : s.asReturn.isRet = s.isRet := by
  obtain ⟨kind, pos⟩ := s
  cases kind with
  | writtenReturn t => cases t <;> rfl
  | _ => rfl

/-- A statement without a value is bare, a no-op or a `ret`; any other returns its
value. -/
theorem isReturnValue_asReturn {s : Statement} (hb : s.isBareReturn = false)
    (hno : s.isNoOp = false) (hr : s.isRet = false) :
    s.asReturn.isReturnValue = true ∧ s.asReturn.isWrittenReturn = false := by
  obtain ⟨kind, pos⟩ := s
  cases kind with
  | writtenReturn t =>
    cases t with
    | none => cases hb
    | some t => exact ⟨rfl, rfl⟩
  | noOp => cases hno
  | ret => cases hr
  | _ => exact ⟨rfl, rfl⟩

end Statement

namespace Graph

variable {g g' : Graph} {entry n m : NodeId} {returnsUnit : Bool} {s : Statement}

/-- What closing starts from: a lowered graph with its entry. -/
structure Unclosed (returnsUnit : Bool) (entry : NodeId) (g : Graph) : Prop where
  tidy : g.Tidy
  entries : g.entries = [entry]
  entry_live : g.contains entry = true
  not_ret : ∀ n s, g.node? n = some s → s.isRet = false
  not_value : returnsUnit = true → ∀ n s, g.node? n = some s → s.isReturnValue = false
  ended : ∀ e ∈ g.edges, ∀ s, g.node? e.source = some s → s.isReturnValue = false

theorem unclosed_addEntry {set : Setting} (hl : Body.Lowered set g)
    (hentry : g.contains entry = true) : Unclosed set.returnsUnit entry (g.addEntry entry) := by
  refine ⟨hl.tidy.addEntry entry, entries_addEntry_of_nil hl.entries, ?_, fun n s hs => ?_,
    fun hunit n s hs => ?_, fun e he s hs => ?_⟩
  · rwa [contains, node?_addEntry]
  · have ha := hl.allowed n s (by simpa using hs)
    unfold Setting.Allows at ha
    unfold Statement.isRet
    split at ha <;> simp_all
  · have ha := hl.allowed n s (by simpa using hs)
    unfold Setting.Allows at ha
    unfold Statement.isReturnValue
    split at ha <;> simp_all
  · exact hl.ended e (by simpa using he) s (by simpa using hs)

/-- One entry, from which all is reached, and exits of one kind. -/
structure Shape (returnsUnit : Bool) (entry : NodeId) (g : Graph) : Prop where
  tidy : g.Tidy
  entries : g.entries = [entry]
  entry_live : g.contains entry = true
  reached : ∀ n s, g.node? n = some s →
    g.Reaches entry n ∨ returnsUnit = true ∧ s.isRet = true
  not_written : ∀ n s, g.node? n = some s → s.isWrittenReturn = false
  halts_iff : ∀ n s, g.node? n = some s →
    (g.Halts n ↔ (if returnsUnit then s.isRet else s.isReturnValue) = true)
  other_kind : ∀ n s, g.node? n = some s →
    (if returnsUnit then s.isReturnValue else s.isRet) = false
  ret_unique : returnsUnit = true → ∃ r, ∀ n, (∃ s, g.node? n = some s ∧ s.isRet = true) ↔ n = r

/-! ### After closing -/

section Unit

variable {ret : NodeId} {pos : Position} {u : Graph}

theorem UnitClosed.halts_ret (hu : UnitClosed g entry ret pos u) (hg : Unclosed true entry g) :
    u.Halts ret := by
  have habsent : ∀ k, g.contains k = true → k ≠ ret := by
    rintro k hk rfl
    rw [contains, hu.fresh] at hk
    cases hk
  intro d hd
  rcases (hu.edges d).1 hd with ⟨d₀, hd₀, -, rfl⟩ | ⟨k, hr, -, -, rfl⟩
  · exact habsent _ (hg.tidy.cut.source_live d₀ hd₀)
  · exact habsent _ (hg.tidy.cut.contains_of_reaches hg.entry_live hr)

theorem UnitClosed.reaches (hu : UnitClosed g entry ret pos u) (hr : g.cut.Reaches entry n) :
    u.Reaches (g.merged ret entry) (g.merged ret n) := by
  induction hr with
  | refl => exact .refl
  | tail hr hstep ih =>
    obtain ⟨d, hd, rfl, rfl⟩ := hstep
    have hsource : ¬g.BareAt d.source := fun hb => (mem_edges_cut.1 hd).2 hb.writtenAt
    rw [merged_of_not_bare hsource] at ih
    exact ih.tail ⟨_, (hu.edges _).2 (.inl ⟨d, hd, hr, rfl⟩), rfl, rfl⟩

/-- A node other than `ret` comes from a reached node that is no bare return. -/
theorem UnitClosed.node?_cases (hu : UnitClosed g entry ret pos u) (hn : n ≠ ret)
    (hs : u.node? n = some s) :
    g.cut.Reaches entry n ∧ ¬g.BareAt n ∧ ∃ s₀, g.node? n = some s₀ ∧ s₀.settled = some s := by
  have hr : g.cut.Reaches entry n := by
    by_contra hr
    rw [hu.dropped n hn hr] at hs
    cases hs
  rw [hu.kept n hn hr, Option.bind_eq_some_iff] at hs
  obtain ⟨s₀, hs₀, hset⟩ := hs
  refine ⟨hr, ?_, s₀, hs₀, hset⟩
  rintro ⟨s', hs', hb⟩
  cases hs₀.symm.trans hs'
  rw [(Statement.bare_cases hb).2] at hset
  cases hset

theorem UnitClosed.not_halts (hu : UnitClosed g entry ret pos u) (hr : g.cut.Reaches entry n)
    (hb : ¬g.BareAt n) : ¬u.Halts n := by
  intro hh
  by_cases hcut : g.cut.Halts n
  · exact hh _ ((hu.edges _).2 (.inr ⟨n, hr, hcut, hb, rfl⟩)) rfl
  · refine hcut fun d hd hs => ?_
    exact hh _ ((hu.edges _).2 (.inl ⟨d, hd, hs ▸ hr, rfl⟩)) hs

theorem UnitClosed.contains_merged (hu : UnitClosed g entry ret pos u)
    (hn : g.contains n = true) (hr : g.cut.Reaches entry n) :
    u.contains (g.merged ret n) = true := by
  by_cases hb : g.BareAt n
  · rw [merged_of_bare hb]
    exact contains_of_node? hu.ends
  · have hne : n ≠ ret := by
      rintro rfl
      rw [contains, hu.fresh] at hn
      cases hn
    obtain ⟨s, hs⟩ := contains_iff.1 hn
    rw [merged_of_not_bare hb, contains_iff, hu.kept n hne hr, hs]
    exact exists_settled hs hb

theorem UnitClosed.shape (hu : UnitClosed g entry ret pos u) (hg : Unclosed true entry g) :
    Shape true (g.merged ret entry) u where
  tidy := hu.tidy
  entries := hu.entries
  entry_live := hu.contains_merged hg.entry_live .refl
  reached n s hs := by
    by_cases hn : n = ret
    · subst hn
      cases hu.ends.symm.trans hs
      exact .inr ⟨rfl, rfl⟩
    · obtain ⟨hr, hb, -⟩ := hu.node?_cases hn hs
      have hr := hu.reaches hr
      rw [merged_of_not_bare hb] at hr
      exact .inl hr
  not_written n s hs := by
    by_cases hn : n = ret
    · subst hn
      cases hu.ends.symm.trans hs
      rfl
    · obtain ⟨-, -, s₀, -, hset⟩ := hu.node?_cases hn hs
      exact (Statement.of_settled hset).1
  halts_iff n s hs := by
    by_cases hn : n = ret
    · subst hn
      cases hu.ends.symm.trans hs
      exact ⟨fun _ => rfl, fun _ => hu.halts_ret hg⟩
    · obtain ⟨hr, hb, s₀, hs₀, hset⟩ := hu.node?_cases hn hs
      refine ⟨fun hh => absurd hh (hu.not_halts hr hb), fun hret => ?_⟩
      have := (Statement.of_settled hset).2.1.symm.trans (by simpa using hret)
      rw [hg.not_ret n s₀ hs₀] at this
      cases this
  other_kind n s hs := by
    by_cases hn : n = ret
    · subst hn
      cases hu.ends.symm.trans hs
      rfl
    · obtain ⟨-, -, s₀, hs₀, hset⟩ := hu.node?_cases hn hs
      exact (Statement.of_settled hset).2.2.trans (hg.not_value rfl n s₀ hs₀)
  ret_unique _ := by
    refine ⟨ret, fun n => ⟨?_, ?_⟩⟩
    · rintro ⟨s, hs, hret⟩
      by_contra hn
      obtain ⟨-, -, s₀, hs₀, hset⟩ := hu.node?_cases hn hs
      rw [(Statement.of_settled hset).2.1, hg.not_ret n s₀ hs₀] at hret
      cases hret
    · rintro rfl
      exact ⟨_, hu.ends, rfl⟩

end Unit

section Value

variable {u : Graph}

theorem ValueClosed.node?_cases (hu : ValueClosed g entry u) (hs : u.node? n = some s) :
    g.cut.Reaches entry n ∧
      (¬g.cut.Halts n ∧ g.node? n = some s ∨
        g.cut.Halts n ∧ ∃ s₀, g.node? n = some s₀ ∧ s = s₀.asReturn) := by
  have hr : g.cut.Reaches entry n := by
    by_contra hr
    rw [hu.dropped n hr] at hs
    cases hs
  refine ⟨hr, ?_⟩
  by_cases hh : g.cut.Halts n
  · rw [hu.ended n hr hh, Option.map_eq_some_iff] at hs
    obtain ⟨s₀, hs₀, rfl⟩ := hs
    exact .inr ⟨hh, s₀, hs₀, rfl⟩
  · exact .inl ⟨hh, by rw [← hu.kept n hr hh, hs]⟩

theorem ValueClosed.halts_iff (hu : ValueClosed g entry u) (hr : g.cut.Reaches entry n) :
    u.Halts n ↔ g.cut.Halts n := by
  refine ⟨fun hh d hd hs => hh d ((hu.edges d).2 ⟨hd, hs ▸ hr⟩) hs, fun hh d hd => ?_⟩
  exact hh d ((hu.edges d).1 hd).1

theorem ValueClosed.reaches (hu : ValueClosed g entry u) (hr : g.cut.Reaches entry n) :
    u.Reaches entry n := by
  induction hr with
  | refl => exact .refl
  | tail hr hstep ih =>
    obtain ⟨d, hd, rfl, rfl⟩ := hstep
    exact ih.tail ⟨d, (hu.edges d).2 ⟨hd, hr⟩, rfl, rfl⟩

theorem ValueClosed.shape (hu : ValueClosed g entry u) (hg : Unclosed false entry g)
    (hvalue : ∀ s, ¬g.LacksValue entry s) : Shape false entry u := by
  have hfinal : ∀ n s₀, g.cut.Reaches entry n → g.cut.Halts n → g.node? n = some s₀ →
      s₀.asReturn.isReturnValue = true ∧ s₀.asReturn.isWrittenReturn = false := by
    intro n s₀ hr hh hs₀
    refine Statement.isReturnValue_asReturn ?_ ?_ (hg.not_ret n s₀ hs₀)
    · rw [← Bool.not_eq_true]
      exact fun hb => hvalue s₀ (.inl ⟨n, hs₀, hb⟩)
    · rw [← Bool.not_eq_true]
      exact fun hno => hvalue s₀ (.inr ⟨n, hs₀, hno, hr, hh⟩)
  refine ⟨hu.tidy, hu.entries, ?_, fun n s hs => ?_, fun n s hs => ?_, fun n s hs => ?_,
    fun n s hs => ?_, fun h => by cases h⟩
  · obtain ⟨s, hs⟩ := contains_iff.1 hg.entry_live
    by_cases hh : g.cut.Halts entry
    · exact contains_of_node? (by rw [hu.ended entry .refl hh, hs]; rfl)
    · exact contains_of_node? (by rw [hu.kept entry .refl hh, hs])
  · exact .inl (hu.reaches (hu.node?_cases hs).1)
  · obtain ⟨hr, ⟨hh, hs⟩ | ⟨hh, s₀, hs₀, rfl⟩⟩ := hu.node?_cases hs
    · rw [← Bool.not_eq_true]
      exact fun hw => hh (WrittenAt.halts_cut ⟨s, hs, hw⟩)
    · exact (hfinal n s₀ hr hh hs₀).2
  · obtain ⟨hr, ⟨hh, hs⟩ | ⟨hh, s₀, hs₀, rfl⟩⟩ := hu.node?_cases hs
    · rw [hu.halts_iff hr]
      refine ⟨fun h => absurd h hh, fun hv => ?_⟩
      refine absurd (fun d hd hsrc => ?_) hh
      have := hg.ended d (mem_edges_cut.1 hd).1 s (hsrc ▸ hs)
      rw [show s.isReturnValue = true from hv] at this
      cases this
    · rw [hu.halts_iff hr]
      exact ⟨fun _ => (hfinal n s₀ hr hh hs₀).1, fun _ => hh⟩
  · obtain ⟨hr, ⟨hh, hs⟩ | ⟨hh, s₀, hs₀, rfl⟩⟩ := hu.node?_cases hs
    · exact hg.not_ret n s hs
    · exact s₀.isRet_asReturn.trans (hg.not_ret n s₀ hs₀)

end Value

/-! ### After splicing -/

theorem Shape.passReached (hs : Shape returnsUnit entry g) : g.PassReached := by
  intro n hn
  obtain ⟨s, hnode, hno⟩ := hn.noOp
  refine ⟨entry, by rw [hs.entries]; exact List.mem_singleton.2 rfl, ?_⟩
  refine (hs.reached n s hnode).resolve_right fun hret => ?_
  unfold Statement.isNoOp at hno
  unfold Statement.isRet at hret
  split at hno <;> simp_all

theorem SpliceStep.halts_iff {i o : Edge} (h : SpliceStep n i o g g') (ht : g.Tidy) (hm : m ≠ n) :
    g'.Halts m ↔ g.Halts m := by
  rw [← outgoing_eq_nil, ← outgoing_eq_nil, ← List.length_eq_zero_iff, h.length_outgoing ht hm,
    List.length_eq_zero_iff]

/-- **A splice keeps the shape.** -/
theorem Shape.splice {i o : Edge} (hs : Shape returnsUnit entry g) (h : SpliceStep n i o g g') :
    Shape returnsUnit entry g' := by
  have hentry : entry ≠ n := by
    rintro rfl
    have := h.pass.not_entry
    rw [isEntry, hs.entries] at this
    simp at this
  have hnode : ∀ m s, g'.node? m = some s → m ≠ n ∧ g.node? m = some s := by
    intro m s hm
    rw [h.node?_eq] at hm
    split at hm
    · cases hm
    · exact ⟨‹_›, hm⟩
  refine ⟨h.tidy hs.tidy, h.entries_eq.trans hs.entries, ?_, fun m s hm => ?_, fun m s hm => ?_,
    fun m s hm => ?_, fun m s hm => ?_, fun hunit => ?_⟩
  · rw [contains, h.node?_eq, if_neg hentry]
    exact hs.entry_live
  · obtain ⟨hne, hm⟩ := hnode m s hm
    exact (hs.reached m s hm).imp_left fun hr => (h.reaches hs.tidy hentry hr).1 hne
  · exact hs.not_written m s (hnode m s hm).2
  · obtain ⟨hne, hm⟩ := hnode m s hm
    rw [h.halts_iff hs.tidy hne, hs.halts_iff m s hm]
  · exact hs.other_kind m s (hnode m s hm).2
  · obtain ⟨r, hr⟩ := hs.ret_unique hunit
    refine ⟨r, fun m => ⟨?_, ?_⟩⟩
    · rintro ⟨s, hm, hret⟩
      exact (hr m).1 ⟨s, (hnode m s hm).2, hret⟩
    · rintro rfl
      obtain ⟨s, hm, hret⟩ := (hr m).2 rfl
      refine ⟨s, ?_, hret⟩
      rw [h.node?_eq, if_neg, hm]
      -- a `ret` node is no no-op
      rintro rfl
      obtain ⟨s', hs', hno⟩ := h.pass.noOp
      cases hm.symm.trans hs'
      unfold Statement.isNoOp at hno
      unfold Statement.isRet at hret
      split at hno <;> simp_all

theorem Shape.splices (hs : Shape returnsUnit entry g) (h : Splices g g') :
    Shape returnsUnit entry g' := by
  induction h with
  | refl => exact hs
  | tail _ hstep ih =>
    obtain ⟨_, _, _, hstep⟩ := hstep
    exact ih.splice hstep

/-! ### With a no-op before a single node -/

theorem two_le_nodeCount (hn : g.contains n = true) (hm : g.contains m = true) (hne : n ≠ m) :
    2 ≤ g.nodeCount := by
  have hsub : [n, m] ⊆ g.nodes := by
    intro k hk
    rw [mem_nodes]
    simp only [List.mem_cons, List.not_mem_nil, or_false] at hk
    rcases hk with rfl | rfl
    · exact hn
    · exact hm
  have hnd : [n, m].Nodup := by simpa using hne
  exact (List.subperm_of_subset hnd hsub).length_le

/-- A graph with a no-op put before its entry. -/
structure Guarded (entry e : NodeId) (pos : Position) (g g' : Graph) : Prop where
  fresh : g.node? e = none
  node? : ∀ m, g'.node? m = if m = e then some (.noOp pos) else g.node? m
  edges : g'.edges = ⟨e, entry, .sequential⟩ :: g.edges
  entries : g'.entries = [e]
  tidy : g'.Tidy

theorem guarded_guardSingle (sig : Signature) (ht : g.Tidy) (hentries : g.entries = [entry])
    (hlive : g.contains entry = true) :
    ∃ e pos, Guarded entry e pos g (Cfg.guardSingle sig g) := by
  simp only [Cfg.guardSingle, hentries]
  generalize (Option.map Statement.pos (g.node? entry)).getD sig.location.position = pos
  have hfresh := ht.node?_fresh (.noOp pos)
  have hnode := ht.node?_addNode (.noOp pos)
  have htidy := ht.addNode (.noOp pos)
  have hedges := edges_addNode g (.noOp pos)
  generalize (g.addNode (.noOp pos)).1 = e at hfresh hnode ⊢
  generalize (g.addNode (.noOp pos)).2 = g₁ at hnode htidy hedges ⊢
  have hlive₁ : g₁.contains entry = true := by
    rw [contains, hnode]
    split
    · rfl
    · exact hlive
  have hnew : g₁.contains e = true := contains_of_node? (by rw [hnode, if_pos rfl])
  exact ⟨e, pos, hfresh, hnode, congrArg (_ :: ·) hedges, rfl,
    (htidy.addEdge hnew hlive₁ .sequential).setEntries _⟩

section Guarded

variable {e : NodeId} {pos : Position} (hg : Guarded entry e pos g g')
include hg

theorem Guarded.node?_cases (hm : g'.node? m = some s) :
    m = e ∧ s = .noOp pos ∨ m ≠ e ∧ g.node? m = some s := by
  rw [hg.node?] at hm
  split at hm
  · exact .inl ⟨‹_›, (Option.some.inj hm).symm⟩
  · exact .inr ⟨‹_›, hm⟩

theorem Guarded.ne_of_contains (hm : g.contains m = true) : m ≠ e := by
  rintro rfl
  rw [contains, hg.fresh] at hm
  cases hm

theorem Guarded.mem_edges {d : Edge} :
    d ∈ g'.edges ↔ d = ⟨e, entry, .sequential⟩ ∨ d ∈ g.edges := by
  rw [hg.edges, List.mem_cons]

theorem Guarded.halts_iff (hm : m ≠ e) : g'.Halts m ↔ g.Halts m := by
  refine ⟨fun hh d hd => hh d (hg.mem_edges.2 (.inr hd)), fun hh d hd => ?_⟩
  rcases hg.mem_edges.1 hd with rfl | hd
  · exact Ne.symm hm
  · exact hh d hd

theorem Guarded.not_halts : ¬g'.Halts e := fun hh => hh _ (hg.mem_edges.2 (.inl rfl)) rfl

theorem Guarded.reaches (hr : g.Reaches entry m) : g'.Reaches e m := by
  have hstep : ∀ a b, g.Step a b → g'.Step a b := by
    rintro a b ⟨d, hd, hsrc, htgt⟩
    exact ⟨d, hg.mem_edges.2 (.inr hd), hsrc, htgt⟩
  exact .head ⟨_, hg.mem_edges.2 (.inl rfl), rfl, rfl⟩ (Relation.ReflTransGen.mono hstep _ _ hr)

end Guarded

/-- A single node of a function with a result gets a no-op entry before it. -/
theorem Shape.guardSingle (sig : Signature) (hs : Shape false entry g) :
    ∃ e, Shape false e (Cfg.guardSingle sig g) ∧ 2 ≤ (Cfg.guardSingle sig g).nodeCount := by
  obtain ⟨e, pos, h⟩ := guarded_guardSingle sig hs.tidy hs.entries hs.entry_live
  generalize Cfg.guardSingle sig g = g' at h ⊢
  have hne := h.ne_of_contains hs.entry_live
  have hlive : g'.contains e = true := contains_of_node? (by rw [h.node?, if_pos rfl])
  have hlive' : g'.contains entry = true := by
    rw [contains, h.node?, if_neg hne]
    exact hs.entry_live
  refine ⟨e, ⟨h.tidy, h.entries, hlive, fun m s hm => ?_, fun m s hm => ?_, fun m s hm => ?_,
    fun m s hm => ?_, fun h => by cases h⟩, two_le_nodeCount hlive' hlive hne⟩
  · rcases h.node?_cases hm with ⟨rfl, -⟩ | ⟨-, hm⟩
    · exact .inl .refl
    · exact .inl (h.reaches ((hs.reached m s hm).resolve_right fun h => by cases h.1))
  · rcases h.node?_cases hm with ⟨-, rfl⟩ | ⟨-, hm⟩
    · rfl
    · exact hs.not_written m s hm
  · rcases h.node?_cases hm with ⟨rfl, rfl⟩ | ⟨hme, hm⟩
    · exact ⟨fun hh => absurd hh h.not_halts, fun h => by cases h⟩
    · rw [h.halts_iff hme, hs.halts_iff m s hm]
  · rcases h.node?_cases hm with ⟨-, rfl⟩ | ⟨-, hm⟩
    · rfl
    · exact hs.other_kind m s hm

theorem Shape.finish (sig : Signature) (hs : Shape sig.returnsUnit entry g) :
    ∃ e, Shape sig.returnsUnit e (Cfg.finish sig g) ∧
      (sig.returnsUnit = false → 2 ≤ (Cfg.finish sig g).nodeCount) := by
  by_cases hguard : sig.returnsUnit = false ∧ g.nodeCount = 1
  · have heq : Cfg.finish sig g = Cfg.guardSingle sig g := by
      simp [Cfg.finish, hguard.1, hguard.2]
    rw [hguard.1] at hs ⊢
    obtain ⟨e, he, htwo⟩ := hs.guardSingle sig
    exact ⟨e, heq ▸ he, fun _ => heq ▸ htwo⟩
  · have heq : Cfg.finish sig g = g := by simpa [Cfg.finish] using fun h₁ h₂ => absurd ⟨h₁, h₂⟩ hguard
    rw [heq]
    refine ⟨entry, hs, fun hunit => ?_⟩
    have hpos : 0 < g.nodeCount := List.length_pos_of_mem (mem_nodes.2 hs.entry_live)
    have hone : g.nodeCount ≠ 1 := fun h => hguard ⟨hunit, h⟩
    omega

/-! ### Finished graphs -/

/-- How control leaves a finished graph. -/
structure ExitShape (returnsUnit : Bool) (g : Graph) : Prop where
  /-- There is one entry, and it reaches every node but the `ret` node. -/
  entry : ∃ e, g.entries = [e] ∧ g.contains e = true ∧
    ∀ n s, g.node? n = some s → g.Reaches e n ∨ returnsUnit = true ∧ s.isRet = true
  not_written : g.findNodes Statement.isWrittenReturn = []
  /-- Without a result there is one `ret` node, which is the only exit. -/
  unit : returnsUnit = true → ∃ r, g.findNodes Statement.isRet = [r] ∧ g.exits = [r] ∧
    g.findNodes Statement.isReturnValue = []
  /-- With a result the exits are the nodes that return a value. -/
  value : returnsUnit = false → g.findNodes Statement.isRet = [] ∧ 2 ≤ g.nodeCount ∧
    g.exits = g.findNodes Statement.isReturnValue

theorem findNodes_eq_nil {p : Statement → Bool}
    (h : ∀ n s, g.node? n = some s → p s = false) : g.findNodes p = [] := by
  rw [List.eq_nil_iff_forall_not_mem]
  intro n hn
  obtain ⟨s, hs, hp⟩ := mem_findNodes.1 hn
  rw [h n s hs] at hp
  cases hp

theorem Shape.exits_eq (hs : Shape returnsUnit entry g) :
    g.exits = g.findNodes fun s => if returnsUnit then s.isRet else s.isReturnValue := by
  refine List.filter_congr fun n hn => ?_
  obtain ⟨s, hnode⟩ := contains_iff.1 (mem_nodes.1 hn)
  rw [hnode, Option.any_some, Bool.eq_iff_iff, List.isEmpty_iff, outgoing_eq_nil]
  exact hs.halts_iff n s hnode

theorem eq_singleton {r : NodeId} {ns : List NodeId} (hnd : ns.Nodup)
    (h : ∀ n, n ∈ ns ↔ n = r) : ns = [r] := by
  refine List.perm_singleton.1 ((List.perm_ext_iff_of_nodup hnd (List.nodup_singleton r)).2 ?_)
  simpa using h

theorem Shape.exitShape (hs : Shape returnsUnit entry g)
    (htwo : returnsUnit = false → 2 ≤ g.nodeCount) : g.ExitShape returnsUnit where
  entry := ⟨entry, hs.entries, hs.entry_live, hs.reached⟩
  not_written := findNodes_eq_nil hs.not_written
  unit hunit := by
    subst hunit
    obtain ⟨r, hr⟩ := hs.ret_unique rfl
    have hret : g.findNodes Statement.isRet = [r] :=
      eq_singleton (nodup_findNodes _ _) fun n => by rw [mem_findNodes, hr]
    exact ⟨r, hret, hs.exits_eq.trans hret, findNodes_eq_nil hs.other_kind⟩
  value hunit := by
    subst hunit
    exact ⟨findNodes_eq_nil hs.other_kind, htwo rfl, hs.exits_eq⟩

/-- **What closing gives.**  A function with a result fails exactly if a path lacks
a value; otherwise the closed graph has its shape. -/
theorem closeExits_cases (sig : Signature) (hg : Unclosed sig.returnsUnit entry g) :
    (sig.returnsUnit = false ∧ ∃ s, g.LacksValue entry s ∧
        Cfg.closeExits sig g = .error (missingAt sig s)) ∨
      (sig.returnsUnit = true ∨ ∀ s, ¬g.LacksValue entry s) ∧
        ∃ u e, Cfg.closeExits sig g = .ok u ∧ Shape sig.returnsUnit e u := by
  cases hunit : sig.returnsUnit with
  | true =>
    rw [hunit] at hg
    have hu := unitClosed_closeUnit hg.tidy hg.entries hg.entry_live sig.location.position
    exact .inr ⟨.inl rfl, _, _, by simp [Cfg.closeExits, hunit], hu.shape hg⟩
  | false =>
    rw [hunit] at hg
    have heq : Cfg.closeExits sig g = Cfg.closeValue sig g := by simp [Cfg.closeExits, hunit]
    rw [heq]
    rcases closeValue_cases sig hg.tidy hg.entries hg.entry_live with h | ⟨hvalue, u, hok, hu⟩
    · exact .inl ⟨rfl, h⟩
    · exact .inr ⟨.inr hvalue, u, entry, hok, hu.shape hg hvalue⟩

end Graph

namespace Cfg

open Graph

variable (config : Config) (scope : Scope) (sig : Signature) (body : Ast.Block) (arena : Arena)

theorem unclosed_lowerBody {f : Fragment} {b : Body}
    (h : lowerBody config scope sig body arena = (.ok f, b)) :
    Unclosed sig.returnsUnit f.entry (b.graph.addEntry f.entry) := by
  obtain ⟨hl, hentry⟩ := Body.lowered_lower ⟨scope, config.freshStem, sig.returnsUnit⟩ body
    (sig.context arena)
  have hrun : Body.lower ⟨scope, config.freshStem, sig.returnsUnit⟩ body
      (.start (sig.context arena)) = (.ok f, b) := h
  rw [hrun] at hl hentry
  exact unclosed_addEntry hl (hentry f rfl)

theorem lacksValue_addEntry (g : Graph) (e n : NodeId) (s : Statement) :
    (g.addEntry e).LacksValue n s ↔ g.LacksValue n s := by
  unfold Graph.addEntry
  split <;> exact Iff.rfl

theorem ofBody_of_error {e : Error} {b : Body}
    (h : lowerBody config scope sig body arena = (.error e, b)) :
    (ofBody config scope sig body arena).1 = .error e := by
  simp only [ofBody, h]
  rfl

theorem ofBody_of_ok {f : Fragment} {b : Body}
    (h : lowerBody config scope sig body arena = (.ok f, b)) :
    (ofBody config scope sig body arena).1 =
      (closeExits sig (b.graph.addEntry f.entry)).map fun g =>
        ⟨sig, finish sig (if config.simplify then g.simplify else g)⟩ := by
  simp only [ofBody, h, close, bind, Except.bind]
  cases closeExits sig (b.graph.addEntry f.entry) <;> rfl

/-- **Where a graph that is built comes from**: a body is lowered, its exits are closed, and
the closed graph is simplified, if that is wanted, and finished. -/
theorem ofBody_ok {cfg : Cfg} (h : (ofBody config scope sig body arena).1 = .ok cfg) :
    ∃ f b u e, lowerBody config scope sig body arena = (.ok f, b) ∧
      closeExits sig (b.graph.addEntry f.entry) = .ok u ∧ Shape sig.returnsUnit e u ∧
      cfg = ⟨sig, finish sig (if config.simplify then u.simplify else u)⟩ := by
  rcases hrun : lowerBody config scope sig body arena with ⟨e | f, b⟩
  · rw [ofBody_of_error config scope sig body arena hrun] at h
    cases h
  · rw [ofBody_of_ok config scope sig body arena hrun] at h
    rcases closeExits_cases sig (unclosed_lowerBody config scope sig body arena hrun) with
      ⟨-, s, -, he⟩ | ⟨-, u, e, hu, hshape⟩
    · rw [he] at h
      cases h
    · rw [hu] at h
      exact ⟨f, b, u, e, rfl, hu, hshape, (Except.ok.inj h).symm⟩

/-- **How control leaves every graph that is built, and when none is.**  A body that
is refused while it is lowered gives that error.  A lowered body gives a graph of
the stated shape, or the error of a missing value; the latter only in a function
with a result, and exactly if a return is bare or the entry reaches a no-op that
nothing follows once the edges out of written returns are cut. -/
theorem ofBody_exits :
    (∃ e b, lowerBody config scope sig body arena = (.error e, b) ∧
        (ofBody config scope sig body arena).1 = .error e) ∨
      ∃ f b, lowerBody config scope sig body arena = (.ok f, b) ∧
        ((sig.returnsUnit = false ∧ ∃ s, b.graph.LacksValue f.entry s ∧
            (ofBody config scope sig body arena).1 =
              .error (.missingReturnValue sig.name ⟨sig.location.file, s.pos⟩)) ∨
          (sig.returnsUnit = true ∨ ∀ s, ¬b.graph.LacksValue f.entry s) ∧
            ∃ cfg, (ofBody config scope sig body arena).1 = .ok cfg ∧
              cfg.graph.ExitShape sig.returnsUnit) := by
  rcases hrun : lowerBody config scope sig body arena with ⟨e | f, b⟩
  · exact .inl ⟨e, b, rfl, ofBody_of_error config scope sig body arena hrun⟩
  · refine .inr ⟨f, b, rfl, ?_⟩
    rw [ofBody_of_ok config scope sig body arena hrun]
    rcases closeExits_cases sig (unclosed_lowerBody config scope sig body arena hrun) with
      ⟨hunit, s, hs, he⟩ | ⟨hvalue, u, e, hu, hshape⟩
    · exact .inl ⟨hunit, s, (lacksValue_addEntry ..).1 hs, by rw [he]; rfl⟩
    · simp only [lacksValue_addEntry] at hvalue
      rw [hu]
      have hsimple : Shape sig.returnsUnit e (if config.simplify then u.simplify else u) := by
        split
        · exact hshape.splices (splices_simplify hshape.tidy hshape.passReached)
        · exact hshape
      obtain ⟨e', hfinish, htwo⟩ := hsimple.finish sig
      exact .inr ⟨hvalue, _, rfl, hfinish.exitShape htwo⟩

/-- **Simplification contracts the pass-through no-ops and does nothing else.**  With
and without it a body fails with the same error, or both graphs come from one
closed graph `u`: without it `u` itself, with it the contraction of `u`.  A further
round would change nothing, however many rounds are allowed. -/
theorem ofBody_simplify :
    (∃ e, (ofBody { config with simplify := false } scope sig body arena).1 = .error e ∧
        (ofBody { config with simplify := true } scope sig body arena).1 = .error e) ∨
      ∃ f b u, lowerBody config scope sig body arena = (.ok f, b) ∧
        closeExits sig (b.graph.addEntry f.entry) = .ok u ∧
        (ofBody { config with simplify := false } scope sig body arena).1 = .ok ⟨sig, finish sig u⟩ ∧
        (ofBody { config with simplify := true } scope sig body arena).1 =
          .ok ⟨sig, finish sig u.simplify⟩ ∧
        (∀ k, simplifyWithin (k + 1) u = u.simplify) ∧
        (spliceEach (u.simplify.findNodes Statement.isNoOp) u.simplify).1 = false ∧
        Contracts u u.simplify := by
  rcases hrun : lowerBody config scope sig body arena with ⟨e | f, b⟩
  · exact .inl ⟨e, ofBody_of_error _ scope sig body arena hrun,
      ofBody_of_error _ scope sig body arena hrun⟩
  · rw [ofBody_of_ok { config with simplify := false } scope sig body arena hrun,
      ofBody_of_ok { config with simplify := true } scope sig body arena hrun]
    rcases closeExits_cases sig (unclosed_lowerBody config scope sig body arena hrun) with
      ⟨-, s, -, he⟩ | ⟨-, u, e, hu, hshape⟩
    · exact .inl ⟨missingAt sig s, by rw [he]; rfl, by rw [he]; rfl⟩
    · refine .inr ⟨f, b, u, rfl, hu, by rw [hu]; rfl, by rw [hu]; rfl, fun k => ?_, ?_,
        contracts_simplify hshape.tidy hshape.passReached⟩
      · rw [simplifyWithin_succ hshape.tidy hshape.passReached,
          simplify_eq_round hshape.tidy hshape.passReached]
      · have hrun' := splices_simplify hshape.tidy hshape.passReached
        have hshape' := hshape.splices hrun'
        rw [← Bool.not_eq_true, (spliceEach_all _ hshape'.tidy hshape'.passReached
          (nodup_findNodes _ _) fun n hn => mem_noOps.1 hn).2.2]
        rintro ⟨n, -, hn⟩
        exact not_passThrough_simplify hshape.tidy hshape.passReached n hn

end Cfg
end RustFlow
