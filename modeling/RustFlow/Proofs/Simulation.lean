/-
# Lowered fragments record the runs of their constructs

A fragment *realizes* a behaviour (`Body.Realizes`) if each run of the behaviour is
recorded on a route from the fragment's entry to where the run ends: its exit, a
return, or a hop that waits for a loop around.  Under a condition (`exact`) there
are no other routes to such nodes, and a route can end nowhere else.

All of this is about the graph with the edges out of written returns cut
(`Body.flow`).  A part of a construct is lowered to nodes of its own
(`Body.Part`), so a route through it stays in what the part added or leaves it by
an edge that was added later (`Part.leaves`); for each combinator these later edges
are known.
-/

import RustFlow.Proofs.Closing
import RustFlow.Proofs.Routes

namespace RustFlow

/-- The hops of a frame that wait for one of its targets. -/
def LoopFrame.hops (f : LoopFrame) : Jump → List NodeId
  | .leave => f.breaks
  | .next => f.continues

namespace Body

open Graph

variable {set : Setting} {exact : Prop} {b b' b₀ b₁ b₂ : Body} {f : Fragment} {n m x : NodeId}
  {k : Jump} {i : Nat} {w : List Edge} {e : Edge}

/-- The graph so far, with the edges out of written returns cut. -/
def flow (b : Body) : Graph := b.graph.cut

/-- A node that waits for a target of a loop around. -/
def Hop (b : Body) (k : Jump) (i : Nat) (x : NodeId) : Prop :=
  ∃ frame, b.loops[i]? = some frame ∧ x ∈ frame.hops k

/-- A node that leaves the function. -/
def ReturnsAt (b : Body) (x : NodeId) : Prop :=
  ∃ s, b.graph.node? x = some s ∧ (s.isWrittenReturn || s.isReturnValue) = true

/-- The state between two constructs: its nodes and hops are in place. -/
structure Sound (b : Body) : Prop where
  joined : b.graph.Joined
  vacant : b.graph.vacant = []
  hop_lt : ∀ k i x, Hop b k i x → x < b.size

theorem Sound.source_lt (h : Sound b) (he : e ∈ b.graph.edges) : e.source < b.size :=
  lt_of_contains ((h.joined e he).1)

theorem Sound.target_lt (h : Sound b) (he : e ∈ b.graph.edges) : e.target < b.size :=
  lt_of_contains ((h.joined e he).2)

/-- A later state: what was there still is, and new hops are new nodes. -/
structure Extends (b b' : Body) : Prop where
  size_le : b.size ≤ b'.size
  node? : ∀ n, n < b.size → b'.graph.node? n = b.graph.node? n
  edges : ∀ e ∈ b.graph.edges, e ∈ b'.graph.edges
  hop : ∀ k i x, Hop b k i x → Hop b' k i x
  hop_old : ∀ k i x, Hop b' k i x → x < b.size → Hop b k i x

theorem Extends.refl (b : Body) : Extends b b :=
  ⟨Nat.le_refl _, fun _ _ => rfl, fun _ he => he, fun _ _ _ h => h, fun _ _ _ h _ => h⟩

theorem Extends.trans (h₁ : Extends b b₁) (h₂ : Extends b₁ b') : Extends b b' where
  size_le := Nat.le_trans h₁.size_le h₂.size_le
  node? n hn := (h₂.node? n (Nat.lt_of_lt_of_le hn h₁.size_le)).trans (h₁.node? n hn)
  edges e he := h₂.edges e (h₁.edges e he)
  hop k i x h := h₂.hop k i x (h₁.hop k i x h)
  hop_old k i x h hx :=
    h₁.hop_old k i x (h₂.hop_old k i x h (Nat.lt_of_lt_of_le hx h₁.size_le)) hx

theorem Extends.of_eq (hg : b'.graph = b.graph) (hl : b'.loops = b.loops) : Extends b b' := by
  have hhop : ∀ k i x, Hop b' k i x ↔ Hop b k i x := fun k i x => by simp only [Hop, hl]
  refine ⟨Nat.le_of_eq ?_, fun n _ => by rw [hg], fun e he => by rwa [hg],
    fun k i x => (hhop k i x).2, fun k i x h _ => (hhop k i x).1 h⟩
  rw [size, size, hg]

theorem FrameGrew.hops_eq {base : Nat} {g : Graph} {a c : LoopFrame} (h : FrameGrew base g a c)
    (k : Jump) : ∃ new, c.hops k = a.hops k ++ new ∧
      ∀ y ∈ new, base ≤ y ∧ ∃ s, g.node? y = some s ∧ s.isNoOp = true := by
  obtain ⟨-, bs, cs, hb, hc, hh⟩ := h
  cases k with
  | leave => exact ⟨bs, hb, fun y hy => hh y (List.mem_append_left _ hy)⟩
  | next => exact ⟨cs, hc, fun y hy => hh y (List.mem_append_right _ hy)⟩

theorem Grew.loop_later {base i : Nat} {a : LoopFrame} (h : Grew set base b b')
    (ha : b.loops[i]? = some a) : ∃ c, b'.loops[i]? = some c ∧ FrameGrew base b'.graph a c := by
  rcases optionRel_cases (forall₂_getElem? h.loops i) with ⟨hnone, -⟩ | ⟨_, c, ha', hc, hgrew⟩
  · rw [hnone] at ha
    cases ha
  · cases ha.symm.trans ha'
    exact ⟨c, hc, hgrew⟩

theorem Grew.loop_before {base i : Nat} {c : LoopFrame} (h : Grew set base b b')
    (hc : b'.loops[i]? = some c) : ∃ a, b.loops[i]? = some a ∧ FrameGrew base b'.graph a c := by
  rcases optionRel_cases (forall₂_getElem? h.loops i) with ⟨-, hnone⟩ | ⟨a, _, ha, hc', hgrew⟩
  · rw [hnone] at hc
    cases hc
  · cases hc.symm.trans hc'
    exact ⟨a, ha, hgrew⟩

theorem Grew.hop_iff {base : Nat} (h : Grew set base b b') :
    (∀ k i x, Hop b k i x → Hop b' k i x) ∧
      ∀ k i x, Hop b' k i x → Hop b k i x ∨
        base ≤ x ∧ ∃ s, b'.graph.node? x = some s ∧ s.isNoOp = true := by
  constructor
  · rintro k i x ⟨a, ha, hx⟩
    obtain ⟨c, hc, hgrew⟩ := h.loop_later ha
    obtain ⟨new, hnew, -⟩ := hgrew.hops_eq k
    exact ⟨c, hc, hnew ▸ List.mem_append_left _ hx⟩
  · rintro k i x ⟨c, hc, hx⟩
    obtain ⟨a, ha, hgrew⟩ := h.loop_before hc
    obtain ⟨new, hnew, hall⟩ := hgrew.hops_eq k
    rw [hnew] at hx
    rcases List.mem_append.1 hx with hx | hx
    · exact .inl ⟨a, ha, hx⟩
    · exact .inr (hall x hx)

theorem Grew.node?_of_lt {base : Nat} (h : Grew set base b b') (hn : n < b.size) :
    b'.graph.node? n = b.graph.node? n := by
  obtain ⟨ss, hss, -⟩ := h.slots
  rw [Graph.node?, Graph.node?, hss, List.getElem?_append_left hn]

theorem Grew.later (h : Grew set b.size b b') : Extends b b' where
  size_le := h.size_le
  node? _ hn := h.node?_of_lt hn
  edges e he := by
    obtain ⟨es, hes, -⟩ := h.edges
    exact hes ▸ List.mem_append_right _ he
  hop := h.hop_iff.1
  hop_old k i x hx hlt := by
    rcases h.hop_iff.2 k i x hx with hold | ⟨hle, -⟩
    · exact hold
    · exact absurd hlt (Nat.not_lt.2 hle)

theorem Grew.sound {base : Nat} (h : Grew set base b b') (hb : Sound b) : Sound b' := by
  obtain ⟨es, hes, hends⟩ := h.edges
  have hlive : ∀ n, b.graph.contains n = true → b'.graph.contains n = true := by
    intro n hn
    obtain ⟨s, hs⟩ := contains_iff.1 hn
    exact contains_of_node? (h.node? hs)
  refine ⟨fun e he => ?_, h.vacant, fun k i x hx => ?_⟩
  · rcases List.mem_append.1 (hes ▸ he) with he | he
    · exact ⟨(hends e he).1.placed.2, (hends e he).2.2⟩
    · exact (hb.joined e he).imp (hlive _) (hlive _)
  · rcases h.hop_iff.2 k i x hx with hold | ⟨-, s, hs, -⟩
    · exact Nat.lt_of_lt_of_le (hb.hop_lt k i x hold) h.size_le
    · exact lt_of_contains (contains_of_node? hs)

/-! ### Routes in a later state -/

theorem Extends.writtenAt_iff (h : Extends b b') (hn : n < b.size) :
    b'.graph.WrittenAt n ↔ b.graph.WrittenAt n := by
  simp only [WrittenAt, h.node? n hn]

theorem Extends.mem_flow (h : Extends b b') (hb : Sound b) (he : e ∈ b.flow.edges) :
    e ∈ b'.flow.edges := by
  obtain ⟨he, hw⟩ := mem_edges_cut.1 he
  exact mem_edges_cut.2 ⟨h.edges e he, fun h' => hw ((h.writtenAt_iff (hb.source_lt he)).1 h')⟩

theorem Extends.route (h : Extends b b') (hb : Sound b) (hr : Route b.flow n w x) :
    Route b'.flow n w x := hr.mono fun _ => h.mem_flow hb

theorem Extends.record (h : Extends b b') (hn : n < b.size) (kind : EdgeKind) :
    b'.flow.record n kind = b.flow.record n kind := by
  simp only [Graph.record, flow, node?_cut, h.node? n hn]

theorem Extends.recorded (h : Extends b b') (hb : Sound b) (hr : Route b.flow n w x) :
    b'.flow.recorded w = b.flow.recorded w := by
  refine recorded_congr fun e he => ?_
  exact h.node? _ (hb.source_lt (mem_edges_cut.1 (hr.mem_edges he)).1)

theorem Extends.arrives (h : Extends b b') (hb : Sound b) (hx : x < b.size) {run : List Event}
    (ha : b.flow.Arrives n run x) : b'.flow.Arrives n run x := by
  obtain ⟨w, hr, rfl⟩ := ha
  exact ⟨w, h.route hb hr, by rw [h.recorded hb hr, h.record hx]⟩

/-- Where a run of a construct with this exit ends. -/
def Ends (b : Body) (exit : Option NodeId) : Outcome → NodeId → Prop
  | .completes, x => exit = some x ∧ ¬b.graph.WrittenAt x
  | .returns, x => b.ReturnsAt x
  | .jumps k i, x => b.Hop k i x

theorem Extends.returnsAt_iff (h : Extends b b') (hx : x < b.size) :
    b'.ReturnsAt x ↔ b.ReturnsAt x := by
  simp only [ReturnsAt, h.node? x hx]

/-- A run ends where it did, also in a later state, unless it is a run to another
exit. -/
theorem Extends.ends (h : Extends b b') (hx : x < b.size) {exit exit' : Option NodeId}
    {out : Outcome} (hexit : out = .completes → exit' = exit) :
    b'.Ends exit' out x ↔ b.Ends exit out x := by
  cases out with
  | completes => simp only [Ends, hexit rfl, h.writtenAt_iff hx]
  | returns => exact h.returnsAt_iff hx
  | jumps k i => exact ⟨fun hh => h.hop_old k i x hh hx, h.hop k i x⟩

theorem Extends.halts (h : Extends b b') (hb : Sound b) (hh : b'.flow.Halts x) : b.flow.Halts x :=
  fun e he => hh e (h.mem_flow hb he)

def withEdge (b : Body) (u v : NodeId) (kind : EdgeKind) : Body :=
  { b with graph := b.graph.addEdge u v kind }

theorem mem_edges_withEdge {u v : NodeId} {kind : EdgeKind} :
    e ∈ (b.withEdge u v kind).graph.edges ↔ e = ⟨u, v, kind⟩ ∨ e ∈ b.graph.edges :=
  List.mem_cons

theorem Extends.withEdge (b : Body) (u v : NodeId) (kind : EdgeKind) :
    Extends b (b.withEdge u v kind) :=
  ⟨Nat.le_refl _, fun _ _ => rfl, fun _ he => List.mem_cons_of_mem _ he, fun _ _ _ h => h,
    fun _ _ _ h _ => h⟩

theorem mem_flow_withEdge {u v : NodeId} {kind : EdgeKind} (hu : ¬b.graph.WrittenAt u) :
    ⟨u, v, kind⟩ ∈ (b.withEdge u v kind).flow.edges :=
  mem_edges_cut.2 ⟨List.mem_cons_self, hu⟩

/-! ### Parts -/

/-- A construct that was lowered between two states. -/
structure Part (set : Setting) (b b' : Body) (f : Fragment) : Prop where
  start : Sound b
  grew : Grew set b.size b b'
  ends : FragmentIn b.size b' f

namespace Part

theorem sound (h : Part set b b' f) : Sound b' := h.grew.sound h.start

theorem later (h : Part set b b' f) : Extends b b' := h.grew.later

theorem entry_lt (h : Part set b b' f) : f.entry < b'.size := lt_of_contains h.ends.entry.2

theorem exit_lt (h : Part set b b' f) (hx : f.exit = some x) : x < b'.size :=
  lt_of_contains (h.ends.exit x hx).placed.2

theorem mem_edges (h : Part set b b' f) (he : e ∈ b'.graph.edges) :
    e ∈ b.graph.edges ∨ b.size ≤ e.source ∧ b.size ≤ e.target := by
  obtain ⟨es, hes, hends⟩ := h.grew.edges
  rcases List.mem_append.1 (hes ▸ he) with he | he
  · exact .inr ⟨(hends e he).1.1, (hends e he).2.1⟩
  · exact .inl he

theorem within (h : Part set b b' f) (hr : Route b'.flow n w x) (hle : b.size ≤ n)
    (hlt : n < b'.size) : b.size ≤ x ∧ x < b'.size := by
  induction hr with
  | nil => exact ⟨hle, hlt⟩
  | cons he _ ih =>
    have he := (mem_edges_cut.1 he).1
    refine ih ?_ (h.sound.target_lt he)
    rcases h.mem_edges he with hold | ⟨-, ht⟩
    · exact absurd (h.start.source_lt hold) (Nat.not_lt.2 hle)
    · exact ht

/-- **A route through a part stays in it or leaves it by a later edge.** -/
theorem leaves (h : Part set b b₁ f) (hx : Extends b₁ b') (hr : Route b'.flow f.entry w x) :
    (Route b₁.flow f.entry w x ∧ b.size ≤ x ∧ x < b₁.size) ∨
      ∃ w₁ e w₂, w = w₁ ++ e :: w₂ ∧ Route b₁.flow f.entry w₁ e.source ∧
        (b.size ≤ e.source ∧ e.source < b₁.size) ∧ e ∈ b'.graph.edges ∧ e ∉ b₁.graph.edges ∧
        ¬b₁.graph.WrittenAt e.source ∧ Route b'.flow e.target w₂ x := by
  rcases hr.split b₁.flow with hstay | ⟨w₁, e, w₂, rfl, h₁, he, hnew, h₂⟩
  · exact .inl ⟨hstay, h.within hstay h.ends.entry.1 h.entry_lt⟩
  · obtain ⟨he, hw⟩ := mem_edges_cut.1 he
    have hin := h.within h₁ h.ends.entry.1 h.entry_lt
    have hw' : ¬b₁.graph.WrittenAt e.source := fun hw' => hw ((hx.writtenAt_iff hin.2).2 hw')
    exact .inr ⟨w₁, e, w₂, rfl, h₁, hin, he, fun hold => hnew (mem_edges_cut.2 ⟨hold, hw'⟩), hw', h₂⟩

end Part

/-! ### Realizing a behaviour -/

/-- A run is recorded from a node to where a construct with this exit ends it. -/
def Runs (b : Body) (n : NodeId) (exit : Option NodeId) (run : List Event) (out : Outcome) : Prop :=
  ∃ x, b.flow.Arrives n run x ∧ b.Ends exit out x ∧ (out = .completes → b.flow.Halts x)

/-- A route that came to a node accounts for itself: if it ends there, it is a run,
and control is not stuck there. -/
def Accounts (b : Body) (exit : Option NodeId) (x : NodeId) (runs : Outcome → Prop) : Prop :=
  (∀ out, b.Ends exit out x → runs out) ∧ (b.flow.Halts x → ∃ out, b.Ends exit out x)

/-- A fragment records the runs of a behaviour, and under a condition no others. -/
structure Realizes (exact : Prop) (b : Body) (f : Fragment) (B : Behaviour) : Prop where
  sound : ∀ run out, B run out → b.Runs f.entry f.exit run out
  complete : exact → ∀ w x, Route b.flow f.entry w x →
    Accounts b f.exit x (B (b.flow.recorded w ++ b.flow.record x .sequential))

theorem Part.arrives_within (h : Part set b b' f) {run : List Event}
    (ha : b'.flow.Arrives f.entry run x) : b.size ≤ x ∧ x < b'.size := by
  obtain ⟨w, hr, -⟩ := ha
  exact h.within hr h.ends.entry.1 h.entry_lt

section AndThen

variable {p next : Fragment} {A B : Behaviour}

/-- **One fragment after another:** the exit of the first leads to the second. -/
theorem Realizes.andThen (hp : Part set b b₁ p) (hA : Realizes exact b₁ p A)
    (hn : Part set b₁ b₂ next) (hB : Realizes exact b₂ next B) {y : NodeId}
    (hy : p.exit = some y) :
    Realizes exact (b₂.withEdge y next.entry .sequential) ⟨p.entry, next.exit⟩ (A.andThen B) := by
  have h₂ := Extends.withEdge b₂ y next.entry .sequential
  have h₁ := hn.later.trans h₂
  have hylt : y < b₁.size := hp.exit_lt hy
  constructor
  · rintro run out (⟨hrun, hne⟩ | ⟨before, after, rfl, hrun, hrest⟩)
    · obtain ⟨x, ha, hend, -⟩ := hA.sound run out hrun
      have hx := (hp.arrives_within ha).2
      exact ⟨x, h₁.arrives hp.sound hx ha, (h₁.ends hx fun h => absurd h hne).2 hend,
        fun h => absurd h hne⟩
    · obtain ⟨x, ⟨w₁, hr₁, rfl⟩, ⟨hx, hw⟩, -⟩ := hA.sound before _ hrun
      obtain rfl : x = y := Option.some.inj (hx.symm.trans hy)
      obtain ⟨z, ⟨w₂, hr₂, rfl⟩, hend, hhalt⟩ := hB.sound after out hrest
      have hz := hn.within hr₂ hn.ends.entry.1 hn.entry_lt
      have hw₂ : ¬b₂.graph.WrittenAt x := fun h => hw ((hn.later.writtenAt_iff hylt).1 h)
      have hedge : ⟨x, next.entry, .sequential⟩ ∈ (b₂.withEdge x next.entry .sequential).flow.edges :=
        mem_flow_withEdge hw₂
      have hroute := (h₁.route hp.sound hr₁).append (.cons hedge (h₂.route hn.sound hr₂))
      refine ⟨z, ⟨_, hroute, ?_⟩, (h₂.ends hz.2 fun _ => rfl).2 hend, fun hout e he => ?_⟩
      · simp only [recorded_append, recorded_cons, h₁.recorded hp.sound hr₁, h₁.record hylt,
          h₂.recorded hn.sound hr₂, h₂.record hz.2, List.append_assoc]
      · obtain ⟨he, hnw⟩ := mem_edges_cut.1 he
        rcases mem_edges_withEdge.1 he with rfl | he
        · exact Nat.ne_of_lt (Nat.lt_of_lt_of_le hylt hz.1)
        · exact hhalt hout e (mem_edges_cut.2 ⟨he, hnw⟩)
  · intro hexact w x hr
    rcases hp.leaves h₁ hr with ⟨hstay, hx⟩ | ⟨w₁, e, w₂, rfl, hr₁, hin, he, hnew, hw, hr₂⟩
    · obtain ⟨hall, hhalt⟩ := hA.complete hexact w x hstay
      constructor
      · intro out hend
        have hne : out ≠ .completes := by
          rintro rfl
          exact absurd hx.2 (Nat.not_lt.2 (hn.ends.exit x hend.1).1)
        rw [h₁.recorded hp.sound hstay, h₁.record hx.2]
        exact .inl ⟨hall out ((h₁.ends hx.2 fun h => absurd h hne).1 hend), hne⟩
      · intro hh
        obtain ⟨out, hend⟩ := hhalt (h₁.halts hp.sound hh)
        have hne : out ≠ .completes := by
          rintro rfl
          obtain rfl : x = y := Option.some.inj (hend.1.symm.trans hy)
          have hw₂ : ¬b₂.graph.WrittenAt x := fun h => hend.2 ((hn.later.writtenAt_iff hylt).1 h)
          exact hh _ (mem_flow_withEdge hw₂) rfl
        exact ⟨out, (h₁.ends hx.2 fun h => absurd h hne).2 hend⟩
    · -- the only later edge out of the first part is the one from its exit
      have he : e = ⟨y, next.entry, .sequential⟩ := by
        rcases mem_edges_withEdge.1 he with he | he
        · exact he
        · rcases hn.mem_edges he with hold | hlate
          · exact absurd hold hnew
          · exact absurd hin.2 (Nat.not_lt.2 hlate.1)
      subst he
      have hcut : Route b₂.flow next.entry w₂ x ∧ x < b₂.size := by
        rcases hn.leaves h₂ hr₂ with ⟨hstay, hx⟩ | ⟨_, e, _, -, -, hin', he, hnew', -⟩
        · exact ⟨hstay, hx.2⟩
        · rcases mem_edges_withEdge.1 he with rfl | he
          · exact absurd hylt (Nat.not_lt.2 hin'.1)
          · exact absurd he hnew'
      obtain ⟨hall, hhalt⟩ := hB.complete hexact w₂ x hcut.1
      have hfirst := (hA.complete hexact w₁ y hr₁).1 .completes ⟨hy, hw⟩
      constructor
      · intro out hend
        simp only [recorded_append, recorded_cons, h₁.recorded hp.sound hr₁, h₁.record hylt,
          h₂.recorded hn.sound hcut.1, h₂.record hcut.2]
        refine .inr ⟨_, _, ?_, hfirst, hall out ((h₂.ends hcut.2 fun _ => rfl).1 hend)⟩
        simp only [List.append_assoc]
      · intro hh
        obtain ⟨out, hend⟩ := hhalt (h₂.halts hn.sound hh)
        exact ⟨out, (h₂.ends hcut.2 fun _ => rfl).2 hend⟩

theorem Realizes.andThen_stuck (hp : Part set b b₁ p) (hA : Realizes exact b₁ p A)
    (hn : Part set b₁ b₂ next) (hexit : p.exit = none) : Realizes exact b₂ p (A.andThen B) := by
  have h₁ := hn.later
  constructor
  · rintro run out (⟨hrun, hne⟩ | ⟨before, after, rfl, hrun, -⟩)
    · obtain ⟨x, ha, hend, -⟩ := hA.sound run out hrun
      have hx := (hp.arrives_within ha).2
      exact ⟨x, h₁.arrives hp.sound hx ha, (h₁.ends hx fun _ => rfl).2 hend, fun h => absurd h hne⟩
    · obtain ⟨x, -, ⟨hx, -⟩, -⟩ := hA.sound before _ hrun
      rw [hexit] at hx
      cases hx
  · intro hexact w x hr
    rcases hp.leaves h₁ hr with ⟨hstay, hx⟩ | ⟨_, e, _, -, -, hin, he, hnew, -⟩
    · obtain ⟨hall, hhalt⟩ := hA.complete hexact w x hstay
      constructor
      · intro out hend
        rw [h₁.recorded hp.sound hstay, h₁.record hx.2]
        refine .inl ⟨hall out ((h₁.ends hx.2 fun _ => rfl).1 hend), ?_⟩
        rintro rfl
        cases hexit.symm.trans hend.1
      · intro hh
        obtain ⟨out, hend⟩ := hhalt (h₁.halts hp.sound hh)
        exact ⟨out, (h₁.ends hx.2 fun _ => rfl).2 hend⟩
    · rcases hn.mem_edges he with hold | hlate
      · exact absurd hold hnew
      · exact absurd hin.2 (Nat.not_lt.2 hlate.1)

end AndThen

/-! ### Single nodes -/

theorem realizes_leaf {s : Statement} {out₀ : Outcome} (hh : b.flow.Halts f.entry)
    (hs : b.graph.node? f.entry = some s) (hends : ∀ out, b.Ends f.exit out f.entry ↔ out = out₀) :
    Realizes exact b f fun run out => run = s.events .sequential ∧ out = out₀ := by
  have hrec : b.flow.record f.entry .sequential = s.events .sequential := record_of_node? hs _
  constructor
  · rintro _ _ ⟨rfl, rfl⟩
    exact ⟨f.entry, ⟨[], .nil _, by rw [hrec]; rfl⟩, (hends _).2 rfl, fun _ => hh⟩
  · intro _ w x hr
    obtain ⟨rfl, rfl⟩ := hr.eq_nil_of_halts hh
    exact ⟨fun out hend => ⟨by rw [hrec]; rfl, (hends out).1 hend⟩, fun _ => ⟨out₀, (hends _).2 rfl⟩⟩

def withNode (b : Body) (s : Statement) : Body :=
  { b with graph := { b.graph with slots := b.graph.slots ++ [some s] } }

theorem size_withNode (b : Body) (s : Statement) : (b.withNode s).size = b.size + 1 := by
  simp [size, withNode]

theorem node?_withNode (b : Body) (s : Statement) : (b.withNode s).graph.node? b.size = some s :=
  node?_append rfl

theorem Extends.withNode (b : Body) (s : Statement) : Extends b (b.withNode s) where
  size_le := by rw [size_withNode]; exact Nat.le_succ _
  node? n hn := by
    show (b.graph.slots ++ [some s])[n]?.join = b.graph.slots[n]?.join
    rw [List.getElem?_append_left hn]
  edges _ he := he
  hop _ _ _ h := h
  hop_old _ _ _ h _ := h

theorem Sound.withNode (hb : Sound b) (s : Statement) : Sound (b.withNode s) := by
  have hlive : ∀ n, b.graph.contains n = true → (b.withNode s).graph.contains n = true := by
    intro n hn
    rw [contains, (Extends.withNode b s).node? n (lt_of_contains hn)]
    exact hn
  refine ⟨hb.joined.mono (List.Subset.refl _) hlive, hb.vacant, fun k i x h => ?_⟩
  rw [size_withNode]
  exact Nat.lt_succ_of_lt (hb.hop_lt k i x h)

/-- No edge leaves or enters a new node, and no loop waits for it. -/
theorem Sound.fresh (hb : Sound b) (s : Statement) :
    (∀ e ∈ (b.withNode s).graph.edges, e.source < b.size ∧ e.target < b.size) ∧
      ∀ k i, ¬(b.withNode s).Hop k i b.size :=
  ⟨fun _ he => ⟨hb.source_lt he, hb.target_lt he⟩,
    fun k i h => absurd (hb.hop_lt k i _ h) (Nat.lt_irrefl _)⟩

theorem Sound.halts_fresh (hb : Sound b) (s : Statement) : (b.withNode s).flow.Halts b.size :=
  fun e he => Nat.ne_of_lt ((hb.fresh s).1 e (mem_edges_cut.1 he).1).1

theorem Sound.ends_fresh (hb : Sound b) {s : Statement} {exit : Option NodeId} (out : Outcome) :
    (b.withNode s).Ends exit out b.size ↔
      out = .completes ∧ exit = some b.size ∧ s.isWrittenReturn = false ∨
        out = .returns ∧ (s.isWrittenReturn || s.isReturnValue) = true := by
  have hnode := node?_withNode b s
  cases out with
  | completes =>
    simp only [Ends, WrittenAt, hnode, Option.some.injEq, exists_eq_left', true_and,
      Bool.not_eq_true, reduceCtorEq, false_and, or_false]
  | returns => simp [Ends, ReturnsAt, hnode]
  | jumps k i => simpa [Ends] using (hb.fresh s).2 k i

theorem realizes_single (hb : Sound b) {s : Statement} (hw : s.isWrittenReturn = false)
    (hv : s.isReturnValue = false) :
    Realizes exact (b.withNode s) ⟨b.size, some b.size⟩
      fun run out => run = s.events .sequential ∧ out = .completes :=
  realizes_leaf (hb.halts_fresh s) (node?_withNode b s) fun out => by
    rw [hb.ends_fresh]
    simp [hw, hv]

theorem realizes_return (hb : Sound b) {s : Statement} {exit : Option NodeId}
    (hexit : exit = none ∨ exit = some b.size ∧ s.isWrittenReturn = true)
    (hr : (s.isWrittenReturn || s.isReturnValue) = true) :
    Realizes exact (b.withNode s) ⟨b.size, exit⟩
      fun run out => run = s.events .sequential ∧ out = .returns :=
  realizes_leaf (hb.halts_fresh s) (node?_withNode b s) fun out => by
    rw [hb.ends_fresh]
    rcases hexit with rfl | ⟨rfl, hw⟩
    · simp [hr]
    · simp [hw]

end Body
end RustFlow
