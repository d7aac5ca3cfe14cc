/-
# The ledger of a graph under construction

While a body is lowered, most nodes have got all the edges that will ever leave them.
The others are written down in a *ledger*: guards that wait for an outcome, the exit of
the fragment at hand, hops that wait for their loop.  An edge is only ever added from a
node of the ledger, which is then struck off or noted anew, and a new node enters it.  So
all that is not in the ledger is final: its edges are those it has (`Completes`), and they
leave it the way they should (`Graph.Forks`).

`Builds` follows a computation by what it does to the ledger.  The ledger of a part is
that of the whole with the part's own nodes added, so a part cannot touch what waits
around it.
-/

import RustFlow.Proofs.Iteration
import RustFlow.Proofs.Layout

namespace RustFlow

open Attempt

namespace Graph

variable {g g' : Graph} {n : NodeId}

/-- The number of edges of a kind out of a node. -/
def fan (g : Graph) (n : NodeId) (k : EdgeKind) : Nat := (g.outgoing n).countP fun e => e.kind == k

/-- How control goes on from a node: by edges in sequence, or by the outcome of a test.
Under a condition (`strict`) there is no choice between edges in sequence.  A test that
has no false edge is one of those that cannot fail (`sole`). -/
inductive Forks (strict : Prop) (sole : Term → Prop) (g : Graph) (n : NodeId) (s : Statement) :
    Prop where
  | step : g.fan n .whenTrue = 0 → g.fan n .whenFalse = 0 → (strict → g.fan n .sequential ≤ 1) →
      Forks strict sole g n s
  | guard {t : Term} : s.kind = .expression t → g.fan n .whenTrue = 1 → g.fan n .sequential = 0 →
      (g.fan n .whenFalse = 1 ∨ g.fan n .whenFalse = 0 ∧ sole t) → Forks strict sole g n s

theorem fan_congr (h : g'.outgoing n = g.outgoing n) (k : EdgeKind) : g'.fan n k = g.fan n k := by
  rw [fan, fan, h]

theorem fan_of_nil (h : g.outgoing n = []) (k : EdgeKind) : g.fan n k = 0 := by
  rw [fan, h]
  rfl

theorem Forks.congr {strict : Prop} {sole : Term → Prop} {s : Statement}
    (h : g.Forks strict sole n s) (hfan : ∀ k, g'.fan n k = g.fan n k) :
    g'.Forks strict sole n s := by
  cases h with
  | step htrue hfalse hseq =>
    exact .step ((hfan _).trans htrue) ((hfan _).trans hfalse) fun hs => hfan _ ▸ hseq hs
  | guard hs htrue hseq hfalse =>
    refine .guard hs ((hfan _).trans htrue) ((hfan _).trans hseq) ?_
    rwa [hfan]

end Graph

/-- What a body is lowered to: how its graph may fork, and the graph itself. -/
structure Design where
  strict : Prop
  sole : Term → Prop
  graph : Graph

theorem Targets.find?_of_targetDepth {labels : List (Option String)} {T : List Targets}
    {label : Option String} {i : Nat} {ts : Targets}
    (hT : T.map Targets.label = labels) (hi : targetDepth labels label = some i)
    (hts : T[i]? = some ts) : Targets.find? T label = some ts := by
  subst hT
  cases label with
  | none =>
    simp only [targetDepth] at hi
    split at hi <;> cases hi
    rw [Targets.find?, List.head?_eq_getElem?, hts]
  | some name =>
    rw [targetDepth, List.findIdx?_map, List.findIdx?_eq_some_iff_getElem] at hi
    obtain ⟨hlt, hlabel, hbefore⟩ := hi
    rw [List.getElem?_eq_getElem hlt] at hts
    cases hts
    refine List.find?_eq_some_iff_getElem.2 ⟨hlabel, i, hlt, rfl, fun j hj => ?_⟩
    simpa using hbefore j hj

/-- What a node waits for. -/
inductive Status where
  /-- No edge leaves the node. -/
  | idle
  /-- The node is to test a term. -/
  | guard (t : Term)
  /-- The node tests a term with a property, and waits for what follows if the test fails. -/
  | tested (Q : Term → Prop)
  /-- The node is the exit of a fragment. -/
  | loose

namespace Status

variable {D : Design} {g g' : Graph} {n : NodeId}

/-- What is known of a node that waits. -/
def Meets (D : Design) (g : Graph) (n : NodeId) : Status → Prop
  | idle => g.contains n = true ∧ g.outgoing n = []
  | guard t => g.node? n = some (.ofTerm t) ∧ g.outgoing n = []
  | tested Q => ∃ t y, Q t ∧ g.node? n = some (.ofTerm t) ∧ g.outgoing n = [⟨n, y, .whenTrue⟩]
  | loose => g.contains n = true ∧ g.fan n .whenTrue = 0 ∧ g.fan n .whenFalse = 0 ∧
      (D.strict → g.outgoing n = [])

theorem Meets.contains {st : Status} (h : st.Meets D g n) : g.contains n = true := by
  cases st with
  | idle => exact h.1
  | guard t => exact Graph.contains_of_node? h.1
  | tested Q =>
    obtain ⟨t, y, -, hn, -⟩ := h
    exact Graph.contains_of_node? hn
  | loose => exact h.1

theorem Meets.congr {st : Status} (h : st.Meets D g n) (hnode : g'.node? n = g.node? n)
    (hout : g'.outgoing n = g.outgoing n) : st.Meets D g' n := by
  have hcontains : g'.contains n = g.contains n := by rw [Graph.contains, Graph.contains, hnode]
  cases st with
  | idle => exact ⟨hcontains.trans h.1, hout.trans h.2⟩
  | guard t => exact ⟨hnode.trans h.1, hout.trans h.2⟩
  | tested Q =>
    obtain ⟨t, y, hQ, hn, ho⟩ := h
    exact ⟨t, y, hQ, hnode.trans hn, hout.trans ho⟩
  | loose =>
    obtain ⟨hc, htrue, hfalse, hseq⟩ := h
    exact ⟨hcontains.trans hc, (Graph.fan_congr hout _).trans htrue,
      (Graph.fan_congr hout _).trans hfalse, fun hs => hout.trans (hseq hs)⟩

theorem Meets.loose (h : idle.Meets D g n) : loose.Meets D g n :=
  ⟨h.1, Graph.fan_of_nil h.2 _, Graph.fan_of_nil h.2 _, fun _ => h.2⟩

theorem Meets.imp {Q Q' : Term → Prop} (h : (tested Q).Meets D g n) (hQ : ∀ t, Q t → Q' t) :
    (tested Q').Meets D g n := by
  obtain ⟨t, y, ht, hrest⟩ := h
  exact ⟨t, y, hQ t ht, hrest⟩

end Status

/-- The nodes that still wait for edges, each with what it waits for. -/
abbrev Ledger := List (NodeId × Status)

/-- The exit of a fragment, if control falls out of it. -/
def Fragment.exits (f : Fragment) : Ledger := f.exit.toList.map (Prod.mk · .loose)

/-- The hops of a loop. -/
def LoopFrame.entries (f : LoopFrame) : Ledger := (f.breaks ++ f.continues).map (Prod.mk · .idle)

namespace Body

open Graph

variable {α β : Type} {D : Design} {labels : List (Option String)} {O O' : Ledger}
  {left left' : List Nat} {b b' : Body} {x y : NodeId} {st st' : Status} {k : EdgeKind}

/-- The hops that wait for a loop around. -/
def waiting (b : Body) : List NodeId := b.loops.flatMap fun f => f.breaks ++ f.continues

/-- A state with its ledger.  The loops in `left`, the outermost being `0`, are known to
have a `break`. -/
structure Held (D : Design) (labels : List (Option String)) (O : Ledger) (left : List Nat)
    (b : Body) : Prop where
  vacant : b.graph.vacant = []
  sources : ∀ e ∈ b.graph.edges, e.source < b.size
  labels : b.loops.map LoopFrame.label = labels
  nodup : (O.map Prod.fst ++ b.waiting).Nodup
  entries : ∀ p ∈ O, p.2.Meets D b.graph p.1
  hops : ∀ x ∈ b.waiting, Status.idle.Meets D b.graph x
  settled : ∀ n s, b.graph.node? n = some s → n ∉ O.map Prod.fst ++ b.waiting →
    b.graph.Forks D.strict D.sole n s
  left : ∀ l ∈ left, ∀ i f, i + l + 1 = b.loops.length → b.loops[i]? = some f → f.breaks ≠ []

/-- A graph that a state grows into: what is not in the ledger is as it will be, and each
hop leads to the target of its loop and nowhere else. -/
structure Completes (g : Graph) (T : List Targets) (O : Ledger) (b : Body) : Prop where
  node? : ∀ n s, b.graph.node? n = some s → g.node? n = some s
  edges : ∀ e ∈ b.graph.edges, e ∈ g.edges
  settled : ∀ n, b.graph.contains n = true → n ∉ O.map Prod.fst ++ b.waiting →
    g.outgoing n = b.graph.outgoing n
  hops : ∀ k i x, b.Hop k i x → ∃ ts t, T[i]? = some ts ∧ ts.of k = some t ∧
    g.outgoing x = [⟨x, t, .sequential⟩]

/-- A computation, by what it does to the ledger and what follows of the graph that is
grown into. -/
def Builds (D : Design) (labels : List (Option String)) (O : Ledger) (left : List Nat)
    (act : Attempt Body α) (b : Body) (O' : α → Ledger) (left' : List Nat)
    (R : List Targets → α → Prop) : Prop :=
  ∀ a b', act b = (.ok a, b') → Held D labels O left b →
    b.size ≤ b'.size ∧ Held D labels (O' a) left' b' ∧
      ∀ T, T.map Targets.label = labels → Completes D.graph T (O' a) b' →
        R T a ∧ Completes D.graph T O b

/-! ### Entries of the ledger -/

theorem Held.perm (h : Held D labels O left b) (hO : O.Perm O') : Held D labels O' left b := by
  have hnames : (O.map Prod.fst ++ b.waiting).Perm (O'.map Prod.fst ++ b.waiting) :=
    (hO.map _).append_right _
  exact ⟨h.vacant, h.sources, h.labels, hnames.nodup_iff.1 h.nodup,
    fun p hp => h.entries p (hO.mem_iff.2 hp), h.hops,
    fun n s hn hmem => h.settled n s hn fun hmem' => hmem (hnames.mem_iff.1 hmem'), h.left⟩

theorem Completes.mono {g : Graph} {T : List Targets} (h : Completes g T O' b)
    (hO : ∀ n ∈ O'.map Prod.fst, n ∈ O.map Prod.fst) : Completes g T O b :=
  ⟨h.node?, h.edges, fun n hn hmem => h.settled n hn fun hmem' => hmem <|
    List.mem_append.2 ((List.mem_append.1 hmem').imp_left (hO n)), h.hops⟩

/-- A state that differs from another only in the edges out of one node. -/
structure Touches (x : NodeId) (b b' : Body) : Prop where
  slots : b'.graph.slots = b.graph.slots
  vacant : b'.graph.vacant = b.graph.vacant
  loops : b'.loops = b.loops
  edges : ∀ e ∈ b.graph.edges, e ∈ b'.graph.edges
  sources : ∀ e ∈ b'.graph.edges, e ∈ b.graph.edges ∨ e.source = x
  outgoing : ∀ n, n ≠ x → b'.graph.outgoing n = b.graph.outgoing n

theorem Touches.refl (x : NodeId) (b : Body) : Touches x b b :=
  ⟨rfl, rfl, rfl, fun _ he => he, fun _ he => .inl he, fun _ _ => rfl⟩

theorem edge_run (b : Body) (x y : NodeId) (k : EdgeKind) :
    edge x y k b = (.ok (), b.withEdge x y k) := rfl

theorem size_withEdge (b : Body) (x y : NodeId) (k : EdgeKind) :
    (b.withEdge x y k).size = b.size := rfl

theorem outgoing_withEdge (b : Body) (x y : NodeId) (k : EdgeKind) :
    (b.withEdge x y k).graph.outgoing x = ⟨x, y, k⟩ :: b.graph.outgoing x :=
  List.filter_cons_of_pos (beq_self_eq_true x)

theorem touches_withEdge (b : Body) (x y : NodeId) (k : EdgeKind) :
    Touches x b (b.withEdge x y k) := by
  refine ⟨rfl, rfl, rfl, fun e he => List.mem_cons_of_mem _ he, fun e he => ?_, fun n hn => ?_⟩
  · rcases List.mem_cons.1 he with rfl | he
    · exact .inr rfl
    · exact .inl he
  · exact List.filter_cons_of_neg fun heq => hn (beq_iff_eq.1 heq).symm

theorem Touches.node? (h : Touches x b b') (n : NodeId) : b'.graph.node? n = b.graph.node? n := by
  rw [Graph.node?, Graph.node?, h.slots]

theorem Touches.waiting (h : Touches x b b') : b'.waiting = b.waiting := by
  rw [Body.waiting, Body.waiting, h.loops]

section Touched

variable (h : Held D labels ((x, st) :: O) left b) (ht : Touches x b b')

include h ht

theorem Held.sources_touched : ∀ e ∈ b'.graph.edges, e.source < b'.size := by
  have hsize : b'.size = b.size := congrArg List.length ht.slots
  intro e he
  rw [hsize]
  rcases ht.sources e he with hold | rfl
  · exact h.sources e hold
  · exact lt_of_contains (h.entries _ List.mem_cons_self).contains

theorem Held.touched {o : Option Status}
    (hx : match o with
      | some st' => st'.Meets D b'.graph x
      | none => ∀ s, b.graph.node? x = some s → b'.graph.Forks D.strict D.sole x s) :
    Held D labels (o.toList.map (Prod.mk x) ++ O) left b' := by
  have hnodup := h.nodup
  rw [List.map_cons, List.cons_append, List.nodup_cons] at hnodup
  have hne {z : NodeId} (hz : z ∈ O.map Prod.fst ++ b.waiting) : z ≠ x := fun heq =>
    hnodup.1 (heq ▸ hz)
  have hmeets {z : NodeId} {st' : Status} (hz : st'.Meets D b.graph z)
      (hmem : z ∈ O.map Prod.fst ++ b.waiting) : st'.Meets D b'.graph z :=
    hz.congr (ht.node? z) (ht.outgoing z (hne hmem))
  refine ⟨ht.vacant.trans h.vacant, h.sources_touched ht, ht.loops ▸ h.labels, ?_, fun p hp => ?_,
    fun z hz => ?_, fun n s hn hmem => ?_, ht.loops ▸ h.left⟩
  · rw [ht.waiting]
    cases o with
    | some st' => exact h.nodup
    | none => exact hnodup.2
  · rcases List.mem_append.1 hp with hp | hp
    · obtain ⟨st', hst', rfl⟩ := List.mem_map.1 hp
      cases o with
      | some st' =>
        cases List.mem_singleton.1 hst'
        exact hx
      | none => cases hst'
    · exact hmeets (h.entries p (List.mem_cons_of_mem _ hp))
        (List.mem_append_left _ (List.mem_map_of_mem hp))
  · rw [ht.waiting] at hz
    exact hmeets (h.hops z hz) (List.mem_append_right _ hz)
  · rw [ht.node?] at hn
    rw [ht.waiting, List.map_append, List.append_assoc, List.mem_append, not_or] at hmem
    by_cases hnx : n = x
    · subst hnx
      cases o with
      | some st' => exact absurd List.mem_cons_self hmem.1
      | none => exact hx s hn
    · refine (h.settled n s hn ?_).congr (fan_congr (ht.outgoing n hnx))
      rw [List.map_cons, List.cons_append, List.mem_cons]
      exact fun hor => hor.elim hnx hmem.2

theorem Held.settle (hx : ∀ s, b.graph.node? x = some s → b'.graph.Forks D.strict D.sole x s) :
    Held D labels O left b' := h.touched ht (o := none) hx

theorem Held.restate (hx : st'.Meets D b'.graph x) : Held D labels ((x, st') :: O) left b' :=
  h.touched ht (o := some st') hx

end Touched

theorem Completes.touched {g : Graph} {T : List Targets} (h : Completes g T O' b')
    (ht : Touches x b b') (hO : ∀ n ∈ O'.map Prod.fst, n ∈ x :: O.map Prod.fst) :
    Completes g T ((x, st) :: O) b := by
  refine ⟨fun n s hn => h.node? n s ((ht.node? n).trans hn), fun e he => h.edges e (ht.edges e he),
    fun n hn hmem => ?_, fun k i z hz => h.hops k i z ?_⟩
  · rw [List.map_cons, List.cons_append, List.mem_cons, not_or] at hmem
    rw [← ht.outgoing n hmem.1]
    refine h.settled n ?_ fun hmem' => ?_
    · rwa [contains, ht.node?]
    · rw [ht.waiting] at hmem'
      rcases List.mem_append.1 hmem' with hn' | hn'
      · rcases List.mem_cons.1 (hO n hn') with hnx | hn'
        · exact hmem.1 hnx
        · exact hmem.2 (List.mem_append_left _ hn')
      · exact hmem.2 (List.mem_append_right _ hn')
  · simpa only [Hop, ht.loops] using hz

namespace Builds

variable {act : Attempt Body α} {next : α → Attempt Body β} {P : α → Ledger} {P' : β → Ledger}
  {R : List Targets → α → Prop} {R' : List Targets → β → Prop} {left'' : List Nat}

/-- **One computation after another.** -/
theorem bind (h : Builds D labels O left act b P left' R)
    (hnext : ∀ a b₁, act b = (.ok a, b₁) → b.size ≤ b₁.size →
      Builds D labels (P a) left' (next a) b₁ P' left'' fun T r => R T a → R' T r) :
    Builds D labels O left (act >>= next) b P' left'' R' := by
  intro r b' hrun hheld
  obtain ⟨a, b₁, hact, hrest⟩ := bind_ok hrun
  obtain ⟨hle, hheld₁, hback⟩ := h a b₁ hact hheld
  obtain ⟨hle', hheld', hback'⟩ := hnext a b₁ hact hle r b' hrest hheld₁
  refine ⟨Nat.le_trans hle hle', hheld', fun T hT hc => ?_⟩
  obtain ⟨hr, hc₁⟩ := hback' T hT hc
  obtain ⟨ha, hc₀⟩ := hback T hT hc₁
  exact ⟨hr ha, hc₀⟩

theorem mono {R₁ : List Targets → α → Prop} (h : Builds D labels O left act b P left' R₁)
    (hleft : ∀ l ∈ left'', l ∈ left') (hR : ∀ T a, R₁ T a → R T a) :
    Builds D labels O left act b P left'' R := by
  intro a b' hrun hheld
  obtain ⟨hle, hheld', hback⟩ := h a b' hrun hheld
  exact ⟨hle, { hheld' with left := fun l hl => hheld'.left l (hleft l hl) },
    fun T hT hc => ⟨hR T a (hback T hT hc).1, (hback T hT hc).2⟩⟩

theorem imp {R₁ : List Targets → α → Prop} (h : Builds D labels O left act b P left' R₁)
    (hR : ∀ T a, R₁ T a → R T a) : Builds D labels O left act b P left' R :=
  h.mono (fun _ hl => hl) hR

theorem assuming (h : Held D labels O left b → Builds D labels O left act b P left' R) :
    Builds D labels O left act b P left' R :=
  fun a b' hrun hheld => h hheld a b' hrun hheld

theorem map {f : α → β} (h : Builds D labels O left act b P left' R) (hP : ∀ a, P' (f a) = P a)
    (hR : ∀ T a, R T a → R' T (f a)) : Builds D labels O left (f <$> act) b P' left' R' := by
  intro r b' hrun hheld
  obtain ⟨a, hact, rfl⟩ := map_ok hrun
  obtain ⟨hle, hheld', hback⟩ := h a b' hact hheld
  rw [hP]
  exact ⟨hle, hheld', fun T hT hc => ⟨hR T a (hback T hT hc).1, (hback T hT hc).2⟩⟩

protected theorem pure {a : α} (hP : P a = O) (hleft : ∀ i ∈ left', i ∈ left)
    (hR : ∀ T, T.map Targets.label = labels → R T a) :
    Builds D labels O left (pure a) b P left' R := by
  intro r b' hrun hheld
  cases hrun
  rw [hP]
  exact ⟨Nat.le_refl _, { hheld with left := fun i hi => hheld.left i (hleft i hi) },
    fun T hT hc => ⟨hR T hT, hc⟩⟩

theorem fails {e : Error} : Builds D labels O left (throw e) b P left' R := by
  intro a b' hrun
  cases hrun

theorem perm (hO : O.Perm O') (h : Builds D labels O' left act b P left' R) :
    Builds D labels O left act b P left' R := by
  intro a b' hrun hheld
  obtain ⟨hle, hheld', hback⟩ := h a b' hrun (hheld.perm hO)
  refine ⟨hle, hheld', fun T hT hc => ⟨(hback T hT hc).1, (hback T hT hc).2.mono fun n hn => ?_⟩⟩
  exact (hO.map Prod.fst).mem_iff.2 hn

theorem restate (hst : ∀ g, st.Meets D g x → st'.Meets D g x)
    (h : Builds D labels ((x, st') :: O) left act b P left' R) :
    Builds D labels ((x, st) :: O) left act b P left' R := by
  intro a b' hrun hheld
  have hx := hst _ (hheld.entries _ List.mem_cons_self)
  obtain ⟨hle, hheld', hback⟩ := h a b' hrun (hheld.restate (.refl x b) hx)
  exact ⟨hle, hheld', fun T hT hc => ⟨(hback T hT hc).1, (hback T hT hc).2.mono fun n hn => hn⟩⟩

theorem drop (hst : ∀ g s, g.node? x = some s → st.Meets D g x → g.Forks D.strict D.sole x s)
    (h : Builds D labels O left act b P left' R) :
    Builds D labels ((x, st) :: O) left act b P left' R := by
  intro a b' hrun hheld
  have hx s (hs : b.graph.node? x = some s) := hst _ s hs (hheld.entries _ List.mem_cons_self)
  obtain ⟨hle, hheld', hback⟩ := h a b' hrun (hheld.settle (.refl x b) hx)
  exact ⟨hle, hheld', fun T hT hc => ⟨(hback T hT hc).1,
    (hback T hT hc).2.mono fun n hn => List.mem_cons_of_mem _ hn⟩⟩

/-! ### Steps -/

theorem step {v : α} {b₁ : Body} {left₁ : List Nat} {F : List Targets → Prop}
    (hrun : act b = (.ok v, b₁)) (hsize : b.size ≤ b₁.size)
    (hheld : Held D labels O left b → Held D labels O' left₁ b₁)
    (hback : ∀ T, Held D labels O left b → Completes D.graph T O' b₁ →
      F T ∧ Completes D.graph T O b)
    (h : Builds D labels O' left₁ (next v) b₁ P' left' fun T r => F T → R' T r) :
    Builds D labels O left (act >>= next) b P' left' R' := by
  intro r b' hall hold
  obtain ⟨v', b₂, hact, hrest⟩ := bind_ok hall
  cases hrun.symm.trans hact
  obtain ⟨hle, hheld', hback'⟩ := h r b' hrest (hheld hold)
  refine ⟨Nat.le_trans hsize hle, hheld', fun T hT hc => ?_⟩
  obtain ⟨hr, hc₁⟩ := hback' T hT hc
  obtain ⟨hF, hc₀⟩ := hback T hold hc₁
  exact ⟨hr hF, hc₀⟩

end Builds

theorem Held.of_eq (h : Held D labels O left b) (hg : b'.graph = b.graph)
    (hl : b'.loops = b.loops) :
    Held D labels O left b' := by
  obtain ⟨context, graph, loops, fresh⟩ := b'
  subst hg hl
  exact ⟨h.vacant, h.sources, h.labels, h.nodup, h.entries, h.hops, h.settled, h.left⟩

theorem Completes.of_eq {g : Graph} {T : List Targets} (h : Completes g T O b)
    (hg : b'.graph = b.graph) (hl : b'.loops = b.loops) : Completes g T O b' := by
  obtain ⟨context, graph, loops, fresh⟩ := b'
  subst hg hl
  exact ⟨h.node?, h.edges, h.settled, h.hops⟩

theorem Held.withNode (h : Held D labels O left b) {s : Statement}
    (hst : st.Meets D (b.withNode s).graph b.size) :
    Held D labels ((b.size, st) :: O) left (b.withNode s) := by
  have hlt {n : NodeId} (hn : n ∈ O.map Prod.fst ++ b.waiting) : n < b.size := by
    rcases List.mem_append.1 hn with hn | hn
    · obtain ⟨p, hp, rfl⟩ := List.mem_map.1 hn
      exact lt_of_contains (h.entries p hp).contains
    · exact lt_of_contains (h.hops n hn).contains
  have hmeets {n : NodeId} {st' : Status} (hn : st'.Meets D b.graph n) :
      st'.Meets D (b.withNode s).graph n :=
    hn.congr ((Extends.withNode b s).node? n (lt_of_contains hn.contains)) rfl
  refine ⟨h.vacant, fun e he => ?_, h.labels, ?_, fun p hp => ?_, fun n hn => hmeets (h.hops n hn),
    fun n s' hn hmem => ?_, h.left⟩
  · rw [size_withNode]
    exact Nat.lt_succ_of_lt (h.sources e he)
  · rw [List.map_cons, List.cons_append, List.nodup_cons]
    exact ⟨fun hmem => Nat.lt_irrefl _ (hlt hmem), h.nodup⟩
  · rcases List.mem_cons.1 hp with rfl | hp
    · exact hst
    · exact hmeets (h.entries p hp)
  · have hmem : n ≠ b.size ∧ n ∉ O.map Prod.fst ++ b.waiting := by
      rwa [List.map_cons, List.cons_append, List.mem_cons, not_or] at hmem
    have hsize : n < (b.withNode s).size := lt_of_contains (contains_of_node? hn)
    rw [size_withNode] at hsize
    have hn' : n < b.size := Nat.lt_of_le_of_ne (Nat.le_of_lt_succ hsize) hmem.1
    rw [(Extends.withNode b s).node? n hn'] at hn
    exact (h.settled n s' hn hmem.2).congr fun k => rfl

theorem outgoing_fresh (h : Held D labels O left b) (s : Statement) :
    (b.withNode s).graph.outgoing b.size = [] := by
  refine outgoing_eq_nil.2 fun e he => ?_
  exact Nat.ne_of_lt (h.sources e he)

theorem Completes.withNode {g : Graph} {T : List Targets} {s : Statement}
    (h : Completes g T ((b.size, st) :: O) (b.withNode s)) :
    g.node? b.size = some s ∧ Completes g T O b := by
  have hx := Extends.withNode b s
  refine ⟨h.node? _ _ (node?_withNode b s), fun n s' hn => h.node? n s' ?_, h.edges,
    fun n hn hmem => h.settled n ?_ ?_, h.hops⟩
  · rwa [hx.node? n (lt_of_contains (contains_of_node? hn))]
  · rwa [contains, hx.node? n (lt_of_contains hn)]
  · rw [List.map_cons, List.cons_append, List.mem_cons, not_or]
    exact ⟨Nat.ne_of_lt (lt_of_contains hn), hmem⟩

namespace Builds

variable {next : α → Attempt Body β} {P' : β → Ledger} {R' : List Targets → β → Prop}

theorem onContext {m : Attempt Context α}
    (h : ∀ v c b₁, m b.context = (.ok v, c) → b.size ≤ b₁.size →
      Builds D labels O left (next v) b₁ P' left' R') :
    Builds D labels O left (Body.onContext m >>= next) b P' left' R' := by
  intro r b' hall hheld
  obtain ⟨v, b₁, hact, hrest⟩ := bind_ok hall
  obtain ⟨c, hm, hb₁⟩ := zoom_ok hact
  have hg : b₁.graph = b.graph := by rw [hb₁]
  have hl : b₁.loops = b.loops := by rw [hb₁]
  have hsize : b.size ≤ b₁.size := Nat.le_of_eq (congrArg (·.slots.length) hg.symm)
  obtain ⟨hle, hheld', hback⟩ := h v c b₁ hm hsize r b' hrest (hheld.of_eq hg hl)
  exact ⟨Nat.le_trans hsize hle, hheld', fun T hT hc =>
    ⟨(hback T hT hc).1, (hback T hT hc).2.of_eq hg.symm hl.symm⟩⟩

theorem get {next : Body → Attempt Body β} (h : Builds D labels O left (next b) b P' left' R') :
    Builds D labels O left (MonadState.get >>= next) b P' left' R' := h

theorem freshName {set : Setting} {next : String → Attempt Body β}
    (h : ∀ v b₁, b.size ≤ b₁.size → Builds D labels O left (next v) b₁ P' left' R') :
    Builds D labels O left (Body.freshName set >>= next) b P' left' R' :=
  .step (F := fun _ => True) (modifyGet_run _ b) (Nat.le_refl _)
    (fun hheld => hheld.of_eq rfl rfl)
    (fun _ _ hc => ⟨trivial, hc.of_eq rfl rfl⟩)
    ((h _ { b with fresh := b.fresh + 1 } (Nat.le_refl _)).imp fun _ _ hr _ => hr)

theorem addNode {s : Statement} {next : NodeId → Attempt Body β}
    (hst : ∀ g : Graph, g.node? b.size = some s → g.outgoing b.size = [] → st.Meets D g b.size)
    (h : Builds D labels ((b.size, st) :: O) left (next b.size) (b.withNode s) P' left'
      fun T r => D.graph.node? b.size = some s → R' T r) :
    Builds D labels O left (Body.add s >>= next) b P' left' R' := by
  intro r b' hall hheld
  have hrun : Body.add s b = (.ok b.size, b.withNode s) := add_run hheld.vacant s
  refine Builds.step hrun ?_ (fun hheld => hheld.withNode ?_)
    (fun T _ hc => hc.withNode) h r b' hall hheld
  · rw [size_withNode]
    exact Nat.le_succ _
  · exact hst _ (node?_withNode b s) (outgoing_fresh hheld s)

theorem add {s : Statement} {next : NodeId → Attempt Body β}
    (h : Builds D labels ((b.size, .idle) :: O) left (next b.size) (b.withNode s) P' left'
      fun T r => D.graph.node? b.size = some s → R' T r) :
    Builds D labels O left (Body.add s >>= next) b P' left' R' := by
  refine addNode (fun g hn ho => ?_) h
  exact ⟨contains_of_node? hn, ho⟩

theorem addGuard {t : Term} {next : NodeId → Attempt Body β}
    (h : Builds D labels ((b.size, .guard t) :: O) left (next b.size) (b.withNode (.ofTerm t)) P'
      left' fun T r => D.graph.node? b.size = some (.ofTerm t) → R' T r) :
    Builds D labels O left (Body.add (.ofTerm t) >>= next) b P' left' R' := by
  refine addNode (fun g hn ho => ?_) h
  exact ⟨hn, ho⟩

section Edge

variable {next : Unit → Attempt Body β}

theorem edge {o : Option Status}
    (hx : ∀ b : Body, st.Meets D b.graph x → match o with
      | some st' => st'.Meets D (b.withEdge x y k).graph x
      | none => ∀ s, b.graph.node? x = some s →
        (b.withEdge x y k).graph.Forks D.strict D.sole x s)
    (h : Builds D labels (o.toList.map (Prod.mk x) ++ O) left (next ()) (b.withEdge x y k) P' left'
      fun T r => ⟨x, y, k⟩ ∈ D.graph.edges → R' T r) :
    Builds D labels ((x, st) :: O) left (Body.edge x y k >>= next) b P' left' R' := by
  have htouch := touches_withEdge b x y k
  refine .step (F := fun _ => ⟨x, y, k⟩ ∈ D.graph.edges) (edge_run b x y k) (Nat.le_refl _)
    (fun hheld => hheld.touched htouch (hx b (hheld.entries _ List.mem_cons_self)))
    (fun T _ hc => ⟨hc.edges _ List.mem_cons_self, hc.touched htouch fun n hn => ?_⟩) h
  rw [List.map_append, List.mem_append] at hn
  rcases hn with hn | hn
  · cases o with
    | some st' => exact List.mem_cons.2 (.inl (List.mem_singleton.1 hn))
    | none => cases hn
  · exact List.mem_cons_of_mem _ hn

theorem join (h : Builds D labels O left (next ()) (b.withEdge x y .sequential) P' left'
      fun T r => ⟨x, y, .sequential⟩ ∈ D.graph.edges → R' T r) :
    Builds D labels ((x, .loose) :: O) left (Body.edge x y .sequential >>= next) b P' left' R' := by
  refine edge (o := none) (fun b ⟨_, htrue, hfalse, hseq⟩ s _ => ?_) h
  have hout := outgoing_withEdge b x y .sequential
  refine .step ?_ ?_ fun hs => ?_
  · rw [fan, hout]
    simpa [fan] using htrue
  · rw [fan, hout]
    simpa [fan] using hfalse
  · rw [fan, hout, hseq hs]
    exact Nat.le_refl _

/-- A node that no edge left leads on, and so it is the only edge out of it. -/
theorem lead (h : Builds D labels O left (next ()) (b.withEdge x y .sequential) P' left'
      fun T r => D.graph.outgoing x = [⟨x, y, .sequential⟩] → R' T r) :
    Builds D labels ((x, .idle) :: O) left (Body.edge x y .sequential >>= next) b P' left' R' := by
  have htouch := touches_withEdge b x y .sequential
  have hout := outgoing_withEdge b x y .sequential
  refine .step (F := fun _ => D.graph.outgoing x = [⟨x, y, .sequential⟩]) (edge_run b x y _)
    (Nat.le_refl _) (fun hheld => hheld.settle htouch fun s _ => ?_) (fun T hheld hc => ?_) h
  · rw [(hheld.entries _ List.mem_cons_self).2] at hout
    refine .step ?_ ?_ fun _ => ?_ <;> rw [fan, hout]
    · rfl
    · rfl
    · exact Nat.le_refl 1
  · have hentry := hheld.entries _ List.mem_cons_self
    have hnodup := hheld.nodup
    rw [List.map_cons, List.cons_append, List.nodup_cons] at hnodup
    refine ⟨(hc.settled x ?_ hnodup.1).trans ?_,
      hc.touched htouch fun n hn => List.mem_cons_of_mem _ hn⟩
    · exact hentry.contains
    · rw [← hentry.2]
      exact hout

theorem take {t : Term} (h : Builds D labels ((x, .tested (· = t)) :: O) left (next ())
      (b.withEdge x y .whenTrue) P' left' fun T r => ⟨x, y, .whenTrue⟩ ∈ D.graph.edges → R' T r) :
    Builds D labels ((x, .guard t) :: O) left (Body.edge x y .whenTrue >>= next) b P' left' R' :=
  edge (o := some (.tested (· = t))) (fun b ⟨hn, ho⟩ =>
    ⟨t, y, rfl, hn, by rw [outgoing_withEdge, ho]⟩) h

theorem miss {Q : Term → Prop}
    (h : Builds D labels O left (next ()) (b.withEdge x y .whenFalse) P' left'
      fun T r => ⟨x, y, .whenFalse⟩ ∈ D.graph.edges → R' T r) :
    Builds D labels ((x, .tested Q) :: O) left (Body.edge x y .whenFalse >>= next) b P' left'
      R' := by
  refine edge (o := none) (fun b ⟨t, z, _, hn, ho⟩ s hs => ?_) h
  cases hn.symm.trans hs
  have hout := outgoing_withEdge b x y .whenFalse
  rw [ho] at hout
  refine .guard (t := t) rfl ?_ ?_ (.inl ?_) <;> rw [fan, hout] <;> rfl

end Edge

theorem spare {act : Attempt Body α} {P : α → Ledger} {R : List Targets → α → Prop}
    {Q : Term → Prop} (hQ : ∀ t, Q t → D.sole t) (h : Builds D labels O left act b P left' R) :
    Builds D labels ((x, .tested Q) :: O) left act b P left' R := by
  refine drop (fun g s hs ⟨t, y, ht, hn, ho⟩ => ?_) h
  cases hn.symm.trans hs
  refine .guard (t := t) rfl ?_ ?_ (.inr ⟨?_, hQ t ht⟩) <;> rw [fan, ho] <;> rfl

theorem leave {act : Attempt Body α} {P : α → Ledger} {R : List Targets → α → Prop}
    (h : Builds D labels O left act b P left' R) :
    Builds D labels ((x, .loose) :: O) left act b P left' R := by
  refine drop (fun g s _ ⟨_, htrue, hfalse, hseq⟩ => .step htrue hfalse fun hs => ?_) h
  rw [fan_of_nil (hseq hs)]
  exact Nat.zero_le 1

theorem leaveIdle {act : Attempt Body α} {P : α → Ledger} {R : List Targets → α → Prop}
    (h : Builds D labels O left act b P left' R) :
    Builds D labels ((x, .idle) :: O) left act b P left' R :=
  .restate (fun _ hx => hx.loose) (.leave h)

theorem connect {exit : Option NodeId} {next : Unit → Attempt Body β}
    (h : ∀ b₁, b.size ≤ b₁.size → Builds D labels O left (next ()) b₁ P' left'
      fun T r => (∀ x, exit = some x → ⟨x, y, .sequential⟩ ∈ D.graph.edges) → R' T r) :
    Builds D labels (exit.toList.map (Prod.mk · .loose) ++ O) left (Body.connect exit y >>= next) b
      P' left' R' := by
  cases exit with
  | none => exact (h b (Nat.le_refl _)).imp fun T r hr => hr fun x hx => by cases hx
  | some x =>
    refine .join ((h (b.withEdge x y .sequential) (Nat.le_refl _)).imp fun T r hr hedge => hr ?_)
    intro z hz
    cases hz
    exact hedge

theorem connectKeep (hstrict : ¬D.strict) {exit : Option NodeId} {next : Unit → Attempt Body β}
    (h : ∀ b₁, b.size ≤ b₁.size →
      Builds D labels (exit.toList.map (Prod.mk · .loose) ++ O) left (next ()) b₁ P' left'
        fun T r => (∀ x, exit = some x → ⟨x, y, .sequential⟩ ∈ D.graph.edges) → R' T r) :
    Builds D labels (exit.toList.map (Prod.mk · .loose) ++ O) left (Body.connect exit y >>= next) b
      P' left' R' := by
  cases exit with
  | none => exact (h b (Nat.le_refl _)).imp fun T r hr => hr fun x hx => by cases hx
  | some x =>
    refine edge (o := some .loose) (fun b ⟨hc, htrue, hfalse, _⟩ => ?_)
      ((h (b.withEdge x y .sequential) (Nat.le_refl _)).imp fun T r hr hedge => hr ?_)
    · have hout := outgoing_withEdge b x y .sequential
      refine ⟨hc, ?_, ?_, fun hs => absurd hs hstrict⟩
      · rw [fan, hout]
        simpa [fan] using htrue
      · rw [fan, hout]
        simpa [fan] using hfalse
    · intro z hz
      cases hz
      exact hedge

theorem leads (ns : List NodeId) : Builds D labels (ns.map (Prod.mk · .idle) ++ O) left
    (ns.forM fun n => Body.edge n y .sequential) b (fun _ => O) left
    fun _ _ => ∀ x ∈ ns, D.graph.outgoing x = [⟨x, y, .sequential⟩] := by
  induction ns generalizing b with
  | nil => exact .pure rfl (fun i hi => hi) fun T _ x hx => by cases hx
  | cons n ns ih => exact .lead (ih.imp fun T _ hns hn => List.forall_mem_cons.2 ⟨hn, hns⟩)

/-- **The hops of a loop lead to its targets.**  Without a `break` any node will do for
them. -/
theorem resolveJumps (frame : LoopFrame) (l n : NodeId) :
    Builds D labels (frame.entries ++ O) left (Body.resolveJumps frame l n) b (fun _ => O) left
      fun _ _ => ∀ ts : Targets, (frame.breaks ≠ [] → ts.leave = some l) → ts.next = n →
        ∀ k x, x ∈ frame.hops k →
          ∃ t, ts.of k = some t ∧ D.graph.outgoing x = [⟨x, t, .sequential⟩] := by
  rw [LoopFrame.entries, List.map_append, List.append_assoc]
  refine (leads frame.breaks).bind fun _ b₁ _ _ => (leads frame.continues).imp ?_
  intro T _ hcontinues hbreaks ts hleave hnext k x hx
  cases k with
  | leave => exact ⟨l, hleave (List.ne_nil_of_mem hx), hbreaks x hx⟩
  | next => exact ⟨n, congrArg some hnext, hcontinues x hx⟩

end Builds

/-! ### Fragments in sequence -/

/-- **Fragments in sequence.**  After a fragment that control does not fall out of, the
exit of the next one leads nowhere. -/
theorem Builds.chain (previous : Option Fragment) (f : Fragment) :
    Builds D labels (f.exits ++ ((previous.map Fragment.exits).getD [] ++ O)) left
      (Body.chain previous f) b (fun r => r.exits ++ O) left
      fun _ r => D.graph.Joins previous f r := by
  rcases previous with _ | ⟨entry, _ | x⟩
  · exact .pure rfl (fun i hi => hi) fun T _ => rfl
  · obtain ⟨fentry, _ | y⟩ := f
    · exact .pure rfl (fun i hi => hi) fun T _ => rfl
    · exact .leave (.pure rfl (fun i hi => hi) fun T _ => rfl)
  · refine .perm List.perm_middle (.join (.pure rfl (fun i hi => hi) fun T _ hedge => ?_))
    exact ⟨rfl, hedge⟩

/-! ### Hops -/

/-- The state with a hop that waits for a loop. -/
def withHop (b : Body) (i : Nat) (kind : Jump) (x : NodeId) : Body :=
  { b with loops := b.loops.modify i fun f => f.addHop kind x }

theorem perm_waiting_modify {loops : List LoopFrame} {i : Nat} (kind : Jump) (x : NodeId)
    (hi : i < loops.length) :
    ((loops.modify i fun f => f.addHop kind x).flatMap fun f => f.breaks ++ f.continues).Perm
      (x :: loops.flatMap fun f => f.breaks ++ f.continues) := by
  induction loops generalizing i with
  | nil => exact absurd hi (Nat.not_lt_zero i)
  | cons f loops ih =>
    cases i with
    | zero =>
      simp only [List.modify_zero_cons, List.flatMap_cons, ← List.cons_append]
      refine List.Perm.append_right _ ?_
      cases kind with
      | leave =>
        rw [LoopFrame.addHop, List.append_assoc]
        exact List.perm_middle
      | next =>
        rw [LoopFrame.addHop, ← List.append_assoc]
        exact List.perm_append_singleton _ _
    | succ i =>
      exact ((ih (Nat.lt_of_succ_lt_succ hi)).append_left _).trans List.perm_middle

theorem perm_waiting {i : Nat} (kind : Jump) (x : NodeId) (hi : i < b.loops.length) :
    (b.withHop i kind x).waiting.Perm (x :: b.waiting) := perm_waiting_modify kind x hi

theorem labels_withHop (b : Body) (i : Nat) (kind : Jump) (x : NodeId) :
    (b.withHop i kind x).loops.map LoopFrame.label = b.loops.map LoopFrame.label := by
  refine List.ext_getElem? fun j => ?_
  simp only [withHop, List.getElem?_map, List.getElem?_modify]
  cases b.loops[j]? with
  | none => rfl
  | some f => by_cases hij : i = j <;> cases kind <;> simp [hij, LoopFrame.addHop]

theorem breaks_withHop {i j : Nat} {kind : Jump} {f' : LoopFrame}
    (hf : (b.withHop i kind x).loops[j]? = some f') :
    (kind = .leave ∧ j = i → f'.breaks ≠ []) ∧
      ∃ f, b.loops[j]? = some f ∧ (f.breaks ≠ [] → f'.breaks ≠ []) := by
  rw [withHop, List.getElem?_modify] at hf
  obtain ⟨f, hget, hf⟩ := Option.map_eq_some_iff.1 hf
  by_cases hij : i = j
  · rw [if_pos hij] at hf
    subst hf
    refine ⟨fun ⟨hkind, _⟩ => by simp [hkind, LoopFrame.addHop], f, hget, fun hne => ?_⟩
    cases kind with
    | leave => simp [LoopFrame.addHop]
    | next => exact hne
  · rw [if_neg hij] at hf
    exact ⟨fun ⟨_, hji⟩ => absurd hji.symm hij, f, hget, fun hne => hf ▸ hne⟩

theorem Held.withHop {i : Nat} (h : Held D labels ((x, .idle) :: O) left b) (kind : Jump)
    (hi : i < b.loops.length)
    (hleft : ∀ l ∈ left', kind = .leave ∧ i + l + 1 = b.loops.length ∨ l ∈ left) :
    Held D labels O left' (b.withHop i kind x) := by
  have hperm := perm_waiting kind x hi
  have hnames : (O.map Prod.fst ++ (b.withHop i kind x).waiting).Perm
      (x :: O.map Prod.fst ++ b.waiting) := (hperm.append_left _).trans List.perm_middle
  refine ⟨h.vacant, h.sources, (labels_withHop b i kind x).trans h.labels,
    hnames.nodup_iff.2 h.nodup, fun p hp => h.entries p (List.mem_cons_of_mem _ hp), fun z hz => ?_,
    fun n s hn hmem => h.settled n s hn fun hmem' => hmem (hnames.mem_iff.2 hmem'),
    fun l hl j f' hj hf' => ?_⟩
  · rcases List.mem_cons.1 (hperm.mem_iff.1 hz) with rfl | hz
    · exact h.entries _ List.mem_cons_self
    · exact h.hops z hz
  · have hlen : (b.withHop i kind x).loops.length = b.loops.length := List.length_modify ..
    rw [hlen] at hj
    obtain ⟨hnew, f, hf, hold⟩ := breaks_withHop hf'
    rcases hleft l hl with ⟨hkind, hil⟩ | hmem
    · exact hnew ⟨hkind, by omega⟩
    · exact hold (h.left l hmem j f hj hf)

theorem Completes.withHop {g : Graph} {T : List Targets} {i : Nat} {kind : Jump}
    (h : Completes g T O (b.withHop i kind x)) (hi : i < b.loops.length) :
    (∃ ts t, T[i]? = some ts ∧ ts.of kind = some t ∧ g.outgoing x = [⟨x, t, .sequential⟩]) ∧
      Completes g T ((x, .idle) :: O) b := by
  refine ⟨h.hops kind i x ((hop_modify hi).2 (.inr ⟨rfl, rfl, rfl⟩)), h.node?, h.edges,
    fun n hn hmem => h.settled n hn fun hmem' => hmem ?_,
    fun k j z hz => h.hops k j z ((hop_modify hi).2 (.inl hz))⟩
  exact ((perm_waiting kind x hi).append_left _).trans List.perm_middle |>.mem_iff.1 hmem'

/-- **A jump is a hop to the target of its loop.** -/
theorem Builds.jump {scope : Scope} {kind : Jump} {label : Option String} {pos : Position}
    (hleft : ∀ l ∈ left', (JumpSite.mk kind label pos labels).leaves? = some l ∨ l ∈ left) :
    Builds D labels O left (Body.jump scope kind label pos) b (fun f => f.exits ++ O) left'
      fun T f => D.graph.Routed T kind label pos f := by
  refine .assuming fun hheld => .get ?_
  have htarget : targetLoop b.loops label = targetDepth labels label := by
    rw [targetLoop_eq, hheld.labels]
  cases hi : targetLoop b.loops label with
  | none => exact .fails
  | some i =>
    rw [hi] at htarget
    have hlt : i < (b.withNode (.noOp pos)).loops.length := lt_of_targetLoop hi
    have hlength : b.loops.length = labels.length := hheld.labels ▸ (List.length_map _).symm
    have hleft' : ∀ l ∈ left', kind = .leave ∧ i + l + 1 = b.loops.length ∨ l ∈ left :=
        fun l hl => by
      refine (hleft l hl).imp_left fun hleaves => ?_
      cases kind with
      | next => cases hleaves
      | leave =>
        have hl : labels.length - 1 - i = l := by simpa [JumpSite.leaves?, ← htarget] using hleaves
        have : i < b.loops.length := hlt
        exact ⟨rfl, by omega⟩
    refine .add (.step (modify_run _ _) (Nat.le_refl _)
      (fun hheld => hheld.withHop kind hlt hleft') (fun T _ hc => hc.withHop hlt)
      (.pure rfl (fun j hj => hj) fun T hT => ?_))
    rintro ⟨ts, t, hts, ht, hout⟩ hnode
    exact ⟨_, ts, t, rfl, Targets.find?_of_targetDepth hT htarget.symm hts, ht, hnode, hout⟩

/-! ### Inside a loop -/

theorem waiting_inside (b : Body) (frame : LoopFrame) :
    (b.inside frame).waiting = frame.breaks ++ frame.continues ++ b.waiting := List.flatMap_cons

theorem Held.inside (h : Held D labels O left b) (label : Option String) :
    Held D (label :: labels) O (left.filter (· < labels.length)) (b.inside (.ofLabel label)) := by
  have hwaiting : (b.inside (.ofLabel label)).waiting = b.waiting := waiting_inside b _
  refine ⟨h.vacant, h.sources, congrArg (label :: ·) h.labels, hwaiting ▸ h.nodup, h.entries,
    hwaiting ▸ h.hops, hwaiting ▸ h.settled, fun l hl i f hi hf => ?_⟩
  obtain ⟨hmem, hlt⟩ := List.mem_filter.1 hl
  have hlength : b.loops.length = labels.length := h.labels ▸ (List.length_map _).symm
  replace hi : i + l + 1 = b.loops.length + 1 := hi
  cases i with
  | zero => exact absurd (of_decide_eq_true hlt) (by omega)
  | succ i => exact h.left l hmem i f (by omega) hf

theorem Held.outside {label : Option String} {frame : LoopFrame}
    (h : Held D (label :: labels) O left (b.inside frame))
    (hleft : ∀ l ∈ left', l < labels.length → l ∈ left) :
    Held D labels (frame.entries ++ O) left' b := by
  have hnames : (O.map Prod.fst ++ (b.inside frame).waiting).Perm
      ((frame.entries ++ O).map Prod.fst ++ b.waiting) := by
    rw [waiting_inside, List.map_append, LoopFrame.entries, List.map_map, ← List.append_assoc]
    exact (List.perm_append_comm.append_right _).trans (by simp [Function.comp_def])
  refine ⟨h.vacant, h.sources, (List.cons.inj h.labels).2, hnames.nodup_iff.1 h.nodup,
    fun p hp => ?_, fun x hx => h.hops x ?_,
    fun n s hn hmem => h.settled n s hn fun hmem' => hmem (hnames.mem_iff.1 hmem'),
    fun l hl i f hi hf => h.left l (hleft l hl ?_) (i + 1) f ?_ hf⟩
  · rcases List.mem_append.1 hp with hp | hp
    · obtain ⟨x, hx, rfl⟩ := List.mem_map.1 hp
      refine h.hops x ?_
      rw [waiting_inside]
      exact List.mem_append_left _ hx
    · exact h.entries p hp
  · rw [waiting_inside]
    exact List.mem_append_right _ hx
  · have hlength : labels.length = b.loops.length := (List.cons.inj h.labels).2 ▸ List.length_map _
    omega
  · rw [Body.inside, List.length_cons]
    omega

theorem Completes.outside {g : Graph} {T : List Targets} {ts : Targets} {label : Option String}
    (h : Completes g (ts :: T) O (b.inside (.ofLabel label))) : Completes g T O b := by
  have hwaiting : (b.inside (.ofLabel label)).waiting = b.waiting := waiting_inside b _
  exact ⟨h.node?, h.edges, hwaiting ▸ h.settled, fun k i x hx =>
    h.hops k (i + 1) x (hop_inside_succ.2 hx)⟩

theorem Completes.inside {g : Graph} {T : List Targets} {ts : Targets} {frame : LoopFrame}
    (h : Completes g T (frame.entries ++ O) b)
    (hhops : ∀ k x, x ∈ frame.hops k →
      ∃ t, ts.of k = some t ∧ g.outgoing x = [⟨x, t, .sequential⟩]) :
    Completes g (ts :: T) O (b.inside frame) := by
  refine ⟨h.node?, h.edges, fun n hn hmem => h.settled n hn fun hmem' => hmem ?_,
    fun k i x hx => ?_⟩
  · rw [waiting_inside]
    simp only [LoopFrame.entries, List.map_append, List.map_map, List.mem_append, Function.comp_def,
      List.map_id'] at hmem' ⊢
    tauto
  · cases i with
    | zero =>
      obtain ⟨t, ht, hout⟩ := hhops k x (hop_inside_zero.1 hx)
      exact ⟨ts, t, rfl, ht, hout⟩
    | succ i => exact h.hops k i x (hop_inside_succ.1 hx)

/-- **The body of a loop.**  What follows the body has to lead its hops to targets of the
loop, and then the body is built with these. -/
theorem Builds.inLoop {label : Option String} {body : Attempt Body Fragment} {leaves : List Nat}
    {Q : List Targets → Fragment → Prop} {next : Fragment × LoopFrame → Attempt Body β}
    {P' : β → Ledger} {R' : List Targets → β → Prop}
    (hbody : Builds D (label :: labels) O (left.filter (· < labels.length)) body
      (b.inside (.ofLabel label)) (fun f => f.exits ++ O)
      (leaves ++ left.filter (· < labels.length)) Q)
    (h : ∀ inner frame b₁, b.size ≤ b₁.size → (labels.length ∈ leaves → frame.breaks ≠ []) →
      Builds D labels (frame.entries ++ (inner.exits ++ O)) (leaves ++ left)
        (next (inner, frame)) b₁ P' left' fun T r => ∃ ts : Targets, ts.label = label ∧
          (∀ k x, x ∈ frame.hops k →
            ∃ t, ts.of k = some t ∧ D.graph.outgoing x = [⟨x, t, .sequential⟩]) ∧
          (Q (ts :: T) inner → R' T r)) :
    Builds D labels O left (Body.inLoop label body >>= next) b P' left' R' := by
  intro r b' hall hheld
  obtain ⟨⟨inner, frame⟩, b₁, hloop, hrest⟩ := bind_ok hall
  rcases hrun : body (b.inside (.ofLabel label)) with ⟨e | f, after⟩
  · simp only [Body.inLoop] at hloop
    rw [show { b with loops := _ } = b.inside (.ofLabel label) from rfl, hrun] at hloop
    cases hloop
  obtain ⟨hle, hheld₁, hback⟩ := hbody f after hrun (hheld.inside label)
  obtain ⟨top, frames, hloops⟩ : ∃ top frames, after.loops = top :: frames :=
    List.exists_cons_of_ne_nil fun hnil => by
      have := hheld₁.labels
      rw [hnil] at this
      cases this
  rw [inLoop_run hrun hloops] at hloop
  cases hloop
  have hafter : after = Body.inside { after with loops := frames } frame := by
    rw [Body.inside, ← hloops]
  rw [hafter] at hheld₁ hback
  have hbreaks : labels.length ∈ leaves → frame.breaks ≠ [] := fun hmem => by
    refine hheld₁.left _ (List.mem_append_left _ hmem) 0 frame ?_ rfl
    rw [Body.inside, List.length_cons, Nat.zero_add, ← (List.cons.inj hheld₁.labels).2,
      List.length_map]
  have hleft : ∀ l ∈ leaves ++ left, l < labels.length →
      l ∈ leaves ++ left.filter (· < labels.length) := fun l hl hlt => by
    rcases List.mem_append.1 hl with hl | hl
    · exact List.mem_append_left _ hl
    · exact List.mem_append_right _ (List.mem_filter.2 ⟨hl, decide_eq_true hlt⟩)
  obtain ⟨hle', hheld', hback'⟩ :=
    h inner frame { after with loops := frames } hle hbreaks r b' hrest (hheld₁.outside hleft)
  refine ⟨Nat.le_trans hle hle', hheld', fun T hT hc => ?_⟩
  obtain ⟨⟨ts, hts, hhops, hr⟩, hc₁⟩ := hback' T hT hc
  obtain ⟨hQ, hc₀⟩ := hback (ts :: T) (by rw [List.map_cons, hts, hT]) (hc₁.inside hhops)
  exact ⟨hr hQ, hc₀.outside⟩

/-! ### Whole bodies -/

theorem held_start (D : Design) (c : Context) : Held D [] [] [] (.start c) where
  vacant := rfl
  sources e he := by cases he
  labels := rfl
  nodup := List.nodup_nil
  entries p hp := by cases hp
  hops x hx := by cases hx
  settled n s hn := by cases hn
  left l hl := by cases hl

/-- Outside all loops nothing but the ledger waits, so a state is grown into by itself. -/
theorem Held.completes {D : Design} {O : Ledger} {left : List Nat} {b : Body}
    (h : Held D [] O left b) : Completes b.graph [] O b := by
  refine ⟨fun _ _ hn => hn, fun _ he => he, fun _ _ _ => rfl, fun k i x hx => ?_⟩
  obtain ⟨frame, hframe, -⟩ := hx
  rw [List.map_eq_nil_iff.1 h.labels] at hframe
  cases hframe

end Body

end RustFlow
