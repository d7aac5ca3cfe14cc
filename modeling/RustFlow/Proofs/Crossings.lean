/-
# Crossing a part of the graph

A construct is lowered to a stretch of consecutive nodes.  A route that starts in the
stretch and leaves it by its last edge *crosses* it (`Graph.Crosses`).  A crossing of a
stretch begins with a crossing of any smaller stretch that it starts in
(`Crosses.cut`), so a crossing of a compound construct falls into crossings of its
parts.

Some nodes and edges of a construct with a value are marked: the nodes that assign the
value, the nodes where a branch returns instead, and the edges by which all tests of a
`match` are missed (`Marks`).  `Body.Settles` says that every crossing of a fragment
passes one node that assigns and no other mark, or no such node and another mark.  It
does so wherever the fragment is put, as long as only its exit is connected to nodes
outside.  Fragments in a row, guards with their branches (`Body.Cascade`), `if` chains
with an `else` and `match`es settle if their parts do.
-/

import RustFlow.Proofs.Branching

namespace RustFlow

/-! ### Stretches of nodes -/

/-- A node from `lo` on and before `hi`. -/
abbrev Between (lo hi n : Nat) : Prop := lo ≤ n ∧ n < hi

namespace Graph

variable {g : Graph} {lo hi lo' hi' : Nat} {n y : NodeId} {w : List Edge}

/-- A route that leaves the nodes from `lo` up to `hi` by its last edge. -/
structure Crosses (g : Graph) (lo hi : Nat) (n : NodeId) (w : List Edge) (y : NodeId) : Prop where
  route : Route g n w y
  within : ∀ e ∈ w, Between lo hi e.source
  leaves : ¬Between lo hi y

namespace Crosses

theorem eq_nil (h : Crosses g lo hi n w y) (hn : ¬Between lo hi n) : w = [] ∧ n = y := by
  cases w with
  | nil => exact ⟨rfl, route_nil_iff.1 h.route⟩
  | cons e w =>
    obtain ⟨-, rfl, -⟩ := route_cons_iff.1 h.route
    exact absurd (h.within e List.mem_cons_self) hn

theorem step (h : Crosses g lo hi n w y) (hn : Between lo hi n) :
    ∃ e v, w = e :: v ∧ e ∈ g.edges ∧ e.source = n ∧ Crosses g lo hi e.target v y := by
  cases w with
  | nil => exact absurd (route_nil_iff.1 h.route ▸ hn) h.leaves
  | cons e w =>
    obtain ⟨he, hs, hr⟩ := route_cons_iff.1 h.route
    exact ⟨e, w, rfl, he, hs, hr, fun d hd => h.within d (List.mem_cons_of_mem _ hd), h.leaves⟩

theorem last (h : Crosses g lo hi n w y) (hn : Between lo hi n) :
    ∃ u e, w = u ++ [e] ∧ e ∈ g.edges ∧ Between lo hi e.source ∧ e.target = y := by
  induction w generalizing n with
  | nil => exact absurd (route_nil_iff.1 h.route ▸ hn) h.leaves
  | cons e w ih =>
    obtain ⟨_, _, heq, he, -, hrest⟩ := h.step hn
    cases heq
    by_cases ht : Between lo hi e.target
    · obtain ⟨u, d, rfl, hd⟩ := ih hrest ht
      exact ⟨e :: u, d, rfl, hd⟩
    · obtain ⟨rfl, rfl⟩ := hrest.eq_nil ht
      exact ⟨[], e, rfl, he, h.within e List.mem_cons_self, rfl⟩

/-- **A crossing begins with a crossing of a smaller stretch,** and goes on from where
that ends. -/
theorem cut (h : Crosses g lo hi n w y) (hn : Between lo' hi' n) (hlo : lo ≤ lo')
    (hhi : hi' ≤ hi) :
    ∃ u v z, w = u ++ v ∧ Crosses g lo' hi' n u z ∧ Crosses g lo hi z v y := by
  induction w generalizing n with
  | nil =>
    have hy : Between lo hi n := ⟨Nat.le_trans hlo hn.1, Nat.lt_of_lt_of_le hn.2 hhi⟩
    exact absurd (route_nil_iff.1 h.route ▸ hy) h.leaves
  | cons e w ih =>
    obtain ⟨_, _, heq, he, rfl, hrest⟩ :=
      h.step ⟨Nat.le_trans hlo hn.1, Nat.lt_of_lt_of_le hn.2 hhi⟩
    cases heq
    by_cases ht : Between lo' hi' e.target
    · obtain ⟨u, v, z, rfl, hu, hv⟩ := ih hrest ht
      refine ⟨e :: u, v, z, rfl, ⟨.cons he hu.route, ?_, hu.leaves⟩, hv⟩
      exact List.forall_mem_cons.2 ⟨hn, hu.within⟩
    · refine ⟨[e], w, e.target, rfl, ⟨.single he, ?_, ht⟩, hrest⟩
      exact List.forall_mem_singleton.2 hn

end Crosses

/-- Edges out of a stretch of nodes are those of another graph, or leave the stretch in
an admitted way. -/
def Hosts (γ g : Graph) (lo hi : Nat) (out : Edge → Prop) : Prop :=
  ∀ e ∈ γ.edges, Between lo hi e.source →
    e ∈ g.edges ∨ out e ∧ ¬Between lo hi e.target

variable {γ : Graph} {out : Edge → Prop}

/-- The edges of a stretch that is left from its first node only. -/
theorem Hosts.mem_edges {exit : Option NodeId} {e : Edge}
    (hγ : Hosts γ g lo hi fun e => exit = some e.source) (hexit : ∀ x, exit = some x → x = lo)
    (he : e ∈ γ.edges) (hin : Between (lo + 1) hi e.source) : e ∈ g.edges := by
  refine (hγ e he (by omega)).resolve_right fun ⟨hsome, _⟩ => ?_
  rw [hexit _ hsome] at hin
  omega

/-- From a node that none of the stretch's own edges leaves, a crossing is one edge. -/
theorem Hosts.crosses_of_halts (hγ : Hosts γ g lo hi out)
    (hn : Between lo hi n) (hhalts : g.Halts n) (h : Crosses γ lo hi n w y) :
    ∃ e, w = [e] ∧ e.source = n := by
  obtain ⟨e, v, rfl, he, rfl, hrest⟩ := h.step hn
  obtain ⟨-, hout⟩ := (hγ e he hn).resolve_left fun hold => hhalts e hold rfl
  obtain ⟨rfl, -⟩ := hrest.eq_nil hout
  exact ⟨e, rfl, rfl⟩

end Graph

/-! ### Marks -/

/-- What is marked in a construct whose value is assigned: the nodes that assign it, the
nodes where a branch returns, and the edges on which all tests of a `match` have failed. -/
structure Marks where
  assigned : List NodeId
  returned : List NodeId
  missed : List Edge

namespace Marks

instance : Append Marks :=
  ⟨fun M N => ⟨M.assigned ++ N.assigned, M.returned ++ N.returned, M.missed ++ N.missed⟩⟩

variable {M N : Marks} {nodes : List NodeId} {u v w : List Edge} {lo hi lo' hi' : Nat}

@[simp] theorem assigned_append : (M ++ N).assigned = M.assigned ++ N.assigned := rfl

@[simp] theorem returned_append : (M ++ N).returned = M.returned ++ N.returned := rfl

@[simp] theorem missed_append : (M ++ N).missed = M.missed ++ N.missed := rfl

/-- How often nodes that assign are passed. -/
def hits (M : Marks) (nodes : List NodeId) : Nat := nodes.countP (· ∈ M.assigned)

/-- A branch that returns is taken, or all tests of a `match` fail. -/
def Escapes (M : Marks) (nodes : List NodeId) (w : List Edge) : Prop :=
  (∃ n ∈ nodes, n ∈ M.returned) ∨ ∃ e ∈ w, e ∈ M.missed

/-- **The value is assigned exactly once,** or not at all where it is escaped. -/
def Once (M : Marks) (nodes : List NodeId) (w : List Edge) : Prop :=
  M.hits nodes = 1 ∧ ¬M.Escapes nodes w ∨ M.hits nodes = 0 ∧ M.Escapes nodes w

/-- Edges that pass no mark. -/
def Unmet (M : Marks) (w : List Edge) : Prop :=
  ∀ e ∈ w, e.source ∉ M.assigned ∧ e.source ∉ M.returned ∧ e ∉ M.missed

/-- Marks on the nodes from `lo` up to `hi`. -/
structure Within (M : Marks) (lo hi : Nat) : Prop where
  assigned : ∀ n ∈ M.assigned, Between lo hi n
  returned : ∀ n ∈ M.returned, Between lo hi n
  missed : ∀ e ∈ M.missed, Between lo hi e.source

theorem Within.mono (h : M.Within lo' hi') (hlo : lo ≤ lo') (hhi : hi' ≤ hi) : M.Within lo hi := by
  have hwide : ∀ n, Between lo' hi' n → Between lo hi n := fun n hn => by omega
  exact ⟨fun n hn => hwide n (h.assigned n hn), fun n hn => hwide n (h.returned n hn),
    fun e he => hwide _ (h.missed e he)⟩

theorem Within.append (hM : M.Within lo hi) (hN : N.Within lo hi) : (M ++ N).Within lo hi := by
  constructor <;> simp only [assigned_append, returned_append, missed_append, List.mem_append]
  · exact fun n hn => hn.elim (hM.assigned n) (hN.assigned n)
  · exact fun n hn => hn.elim (hM.returned n) (hN.returned n)
  · exact fun e he => he.elim (hM.missed e) (hN.missed e)

theorem Within.unmet (h : M.Within lo hi) (hw : ∀ e ∈ w, ¬Between lo hi e.source) :
    M.Unmet w := fun e he =>
  ⟨fun h' => hw e he (h.assigned _ h'), fun h' => hw e he (h.returned _ h'),
    fun h' => hw e he (h.missed _ h')⟩

/-- On the way out of a node that none of a stretch's own edges leaves, no other mark is passed. -/
theorem Within.unmet_of_halts {γ g : Graph} {out : Edge → Prop} {n y : NodeId}
    (h : M.Within lo' hi') (hγ : Graph.Hosts γ g lo hi out) (hn : Between lo hi n)
    (hhalts : g.Halts n) (hout : ¬Between lo' hi' n) (hw : Graph.Crosses γ lo hi n w y) :
    M.Unmet w := by
  obtain ⟨e, rfl, hs⟩ := hγ.crosses_of_halts hn hhalts hw
  exact h.unmet (List.forall_mem_singleton.2 (hs ▸ hout))

theorem Unmet.append (hu : M.Unmet u) (hv : M.Unmet v) : M.Unmet (u ++ v) := fun e he =>
  (List.mem_append.1 he).elim (hu e) (hv e)

theorem Unmet.join (hM : M.Unmet w) (hN : N.Unmet w) : (M ++ N).Unmet w := fun e he => by
  have := hM e he
  have := hN e he
  simp_all

theorem Unmet.hits (h : M.Unmet w) : M.hits (w.map Edge.source) = 0 := by
  simp only [Marks.hits, List.countP_eq_zero, List.mem_map, decide_eq_true_eq]
  rintro _ ⟨e, he, rfl⟩
  exact (h e he).1

theorem Unmet.not_escapes (h : M.Unmet w) : ¬M.Escapes (w.map Edge.source) w := by
  rintro (⟨_, hn, hret⟩ | ⟨e, he, hmiss⟩)
  · obtain ⟨e, he, rfl⟩ := List.mem_map.1 hn
    exact (h e he).2.1 hret
  · exact (h e he).2.2 hmiss

theorem hits_append_nodes (nodes' : List NodeId) :
    M.hits (nodes ++ nodes') = M.hits nodes + M.hits nodes' := List.countP_append

theorem escapes_append_route : M.Escapes (u.map Edge.source ++ v.map Edge.source) (u ++ v) ↔
    M.Escapes (u.map Edge.source) u ∨ M.Escapes (v.map Edge.source) v := by
  simp only [Escapes, List.mem_append, or_and_right, exists_or]
  exact or_or_or_comm ..

theorem Once.after (hu : M.Unmet u) (h : M.Once (v.map Edge.source) v) :
    M.Once ((u ++ v).map Edge.source) (u ++ v) := by
  simpa only [Once, List.map_append, escapes_append_route, hits_append_nodes, hu.hits,
    hu.not_escapes, false_or, Nat.zero_add] using h

theorem Once.before (h : M.Once (u.map Edge.source) u) (hv : M.Unmet v) :
    M.Once ((u ++ v).map Edge.source) (u ++ v) := by
  simpa only [Once, List.map_append, escapes_append_route, hits_append_nodes, hv.hits,
    hv.not_escapes, or_false, Nat.add_zero] using h

theorem hits_eq_of_mem (h : ∀ n ∈ nodes, n ∈ M.assigned ↔ n ∈ N.assigned) :
    M.hits nodes = N.hits nodes :=
  List.countP_congr fun n hn => by simpa using h n hn

theorem Once.congr (hassigned : ∀ e ∈ w, e.source ∈ M.assigned ↔ e.source ∈ N.assigned)
    (hreturned : ∀ e ∈ w, e.source ∈ M.returned ↔ e.source ∈ N.returned)
    (hmissed : ∀ e ∈ w, e ∈ M.missed ↔ e ∈ N.missed) (h : M.Once (w.map Edge.source) w) :
    N.Once (w.map Edge.source) w := by
  have hhits : M.hits (w.map Edge.source) = N.hits (w.map Edge.source) :=
    hits_eq_of_mem (by simpa using hassigned)
  have hescapes : M.Escapes (w.map Edge.source) w ↔ N.Escapes (w.map Edge.source) w := by
    refine or_congr (exists_congr fun n => and_congr_right fun hn => ?_)
      (exists_congr fun e => and_congr_right (hmissed e))
    obtain ⟨e, he, rfl⟩ := List.mem_map.1 hn
    exact hreturned e he
  simpa only [Once, hhits, hescapes] using h

theorem Once.join_left (h : M.Once (w.map Edge.source) w) (hN : N.Unmet w) :
    (M ++ N).Once (w.map Edge.source) w :=
  h.congr (fun e he => by simp [(hN e he).1]) (fun e he => by simp [(hN e he).2.1])
    fun e he => by simp [(hN e he).2.2]

theorem Once.join_right (h : N.Once (w.map Edge.source) w) (hM : M.Unmet w) :
    (M ++ N).Once (w.map Edge.source) w :=
  h.congr (fun e he => by simp [(hM e he).1]) (fun e he => by simp [(hM e he).2.1])
    fun e he => by simp [(hM e he).2.2]

end Marks

namespace Body

open Graph

variable {set : Setting} {b b' b₀ b₁ b₂ b₃ : Body} {f p next taken : Fragment} {c y : NodeId}
  {γ : Graph} {M N : Marks} {e : Edge} {w : List Edge}

/-! ### Fragments -/

/-- Every crossing of a fragment with nodes from `lo` on assigns the value once or escapes it,
in any graph where only the exit of the fragment is connected to nodes outside. -/
structure Settles (lo : Nat) (b' : Body) (f : Fragment) (M : Marks) : Prop where
  within : M.Within lo b'.size
  once : ∀ γ, Hosts γ b'.graph lo b'.size (fun e => f.exit = some e.source) →
    ∀ w y, Crosses γ lo b'.size f.entry w y → M.Once (w.map Edge.source) w

namespace Part

theorem entry_inside (h : Part set b b' f) : Between b.size b'.size f.entry :=
  ⟨h.ends.entry.1, h.entry_lt⟩

theorem exit_inside (h : Part set b b' f) {x : NodeId} (hx : f.exit = some x) :
    Between b.size b'.size x := ⟨(h.ends.exit x hx).1, h.exit_lt hx⟩

theorem target_inside (h : Part set b b' f) (he : e ∈ b'.graph.edges) (hs : b.size ≤ e.source) :
    Between b.size b'.size e.target := by
  refine ⟨?_, h.sound.target_lt he⟩
  rcases h.mem_edges he with hold | ⟨-, ht⟩
  · exact absurd (h.start.source_lt hold) (Nat.not_lt.2 hs)
  · exact ht

theorem mem_edges_before (h : Part set b b' f) (he : e ∈ b'.graph.edges) (hs : e.source < b.size) :
    e ∈ b.graph.edges :=
  (h.mem_edges he).resolve_right fun hnew => Nat.not_lt.2 hnew.1 hs

theorem last_of_crosses (h : Part set b b' f)
    (hγ : Hosts γ b'.graph b.size b'.size fun e => f.exit = some e.source)
    (hw : Crosses γ b.size b'.size f.entry w y) :
    ∃ u e, w = u ++ [e] ∧ e ∈ γ.edges ∧ e ∉ b'.graph.edges ∧ f.exit = some e.source ∧
      e.target = y := by
  obtain ⟨u, e, rfl, he, hs, rfl⟩ := hw.last h.entry_inside
  have hnew : e ∉ b'.graph.edges := fun hold => hw.leaves (h.target_inside hold hs.1)
  rcases hγ e he hs with hold | ⟨hexit, -⟩
  · exact absurd hold hnew
  · exact ⟨u, e, rfl, he, hnew, hexit, rfl⟩

end Part

namespace Settles

theorem single (hb : Sound b) (s : Statement) :
    Settles b.size (b.withNode s) ⟨b.size, some b.size⟩ ⟨[b.size], [], []⟩ := by
  have hinside : Between b.size (b.withNode s).size b.size := by
    rw [size_withNode]
    exact ⟨Nat.le_refl _, Nat.lt_succ_self _⟩
  refine ⟨⟨by simpa using hinside, by simp, by simp⟩, fun γ hγ w y hw => ?_⟩
  obtain ⟨e, rfl, hs⟩ := hγ.crosses_of_halts hinside
    (fun e he => Nat.ne_of_lt ((hb.fresh s).1 e he).1) hw
  refine .inl ⟨?_, ?_⟩
  · simp [Marks.hits, hs]
  · simp [Marks.Escapes]

theorem returning (h : Part set b b' f) : Settles b.size b' f ⟨[], [f.entry], []⟩ := by
  refine ⟨⟨by simp, by simpa using h.entry_inside, by simp⟩, fun γ _ w y hw => ?_⟩
  obtain ⟨e, v, rfl, -, hs, -⟩ := hw.step h.entry_inside
  refine .inr ⟨?_, .inl ⟨f.entry, ?_, List.mem_singleton_self _⟩⟩
  · simp [Marks.hits]
  · simp [hs]

theorem stuck (h : Part set b b' f) (hexit : f.exit = none) : Settles b.size b' f ⟨[], [], []⟩ := by
  refine ⟨⟨by simp, by simp, by simp⟩, fun γ hγ w y hw => ?_⟩
  obtain ⟨_, e, -, -, -, hsome, -⟩ := h.last_of_crosses hγ hw
  cases hexit.symm.trans hsome

/-- **One fragment after another:** the second assigns the value. -/
theorem chain (hp : Part set b₀ b p) (hn : Part set b b₁ next) (h : Settles b.size b₁ next M)
    {x : NodeId} (hx : p.exit = some x) :
    Settles b₀.size (b₁.withEdge x next.entry .sequential) ⟨p.entry, next.exit⟩ M := by
  have hle := hp.grew.size_le
  have hle₁ := hn.grew.size_le
  refine ⟨h.within.mono hle (Nat.le_refl _), fun γ hγ w y hw => ?_⟩
  -- the first part is left by the edge to the second
  obtain ⟨u, v, z, rfl, hu, hv⟩ := hw.cut hp.entry_inside (Nat.le_refl _) hle₁
  obtain ⟨u', e, rfl, he, hs, rfl⟩ := hu.last hp.entry_inside
  have hlink : e = ⟨x, next.entry, .sequential⟩ := by
    rcases hγ e he ⟨hs.1, Nat.lt_of_lt_of_le hs.2 hle₁⟩ with hold | ⟨hexit, -⟩
    · refine (mem_edges_withEdge.1 hold).resolve_right fun hold => ?_
      exact hu.leaves (hp.target_inside (hn.mem_edges_before hold hs.2) hs.1)
    · exact absurd hs.2 (Nat.not_lt.2 (hn.exit_inside hexit).1)
  subst hlink
  -- and the second by its exit, which leads outside
  obtain ⟨v, v', z, rfl, hv₁, hv₂⟩ := hv.cut hn.entry_inside hle (Nat.le_refl _)
  have hγ₁ : Hosts γ b₁.graph b.size b₁.size fun e => next.exit = some e.source := by
    intro d hd hs'
    rcases hγ d hd ⟨Nat.le_trans hle hs'.1, hs'.2⟩ with hold | ⟨hexit, hout⟩
    · refine .inl ((mem_edges_withEdge.1 hold).resolve_left ?_)
      rintro rfl
      exact absurd (hp.exit_inside hx).2 (Nat.not_lt.2 hs'.1)
    · exact .inr ⟨hexit, fun hin => hout ⟨Nat.le_trans hle hin.1, hin.2⟩⟩
  obtain ⟨v₁, d, rfl, hd, hnew, hexit, rfl⟩ := hn.last_of_crosses hγ₁ hv₁
  have hin := hn.exit_inside hexit
  have hout : ¬Between b₀.size (b₁.withEdge x next.entry .sequential).size d.target := by
    rcases hγ d hd ⟨Nat.le_trans hle hin.1, hin.2⟩ with hold | ⟨-, hout⟩
    · refine absurd hin.1 (Nat.not_le.2 ?_)
      obtain rfl := (mem_edges_withEdge.1 hold).resolve_right hnew
      exact (hp.exit_inside hx).2
    · exact hout
  obtain ⟨rfl, -⟩ := hv₂.eq_nil hout
  rw [List.append_nil]
  exact (h.once γ hγ₁ _ _ hv₁).after (h.within.unmet fun d hd hin =>
    absurd (hu.within d hd).2 (Nat.not_lt.2 hin.1))

theorem chain_stuck (hp : Part set b₀ b p) (hn : Part set b b₁ next)
    (h : Settles b.size b₁ next M) (hexit : p.exit = none) : Settles b₀.size b₁ p M := by
  have hle₁ := hn.grew.size_le
  refine ⟨h.within.mono hp.grew.size_le (Nat.le_refl _), fun γ hγ w y hw => ?_⟩
  obtain ⟨u, v, z, rfl, hu, -⟩ := hw.cut hp.entry_inside (Nat.le_refl _) hle₁
  obtain ⟨u', e, rfl, he, hs, rfl⟩ := hu.last hp.entry_inside
  rcases hγ e he ⟨hs.1, Nat.lt_of_lt_of_le hs.2 hle₁⟩ with hold | ⟨hsome, -⟩
  · exact absurd (hp.target_inside (hn.mem_edges_before hold hs.2) hs.1) hu.leaves
  · cases hexit.symm.trans hsome

end Settles

/-! ### Guards with branches -/

/-- Guards with branches towards `c`, the nodes from `b.size` on, of which the first takes the
false edge of a guard before them.  A crossing ends in `c` and settles the value on the way, or it
passes no mark and leaves by the false edge of the last guard, which is added later. -/
structure Cascade (b b' : Body) (c : NodeId) (pending : Option NodeId) (last : NodeId) (M : Marks) :
    Prop where
  sound : Sound b'
  later : Extends b b'
  last_inside : Between b.size b'.size last
  last_open : ∀ e ∈ b'.graph.edges, e.source = last → e.kind ≠ .whenFalse
  old : ∀ e ∈ b'.graph.edges, e.source < b.size →
    e ∈ b.graph.edges ∨ ∃ p, pending = some p ∧ e = ⟨p, b.size, .whenFalse⟩
  within : M.Within b.size b'.size
  once : ∀ γ, Hosts γ b'.graph b.size b'.size (fun e => e.source = last ∧ e.kind = .whenFalse) →
    ∀ w y, Crosses γ b.size b'.size b.size w y →
      (∀ e ∈ w, e ∈ b'.graph.edges) ∧ y = c ∧ M.Once (w.map Edge.source) w ∨
        M.Unmet w ∧ ∃ u e, w = u ++ [e] ∧ e ∉ b'.graph.edges ∧ e.target = y

namespace Cascade

variable {pending : Option NodeId} {last last' : NodeId}

theorem first_inside (h : Cascade b b' c pending last M) : Between b.size b'.size b.size :=
  ⟨Nat.le_refl _, Nat.lt_of_le_of_lt h.last_inside.1 h.last_inside.2⟩

theorem of_eq (h : Cascade b₁ b' c pending last M) (hg : b₁.graph = b.graph)
    (hl : b₁.loops = b.loops) : Cascade b b' c pending last M := by
  have hsize : b₁.size = b.size := by rw [size, size, hg]
  exact ⟨h.sound, (Extends.of_eq hg hl).trans h.later, hsize ▸ h.last_inside, h.last_open,
    hg ▸ hsize ▸ h.old, hsize ▸ h.within, hsize ▸ h.once⟩

/-- **A guard and its branch.** -/
theorem single {t : Term} (hb : Sound b) (hc : b.graph.contains c = true)
    (hpending : ∀ p, pending = some p → b.graph.contains p = true)
    (hw₁ : Wired (fun e => ∃ p, pending = some p ∧ e = ⟨p, b.size, .whenFalse⟩)
      (b.withNode (.ofTerm t)) b₁)
    (hpart : Part set b₁ b₂ taken) (h : Settles b₁.size b₂ taken M)
    (hw₃ : Wired (fun e => e = ⟨b.size, taken.entry, .whenTrue⟩ ∨
      ∃ x, taken.exit = some x ∧ e = ⟨x, c, .sequential⟩) b₂ b₃) :
    Cascade b b₃ c pending b.size M := by
  -- what the branch records does not matter, so it may as well be nothing
  have hbranch : BranchAt False b b₃ c pending t taken.entry fun _ _ => False :=
    branchAt_of_wired hb hc hpending hw₁ hpart ⟨fun _ _ hrun => hrun.elim, fun hf => hf.elim⟩ hw₃
  have hcb : ∀ hi, ¬Between b.size hi c := fun _ hin => Nat.not_le.2 (lt_of_contains hc) hin.1
  have hsize₁ : b₁.size = b.size + 1 := hw₁.size.trans (size_withNode b _)
  have hsize₃ : b₃.size = b₂.size := hw₃.size
  have hguard : Between b.size b₃.size b.size := ⟨Nat.le_refl _, hbranch.size_lt⟩
  have hle₁ : b.size ≤ b₁.size := by omega
  refine ⟨hbranch.sound, hbranch.later, hguard, fun e he hs => ?_, hbranch.old,
    h.within.mono hle₁ (Nat.le_of_eq hsize₃.symm), fun γ hγ w y hw => ?_⟩
  · rw [hbranch.own e he hs]
    exact fun h => by cases h
  have hguarded : ∀ {e : Edge}, e.source = b.size → M.Unmet [e] := fun {e} hs =>
    h.within.unmet (List.forall_mem_singleton.2 fun hin => by rw [hs] at hin; omega)
  -- from the guard into the branch, or out by the false edge
  obtain ⟨e, v, rfl, he, hs, hrest⟩ := hw.step hguard
  by_cases hown : e ∈ b₃.graph.edges
  · obtain rfl := hbranch.own e hown hs
    have hedges : ∀ d ∈ γ.edges, Between b₁.size b₂.size d.source → d ∈ b₃.graph.edges := by
      intro d hd hin
      rcases hγ d hd (by omega) with hold | ⟨⟨hs, -⟩, -⟩
      · exact hold
      · rw [hs] at hin
        omega
    have hexit : ∀ d ∈ b₃.graph.edges, b₁.size ≤ d.source →
        d ∈ b₂.graph.edges ∨ taken.exit = some d.source ∧ d.target = c := by
      intro d hd hle
      rcases (hw₃.mem_edges d).1 hd with hold | rfl | ⟨x, hx, rfl⟩
      · exact .inl hold
      · exact absurd hle (by dsimp only; omega)
      · exact .inr ⟨hx, rfl⟩
    have hγ₁ : Hosts γ b₂.graph b₁.size b₂.size fun e => taken.exit = some e.source := by
      intro d hd hin
      refine (hexit d (hedges d hd hin) hin.1).imp_right fun ⟨hx, ht⟩ => ⟨hx, fun hin => ?_⟩
      exact hcb _ ⟨Nat.le_trans hle₁ (ht ▸ hin.1), ht ▸ hin.2⟩
    obtain ⟨u, v, z, rfl, hu, hv⟩ := hrest.cut hpart.entry_inside hle₁ (Nat.le_of_eq hsize₃.symm)
    obtain ⟨u', d, rfl, hd, hnew, hx, rfl⟩ := hpart.last_of_crosses hγ₁ hu
    have hin := hpart.exit_inside hx
    have hdc : d.target = c := ((hexit d (hedges d hd hin) hin.1).resolve_left hnew).2
    rw [hdc] at hv hu
    obtain ⟨rfl, rfl⟩ := hv.eq_nil (hcb _)
    rw [List.append_nil]
    refine .inl ⟨List.forall_mem_cons.2 ⟨hown, fun d hd => ?_⟩, rfl, ?_⟩
    · exact hedges d (hu.route.mem_edges hd) (hu.within d hd)
    · rw [← List.singleton_append]
      exact (h.once γ hγ₁ _ _ hu).after (hguarded rfl)
  · obtain ⟨-, hout⟩ := (hγ e he (hs ▸ hguard)).resolve_left hown
    obtain ⟨rfl, rfl⟩ := hrest.eq_nil hout
    exact .inr ⟨hguarded hs, [], e, rfl, hown, rfl⟩

/-- **Guards after guards:** the false edge of the last of the former leads to the latter. -/
theorem append (h : Cascade b b₁ c pending last M) (hc : c < b.size)
    (h' : Cascade b₁ b₂ c (some last) last' N) : Cascade b b₂ c pending last' (M ++ N) := by
  have hle := h.later.size_le
  have hle' := h'.later.size_le
  have hlast := h.last_inside
  have hlast' := h'.last_inside
  refine ⟨h'.sound, h.later.trans h'.later, by omega, h'.last_open, fun e he hs => ?_,
    (h.within.mono (Nat.le_refl _) hle').append (h'.within.mono hle (Nat.le_refl _)),
    fun γ hγ w y hw => ?_⟩
  · rcases h'.old e he (Nat.lt_of_lt_of_le hs hle) with hold | ⟨p, hp, rfl⟩
    · exact h.old e hold hs
    · cases hp
      exact absurd hlast.1 (Nat.not_le.2 hs)
  · -- an edge out of the former guards and branches is one of theirs or leads to the latter
    have hfirst : ∀ e ∈ γ.edges, Between b.size b₁.size e.source → e ∈ b₂.graph.edges := by
      intro e he hin
      rcases hγ e he (by omega) with hold | ⟨⟨hs, -⟩, -⟩
      · exact hold
      · rw [hs] at hin
        omega
    have hγ₁ : Hosts γ b₁.graph b.size b₁.size fun e => e.source = last ∧ e.kind = .whenFalse := by
      intro e he hin
      rcases h'.old e (hfirst e he hin) hin.2 with hold | ⟨p, hp, rfl⟩
      · exact .inl hold
      · cases hp
        exact .inr ⟨⟨rfl, rfl⟩, fun hin => Nat.lt_irrefl _ hin.2⟩
    have hγ₂ : Hosts γ b₂.graph b₁.size b₂.size fun e =>
        e.source = last' ∧ e.kind = .whenFalse := by
      intro e he hin
      exact (hγ e he (by omega)).imp_right fun ⟨hs, hout⟩ => ⟨hs, fun hin => hout (by omega)⟩
    obtain ⟨u, v, z, rfl, hu, hv⟩ := hw.cut h.first_inside (Nat.le_refl _) hle'
    have hN : N.Unmet u := h'.within.unmet fun e he hin =>
      absurd (hu.within e he).2 (Nat.not_lt.2 hin.1)
    have hown : ∀ e ∈ u, e ∈ b₂.graph.edges := fun e he =>
      hfirst e (hu.route.mem_edges he) (hu.within e he)
    rcases h.once γ hγ₁ u z hu with ⟨-, rfl, honce⟩ | ⟨hM, u', e, rfl, hnew, rfl⟩
    · obtain ⟨rfl, rfl⟩ := hv.eq_nil fun hin => Nat.not_le.2 hc hin.1
      rw [List.append_nil]
      exact .inl ⟨hown, rfl, honce.join_left hN⟩
    · have he := List.mem_append_right u' (List.mem_singleton_self e)
      have hlink : e.target = b₁.size := by
        obtain ⟨p, -, rfl⟩ := (h'.old e (hown e he) (hu.within e he).2).resolve_left hnew
        rfl
      rw [hlink] at hv
      obtain ⟨v, v', z, rfl, hv₁, hv₂⟩ := hv.cut h'.first_inside hle (Nat.le_refl _)
      have hM' : M.Unmet v := h.within.unmet fun e he hin =>
        absurd hin.2 (Nat.not_lt.2 (hv₁.within e he).1)
      rcases h'.once γ hγ₂ v z hv₁ with ⟨hown', rfl, honce⟩ | ⟨hN', v₁, d, rfl, hnew', rfl⟩
      · obtain ⟨rfl, rfl⟩ := hv₂.eq_nil fun hin => Nat.not_le.2 hc hin.1
        rw [List.append_nil]
        refine .inl ⟨fun e he => (List.mem_append.1 he).elim (hown e) (hown' e), rfl, ?_⟩
        exact (honce.join_right hM').after (hM.join hN)
      · have hd := List.mem_append_right v₁ (List.mem_singleton_self d)
        have hin := hv₁.within d hd
        obtain ⟨-, hout⟩ := (hγ d (hv₁.route.mem_edges hd) (by omega)).resolve_left hnew'
        obtain ⟨rfl, rfl⟩ := hv₂.eq_nil hout
        rw [List.append_nil]
        exact .inr ⟨(hM.join hN).append (hM'.join hN'), u' ++ [e] ++ v₁, d,
          (List.append_assoc ..).symm, hnew', rfl⟩

theorem halts (hb : Sound b) {s : Statement} (h : Cascade (b.withNode s) b' b.size none last M) :
    b'.graph.Halts b.size := by
  intro e he hs
  have hlt : e.source < (b.withNode s).size := by
    rw [hs, size_withNode]
    exact Nat.lt_succ_self _
  rcases h.old e he hlt with hold | ⟨p, hp, -⟩
  · exact absurd hs (Nat.ne_of_lt ((hb.fresh s).1 e hold).1)
  · cases hp

end Cascade

section Converging

/-! A convergence, guards with branches towards it, and more edges to it. -/

variable {pos : Position} {last : NodeId} (hb : Sound b)
  (h : Cascade (b.withNode (.noOp pos)) b₁ b.size none last M)

include hb h

/-- **An `if` chain with an `else`:** the false edge of the last guard leads to the last block. -/
theorem Settles.ifElse (hn : Part set b₁ b₂ taken) (h' : Settles b₁.size b₂ taken N)
    (hwired : Wired (fun e => e = ⟨last, taken.entry, .whenFalse⟩ ∨
      ∃ x, taken.exit = some x ∧ e = ⟨x, b.size, .sequential⟩) b₂ b₃) :
    Settles b.size b₃ ⟨(b.withNode (.noOp pos)).size, some b.size⟩ (M ++ N) := by
  have hsize := size_withNode b (.noOp pos)
  have hle₁ := h.later.size_le
  have hle₂ := hn.grew.size_le
  have hsize₃ := hwired.size
  have hlast := h.last_inside
  have hlt : b.size < b₁.size := by omega
  have hconv : Between b.size b₃.size b.size := by omega
  have hhalts : b₃.graph.Halts b.size := by
    intro e he hs
    rcases (hwired.mem_edges e).1 he with hold | rfl | ⟨x, hx, rfl⟩
    · exact h.halts hb e (hn.mem_edges_before hold (hs ▸ hlt)) hs
    · obtain rfl : last = b.size := hs
      omega
    · obtain rfl : x = b.size := hs
      exact absurd (hn.exit_inside hx).1 (Nat.not_le.2 hlt)
  have hguards : ∀ e ∈ b₃.graph.edges, e.source < b₁.size →
      e ∈ b₁.graph.edges ∨ e = ⟨last, taken.entry, .whenFalse⟩ := by
    intro e he hs
    rcases (hwired.mem_edges e).1 he with hold | hlink | ⟨x, hx, rfl⟩
    · exact .inl (hn.mem_edges_before hold hs)
    · exact .inr hlink
    · exact absurd hs (Nat.not_lt.2 (hn.exit_inside hx).1)
  have helse : ∀ e ∈ b₃.graph.edges, b₁.size ≤ e.source →
      e ∈ b₂.graph.edges ∨ taken.exit = some e.source ∧ e.target = b.size := by
    intro e he hs
    rcases (hwired.mem_edges e).1 he with hold | rfl | ⟨x, hx, rfl⟩
    · exact .inl hold
    · exact absurd hlast.2 (Nat.not_lt.2 hs)
    · exact .inr ⟨hx, rfl⟩
  have hM := h.within
  have hN := h'.within
  have hMN : (M ++ N).Within (b.size + 1) b₃.size :=
    (hM.mono (by omega) (by omega)).append (hN.mono (by omega) (by omega))
  refine ⟨hMN.mono (by omega) (by omega), fun γ hγ w y hw => ?_⟩
  have hown : ∀ e ∈ γ.edges, Between (b.size + 1) b₃.size e.source → e ∈ b₃.graph.edges :=
    fun e he => hγ.mem_edges (fun x hx => (Option.some.inj hx).symm) he
  have hγ₁ : Hosts γ b₁.graph (b.withNode (.noOp pos)).size b₁.size fun e =>
      e.source = last ∧ e.kind = .whenFalse := by
    intro e he hin
    refine (hguards e (hown e he (by omega)) hin.2).imp_right ?_
    rintro rfl
    exact ⟨⟨rfl, rfl⟩, fun hin => Nat.not_lt.2 hn.entry_inside.1 hin.2⟩
  have hγ₂ : Hosts γ b₂.graph b₁.size b₂.size fun e => taken.exit = some e.source := by
    intro e he hin
    refine (helse e (hown e he (by omega)) hin.1).imp_right fun ⟨hx, ht⟩ => ⟨hx, fun hin => ?_⟩
    rw [ht] at hin
    omega
  have hend : ∀ {v y}, Crosses γ b.size b₃.size b.size v y → (M ++ N).Unmet v := fun hv =>
    hMN.unmet_of_halts hγ hconv hhalts (by omega) hv
  obtain ⟨u, v, z, rfl, hu, hv⟩ := hw.cut h.first_inside (by omega) (by omega)
  have hNu : N.Unmet u := hN.unmet fun e he hin =>
    absurd (hu.within e he).2 (Nat.not_lt.2 hin.1)
  rcases h.once γ hγ₁ u z hu with ⟨-, rfl, honce⟩ | ⟨hMu, u', e, rfl, hnew, rfl⟩
  · exact (honce.join_left hNu).before (hend hv)
  · have he := List.mem_append_right u' (List.mem_singleton_self e)
    have hin := hu.within e he
    obtain rfl := (hguards e (hown e (hu.route.mem_edges he) (by omega)) hin.2).resolve_left hnew
    obtain ⟨v, v', z, rfl, hv₁, hv₂⟩ := hv.cut hn.entry_inside (by omega) (by omega)
    obtain ⟨v₁, d, rfl, hd, hnew', hexit, rfl⟩ := hn.last_of_crosses hγ₂ hv₁
    have hin' := hn.exit_inside hexit
    have hd : d.target = b.size :=
      ((helse d (hown d hd (by omega)) hin'.1).resolve_left hnew').2
    rw [hd] at hv₂
    have hMv : M.Unmet (v₁ ++ [d]) := hM.unmet fun e he hin =>
      absurd hin.2 (Nat.not_lt.2 (hv₁.within e he).1)
    exact (((h'.once γ hγ₂ _ _ hv₁).join_right hMv).before (hend hv₂)).after (hMu.join hNu)

/-- **A `match`:** the false edge of the last guard leads to the convergence, unless there is
none. -/
theorem Settles.matchChain {misses : Bool} {exit : Option NodeId}
    (hexit : ∀ x, exit = some x → x = b.size)
    (hwired : Wired (fun e => misses = true ∧ e = ⟨last, b.size, .whenFalse⟩) b₁ b₂) :
    Settles b.size b₂ ⟨(b.withNode (.noOp pos)).size, exit⟩
      (M ++ ⟨[], [], if misses then [⟨last, b.size, .whenFalse⟩] else []⟩) := by
  have hsize := size_withNode b (.noOp pos)
  have hle₁ := h.later.size_le
  have hsize₂ := hwired.size
  have hlast := h.last_inside
  have hconv : Between b.size b₂.size b.size := by omega
  have hhalts : b₂.graph.Halts b.size := by
    intro e he hs
    rcases (hwired.mem_edges e).1 he with hold | ⟨-, rfl⟩
    · exact h.halts hb e hold hs
    · obtain rfl : last = b.size := hs
      omega
  have hM := h.within
  set N : Marks := ⟨[], [], if misses then [⟨last, b.size, .whenFalse⟩] else []⟩ with hNdef
  have hmem : ∀ e, e ∈ N.missed ↔ misses = true ∧ e = ⟨last, b.size, .whenFalse⟩ := by
    intro e
    cases misses <;> simp [hNdef]
  have hN : N.Within (b.withNode (.noOp pos)).size b₁.size := by
    refine ⟨by simp [hNdef], by simp [hNdef], fun e he => ?_⟩
    rw [((hmem e).1 he).2]
    exact hlast
  refine ⟨(hM.append hN).mono (by omega) (by omega), fun γ hγ w y hw => ?_⟩
  have hown : ∀ e ∈ γ.edges, Between (b.size + 1) b₂.size e.source → e ∈ b₂.graph.edges :=
    fun e he => hγ.mem_edges hexit he
  have hγ₁ : Hosts γ b₁.graph (b.withNode (.noOp pos)).size b₁.size fun e =>
      e.source = last ∧ e.kind = .whenFalse := by
    intro e he hin
    refine ((hwired.mem_edges e).1 (hown e he (by omega))).imp_right ?_
    rintro ⟨-, rfl⟩
    exact ⟨⟨rfl, rfl⟩, fun hin => absurd hin.1 (by dsimp only; omega)⟩
  obtain ⟨u, v, z, rfl, hu, hv⟩ := hw.cut h.first_inside (by omega) (by omega)
  have hend : z = b.size → (M ++ N).Unmet v := by
    rintro rfl
    exact (hM.append hN).unmet_of_halts hγ hconv hhalts (by omega) hv
  rcases h.once γ hγ₁ u z hu with ⟨hold, rfl, honce⟩ | ⟨hMu, u', e, rfl, hnew, rfl⟩
  · refine (honce.join_left fun e he => ⟨by simp [hNdef], by simp [hNdef], fun hmiss => ?_⟩).before
      (hend rfl)
    obtain ⟨-, rfl⟩ := (hmem e).1 hmiss
    exact h.last_open _ (hold _ he) rfl rfl
  · have he := List.mem_append_right u' (List.mem_singleton_self e)
    have hin := hu.within e he
    obtain ⟨hmisses, rfl⟩ :=
      ((hwired.mem_edges e).1 (hown e (hu.route.mem_edges he) (by omega))).resolve_left hnew
    refine Marks.Once.before (.inr ⟨?_, .inr ⟨_, he, ?_⟩⟩) (hend rfl)
    · exact (Marks.hits_eq_of_mem (by simp [hNdef])).trans hMu.hits
    · exact List.mem_append_right _ ((hmem _).2 ⟨hmisses, rfl⟩)

end Converging

end Body

end RustFlow
