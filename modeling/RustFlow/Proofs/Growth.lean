/-
# Lowering only adds to the graph

A construct is lowered into nodes and edges of its own.  `Body.Grew set base b b'`
says what may happen between two states: nodes are added at the end, edges are
added between nodes from `base` on, and the loops around keep their labels and
gain hops from `base` on.  No `ret` node is added, a node that returns a value is
added only in a function with a result, and no edge ever leaves such a node.

`Ensures` follows a computation that grows a body, also one that fails half-way;
`Local` is the case where `base` is the number of nodes at the start, so that
every new edge joins two nodes of the construct.  Growth is a sound judgement
(`sound_growth`), so every construct is local (`local_lowerFlow`,
`local_lowerBlock`).
-/

import RustFlow.Lowering.Body
import RustFlow.Proofs.Attempt
import RustFlow.Proofs.GraphOps
import RustFlow.Proofs.Parametricity
import RustFlow.Proofs.Pointwise

namespace RustFlow

open Attempt Ast

/-- An expression with control flow is no value. -/
theorem Scope.lowerExpr_isControlFlow (s : Scope) {e : Expr} (h : e.isControlFlow = true)
    (c : Context) (t : Term) (c' : Context) : s.lowerExpr e c ≠ (.ok t, c') := by
  intro hrun
  cases e <;> simp only [Expr.isControlFlow, Bool.false_eq_true] at h <;>
    · rw [lowerExpr] at hrun
      cases hrun

namespace Statement

/-- Whether a statement leaves the function with a value. -/
def isReturnValue (s : Statement) : Bool :=
  match s.kind with
  | .returnValue _ => true
  | _ => false

end Statement

/-- The statements that lowering adds: no `ret`, and a returned value only in a
function with a result. -/
def Setting.Allows (set : Setting) (s : Statement) : Prop :=
  match s.kind with
  | .ret => False
  | .returnValue _ => set.returnsUnit = false
  | _ => True

theorem Setting.allows_ofTerm (set : Setting) (t : Term) : set.Allows (.ofTerm t) := trivial

theorem Setting.allows_noOp (set : Setting) (pos : Position) : set.Allows (.noOp pos) := trivial

theorem Setting.allows_written (set : Setting) (t : Option Term) (pos : Position) :
    set.Allows ⟨.writtenReturn t, pos⟩ := trivial

theorem Setting.allows_returnValue {set : Setting} (h : set.returnsUnit = false) (t : Term)
    (pos : Position) : set.Allows ⟨.returnValue t, pos⟩ := h

namespace Body

/-- The number of nodes so far. -/
def size (b : Body) : Nat := b.graph.slots.length

/-- A node of the construct that starts at `base`. -/
def Placed (base : Nat) (b : Body) (n : NodeId) : Prop := base ≤ n ∧ b.graph.contains n = true

/-- A node of the construct that starts at `base` which edges may leave. -/
def Open (base : Nat) (b : Body) (n : NodeId) : Prop :=
  base ≤ n ∧ ∃ s, b.graph.node? n = some s ∧ s.isReturnValue = false

theorem Open.placed {base : Nat} {b : Body} {n : NodeId} (h : Open base b n) :
    Placed base b n := by
  obtain ⟨hle, s, hs, -⟩ := h
  exact ⟨hle, Graph.contains_of_node? hs⟩

/-- A frame with more hops; the new ones are no-ops of the construct that starts
at `base`. -/
structure FrameGrew (base : Nat) (g : Graph) (f f' : LoopFrame) : Prop where
  label : f'.label = f.label
  hops : ∃ bs cs, f'.breaks = f.breaks ++ bs ∧ f'.continues = f.continues ++ cs ∧
    ∀ h ∈ bs ++ cs, base ≤ h ∧ ∃ s, g.node? h = some s ∧ s.isNoOp = true

/-- What may have been added between two states by a construct that starts at
`base`. -/
structure Grew (set : Setting) (base : Nat) (b b' : Body) : Prop where
  slots : ∃ ss : List Statement,
    b'.graph.slots = b.graph.slots ++ ss.map some ∧ ∀ s ∈ ss, set.Allows s
  edges : ∃ es : List Edge, b'.graph.edges = es ++ b.graph.edges ∧
    ∀ e ∈ es, Open base b' e.source ∧ Placed base b' e.target
  vacant : b'.graph.vacant = []
  entries : b'.graph.entries = b.graph.entries
  faults : b'.graph.faults = b.graph.faults
  loops : List.Forall₂ (FrameGrew base b'.graph) b.loops b'.loops

variable {set : Setting} {base : Nat} {b b' b₁ : Body}

/-! ### What growing keeps -/

theorem Grew.size_le (h : Grew set base b b') : b.size ≤ b'.size := by
  obtain ⟨ss, hss, -⟩ := h.slots
  rw [size, size, hss, List.length_append]
  exact Nat.le_add_right _ _

theorem Grew.node? (h : Grew set base b b') {n : NodeId} {s : Statement}
    (hn : b.graph.node? n = some s) : b'.graph.node? n = some s := by
  obtain ⟨ss, hss, -⟩ := h.slots
  have hlt := Graph.lt_of_contains (Graph.contains_of_node? hn)
  rw [Graph.node?, hss, List.getElem?_append_left hlt]
  exact hn

theorem Grew.open (h : Grew set base b b') {k : Nat} {n : NodeId} (hn : Open k b n) :
    Open k b' n := by
  obtain ⟨hle, s, hs, hr⟩ := hn
  exact ⟨hle, s, h.node? hs, hr⟩

theorem Grew.placed (h : Grew set base b b') {k : Nat} {n : NodeId} (hn : Placed k b n) :
    Placed k b' n := by
  obtain ⟨hle, hc⟩ := hn
  obtain ⟨s, hs⟩ := Graph.contains_iff.1 hc
  exact ⟨hle, Graph.contains_of_node? (h.node? hs)⟩

theorem Open.mono {k : Nat} (hk : base ≤ k) {n : NodeId} (h : Open k b n) : Open base b n :=
  ⟨Nat.le_trans hk h.1, h.2⟩

theorem Placed.mono {k : Nat} (hk : base ≤ k) {n : NodeId} (h : Placed k b n) :
    Placed base b n :=
  ⟨Nat.le_trans hk h.1, h.2⟩

theorem FrameGrew.refl {g : Graph} (f : LoopFrame) : FrameGrew base g f f :=
  ⟨rfl, [], [], (List.append_nil _).symm, (List.append_nil _).symm, by simp⟩

theorem Grew.refl (hv : b.graph.vacant = []) : Grew set base b b where
  slots := ⟨[], by simp, by simp⟩
  edges := ⟨[], rfl, by simp⟩
  vacant := hv
  entries := rfl
  faults := rfl
  loops := List.forall₂_same.2 fun f _ => FrameGrew.refl f

theorem FrameGrew.trans {f f₁ f' : LoopFrame} (h₁ : FrameGrew base b₁.graph f f₁)
    (h : Grew set base b₁ b') (h₂ : FrameGrew base b'.graph f₁ f') :
    FrameGrew base b'.graph f f' := by
  obtain ⟨hl₁, bs₁, cs₁, hb₁, hc₁, hh₁⟩ := h₁
  obtain ⟨hl₂, bs₂, cs₂, hb₂, hc₂, hh₂⟩ := h₂
  refine ⟨hl₂.trans hl₁, bs₁ ++ bs₂, cs₁ ++ cs₂, ?_, ?_, ?_⟩
  · rw [hb₂, hb₁, List.append_assoc]
  · rw [hc₂, hc₁, List.append_assoc]
  · intro n hn
    simp only [List.mem_append] at hh₁ hh₂ hn
    have hold : n ∈ bs₁ ∨ n ∈ cs₁ → base ≤ n ∧ ∃ s, b'.graph.node? n = some s ∧ s.isNoOp = true := by
      intro hn
      obtain ⟨hle, s, hs, hno⟩ := hh₁ n hn
      exact ⟨hle, s, h.node? hs, hno⟩
    rcases hn with (hn | hn) | (hn | hn)
    · exact hold (.inl hn)
    · exact hh₂ n (.inl hn)
    · exact hold (.inr hn)
    · exact hh₂ n (.inr hn)

theorem Grew.trans (h₁ : Grew set base b b₁) (h₂ : Grew set base b₁ b') :
    Grew set base b b' where
  slots := by
    obtain ⟨ss₁, hs₁, ha₁⟩ := h₁.slots
    obtain ⟨ss₂, hs₂, ha₂⟩ := h₂.slots
    refine ⟨ss₁ ++ ss₂, by rw [hs₂, hs₁, List.map_append, List.append_assoc], fun s hs => ?_⟩
    exact (List.mem_append.1 hs).elim (ha₁ s) (ha₂ s)
  edges := by
    obtain ⟨es₁, he₁, hp₁⟩ := h₁.edges
    obtain ⟨es₂, he₂, hp₂⟩ := h₂.edges
    refine ⟨es₂ ++ es₁, by rw [he₂, he₁, List.append_assoc], fun e he => ?_⟩
    rcases List.mem_append.1 he with he | he
    · exact hp₂ e he
    · exact ⟨h₂.open (hp₁ e he).1, h₂.placed (hp₁ e he).2⟩
  vacant := h₂.vacant
  entries := h₂.entries.trans h₁.entries
  faults := h₂.faults.trans h₁.faults
  loops := forall₂_trans (fun _ _ _ hf hg => hf.trans h₂ hg) h₁.loops h₂.loops

theorem Grew.mono {k : Nat} (hk : base ≤ k) (h : Grew set k b b') : Grew set base b b' where
  slots := h.slots
  edges := by
    obtain ⟨es, he, hp⟩ := h.edges
    exact ⟨es, he, fun e hm => ⟨(hp e hm).1.mono hk, (hp e hm).2.mono hk⟩⟩
  vacant := h.vacant
  entries := h.entries
  faults := h.faults
  loops := h.loops.imp fun f f' hf => by
    obtain ⟨hl, bs, cs, hb, hc, hh⟩ := hf
    exact ⟨hl, bs, cs, hb, hc, fun n hn => ⟨Nat.le_trans hk (hh n hn).1, (hh n hn).2⟩⟩

/-! ### Computations that grow a body -/

variable {α β : Type}

/-- A computation grows a body whether or not it succeeds, and what it gives has a
property. -/
def Ensures (set : Setting) (base : Nat) (m : Attempt Body α) (b : Body)
    (Q : α → Body → Prop) : Prop :=
  Grew set base b (m b).2 ∧ ∀ a, (m b).1 = .ok a → Q a (m b).2

theorem Ensures.of_run {m : Attempt Body α} {Q : α → Body → Prop} {out : Except Error α}
    (hrun : m b = (out, b')) (hg : Grew set base b b') (hq : ∀ a, out = .ok a → Q a b') :
    Ensures set base m b Q := by
  unfold Ensures
  rw [hrun]
  exact ⟨hg, hq⟩

theorem Ensures.imp {m : Attempt Body α} {Q R : α → Body → Prop} (h : Ensures set base m b Q)
    (hqr : ∀ a b', Grew set base b b' → Q a b' → R a b') : Ensures set base m b R :=
  ⟨h.1, fun a ha => hqr a _ h.1 (h.2 a ha)⟩

/-- **Growth goes through a sequence.** -/
theorem Ensures.bind {m : Attempt Body α} {f : α → Attempt Body β} {Q : α → Body → Prop}
    {R : β → Body → Prop} (hm : Ensures set base m b Q)
    (hf : ∀ a b₁, Grew set base b b₁ → Q a b₁ → Ensures set base (f a) b₁ R) :
    Ensures set base (m >>= f) b R := by
  obtain ⟨hg, hq⟩ := hm
  unfold Ensures
  rw [bind_run]
  rcases hrun : m b with ⟨e | a, b₁⟩
  · rw [hrun] at hg
    exact ⟨hg, fun a ha => by cases ha⟩
  · rw [hrun] at hg hq
    obtain ⟨hg', hr⟩ := hf a b₁ hg (hq a rfl)
    exact ⟨hg.trans hg', hr⟩

theorem Ensures.pure (hv : b.graph.vacant = []) {a : α} {Q : α → Body → Prop} (hq : Q a b) :
    Ensures set base (pure a) b Q :=
  .of_run (pure_run a b) (.refl hv) fun _ h => by cases h; exact hq

theorem Ensures.get (hv : b.graph.vacant = []) :
    Ensures set base (get : Attempt Body Body) b fun a b' => a = b ∧ b' = b :=
  .of_run (get_run b) (.refl hv) fun _ h => by cases h; exact ⟨rfl, rfl⟩

theorem Ensures.throw (hv : b.graph.vacant = []) (e : Error) {Q : α → Body → Prop} :
    Ensures set base (throw e) b Q :=
  .of_run (throw_run _ b) (.refl hv) fun _ h => by cases h

theorem Grew.of_graph (hv : b.graph.vacant = []) (hgraph : b'.graph = b.graph)
    (hloops : b'.loops = b.loops) : Grew set base b b' := by
  refine ⟨⟨[], by simp [hgraph], by simp⟩, ⟨[], by simp [hgraph], by simp⟩, hgraph ▸ hv,
    congrArg Graph.entries hgraph, congrArg Graph.faults hgraph, ?_⟩
  rw [hloops]
  exact List.forall₂_same.2 fun f _ => FrameGrew.refl f

theorem Ensures.onContext (hv : b.graph.vacant = []) (m : Attempt Context α) :
    Ensures set base (Body.onContext m) b fun _ _ => True :=
  .of_run (zoom_run _ _ m b) (.of_graph hv rfl rfl) fun _ _ => trivial

theorem node?_append {g : Graph} {s : Statement} (h : g.slots = b.graph.slots ++ [some s]) :
    g.node? b.size = some s := by
  rw [Graph.node?, h, size, List.getElem?_concat_length]
  rfl

theorem add_run (hv : b.graph.vacant = []) (s : Statement) :
    add s b =
      (.ok b.size, { b with graph := { b.graph with slots := b.graph.slots ++ [some s] } }) := by
  show (Except.ok (b.graph.addNode s).1, { b with graph := (b.graph.addNode s).2 }) = _
  unfold Graph.addNode
  rw [hv]
  simp only [size, hv]

theorem Ensures.add (hv : b.graph.vacant = []) (hbase : base ≤ b.size) {s : Statement}
    (hs : set.Allows s) :
    Ensures set base (Body.add s) b fun n b' => base ≤ n ∧ b'.graph.node? n = some s := by
  refine .of_run (add_run hv s) ?_ ?_
  · exact ⟨⟨[s], rfl, by simpa using hs⟩, ⟨[], rfl, by simp⟩, hv, rfl, rfl,
      List.forall₂_same.2 fun f _ => FrameGrew.refl f⟩
  · rintro n hn
    cases hn
    exact ⟨hbase, node?_append rfl⟩

theorem Ensures.edge (hv : b.graph.vacant = []) {u v : NodeId} (hu : Open base b u)
    (ht : Placed base b v) (k : EdgeKind) :
    Ensures set base (Body.edge u v k) b fun _ _ => True := by
  refine .of_run (modify_run _ b) ?_ fun _ _ => trivial
  refine ⟨⟨[], by simp [Graph.addEdge], by simp⟩, ⟨[⟨u, v, k⟩], rfl, ?_⟩, hv, rfl,
    Graph.faults_addEdge hu.placed.2 ht.2 k, List.forall₂_same.2 fun f _ => FrameGrew.refl f⟩
  intro e he
  obtain rfl := List.mem_singleton.1 he
  exact ⟨hu, ht⟩

/-! ### Fragments -/

/-- The ends of a fragment are nodes of the construct that starts at `base`, and
edges may leave its exit. -/
structure FragmentIn (base : Nat) (b : Body) (f : Fragment) : Prop where
  entry : Placed base b f.entry
  exit : ∀ x, f.exit = some x → Open base b x

theorem FragmentIn.mono {k : Nat} (hk : base ≤ k) {f : Fragment} (h : FragmentIn k b f) :
    FragmentIn base b f :=
  ⟨h.entry.mono hk, fun x hx => (h.exit x hx).mono hk⟩

theorem Grew.fragmentIn (h : Grew set base b b') {k : Nat} {f : Fragment}
    (hf : FragmentIn k b f) : FragmentIn k b' f :=
  ⟨h.placed hf.entry, fun x hx => h.open (hf.exit x hx)⟩

/-- A computation that adds a fragment of nodes and edges of its own. -/
def Local (set : Setting) (m : Attempt Body Fragment) : Prop :=
  ∀ b : Body, b.graph.vacant = [] → Ensures set b.size m b fun f b' => FragmentIn b.size b' f

/-- What lowers into any sink but that of a function without a result. -/
def FlowLocal (set : Setting) (flow : Sink → Attempt Body Fragment) : Prop :=
  ∀ sink : Sink, (sink.isReturned = true → set.returnsUnit = false) → Local set (flow sink)

/-- What adds a fragment or nothing. -/
def LocalOption (set : Setting) (m : Attempt Body (Option Fragment)) : Prop :=
  ∀ b : Body, b.graph.vacant = [] → Ensures set b.size m b
    fun r b' => ∀ f, r = some f → FragmentIn b.size b' f

/-! ### Loops -/

/-- The hops of a frame are no-ops of the construct that starts at `base`. -/
def HopsIn (base : Nat) (b : Body) (frame : LoopFrame) : Prop :=
  ∀ h ∈ frame.breaks ++ frame.continues,
    base ≤ h ∧ ∃ s, b.graph.node? h = some s ∧ s.isNoOp = true

theorem HopsIn.open {frame : LoopFrame} (hf : HopsIn base b frame) {n : NodeId}
    (hn : n ∈ frame.breaks ++ frame.continues) : Open base b n := by
  obtain ⟨hle, s, hs, hno⟩ := hf n hn
  refine ⟨hle, s, hs, ?_⟩
  unfold Statement.isNoOp at hno
  unfold Statement.isReturnValue
  split at hno <;> simp_all

theorem inLoop_run {label : Option String} {body : Attempt Body Fragment}
    {out : Except Error Fragment} {after : Body} {frame : LoopFrame} {frames : List LoopFrame}
    (hout : body { b with loops := .ofLabel label :: b.loops } = (out, after))
    (hloops : after.loops = frame :: frames) :
    inLoop label body b = (out.map fun f => (f, frame), { after with loops := frames }) := by
  simp only [inLoop, hout, hloops, List.head?_cons, Option.getD_some, List.tail_cons]

/-- Inside a loop the frames around grow as they would outside, and the frame of
the loop collects hops of its body. -/
theorem Ensures.inLoop (label : Option String) {body : Attempt Body Fragment}
    (hbody : Ensures set base body { b with loops := .ofLabel label :: b.loops }
      fun f b' => FragmentIn base b' f) :
    Ensures set base (Body.inLoop label body) b
      fun r b' => FragmentIn base b' r.1 ∧ HopsIn base b' r.2 := by
  obtain ⟨hg, hq⟩ := hbody
  rcases hout : body { b with loops := .ofLabel label :: b.loops } with ⟨out, after⟩
  simp only [hout] at hg hq
  obtain ⟨frame, frames, hframe, hframes, hloops⟩ := List.forall₂_cons_left_iff.1 hg.loops
  refine .of_run (inLoop_run hout hloops) ?_ ?_
  · exact ⟨hg.slots, hg.edges, hg.vacant, hg.entries, hg.faults, hframes⟩
  · intro r hr
    rcases out with e | f
    · cases hr
    · cases hr
      have hf := hq f rfl
      refine ⟨⟨hf.entry, hf.exit⟩, ?_⟩
      obtain ⟨-, bs, cs, hb, hc, hh⟩ := hframe
      intro n hn
      rw [hb, hc] at hn
      exact hh n hn

theorem FrameGrew.addHop {g : Graph} {n : NodeId} (hle : base ≤ n)
    (hs : ∃ s, g.node? n = some s ∧ s.isNoOp = true) (kind : Jump) (f : LoopFrame) :
    FrameGrew base g f (f.addHop kind n) := by
  cases kind with
  | leave => exact ⟨rfl, [n], [], rfl, (List.append_nil _).symm, by simpa using ⟨hle, hs⟩⟩
  | next => exact ⟨rfl, [], [n], (List.append_nil _).symm, rfl, by simpa using ⟨hle, hs⟩⟩

theorem Ensures.jump (hv : b.graph.vacant = []) (hbase : base ≤ b.size) (scope : Scope) (kind : Jump)
    (label : Option String) (pos : Position) :
    Ensures set base (Body.jump scope kind label pos) b fun f b' => FragmentIn base b' f := by
  refine (Ensures.get hv).bind fun now b₁ hg₁ hb => ?_
  cases targetLoop now.loops label with
  | none => exact .throw hg₁.vacant _
  | some i =>
    refine (Ensures.add hg₁.vacant (Nat.le_trans hbase hg₁.size_le) (set.allows_noOp pos)).bind
      fun hop b₂ hg₂ hhop => ?_
    have hnoOp : ∃ s, b₂.graph.node? hop = some s ∧ s.isNoOp = true := ⟨_, hhop.2, rfl⟩
    refine Ensures.bind (Q := fun _ b' => b'.graph = b₂.graph)
      (.of_run (modify_run _ b₂) ?_ fun _ _ => rfl) fun _ b₃ hg₃ hb₃ => ?_
    · refine ⟨⟨[], by simp, by simp⟩, ⟨[], rfl, by simp⟩, hg₂.vacant, rfl, rfl, ?_⟩
      exact forall₂_modify FrameGrew.refl (.addHop hhop.1 hnoOp kind) _ _
    · refine .pure hg₃.vacant ⟨⟨hhop.1, ?_⟩, fun x hx => by cases hx⟩
      rw [hb₃]
      exact Graph.contains_of_node? hhop.2

/-! ### Every construct -/

/-- A state while a construct is lowered that starts at `base`. -/
structure Stage where
  base : Nat
  body : Body
  vacant : body.graph.vacant = []
  fits : base ≤ body.size

/-- Lowering in one setting grows a body by statements that another allows. -/
def growth (set allowed : Setting) : Judgement where
  left := set
  right := set
  World := Stage
  Later w x := x.base = w.base ∧ Grew allowed w.base w.body x.body
  At w b b' := b = w.body ∧ b' = b
  Holds w V m _ := Ensures allowed w.base m w.body fun v b =>
    ∃ x : Stage, x.base = w.base ∧ x.body = b ∧ V x v v
  Types _ _ _ := True
  Terms _ _ _ := True
  Patterns _ := Eq
  Ascribed _ _ _ _ _ := True
  Source w := Open w.base w.body
  Target w := Placed w.base w.body
  Returns := allowed.returnsUnit = false

section Holds

variable {allowed : Setting} {w : Stage} {m m' : Attempt Body α} {V : Stage → α → α → Prop}

theorem holds_growth : (growth set allowed).Holds w V m m' ↔
    Ensures allowed w.base m w.body fun v b =>
      ∃ x : Stage, x.base = w.base ∧ x.body = b ∧ V x v v := Iff.rfl

theorem Ensures.holds {Q : α → Body → Prop} (h : Ensures allowed w.base m w.body Q)
    (hv : ∀ (x : Stage) v, x.base = w.base → Q v x.body → V x v v) :
    (growth set allowed).Holds w V m m' := by
  refine holds_growth.2 (h.imp fun v b hg hq => ?_)
  let x : Stage := ⟨w.base, b, hg.vacant, Nat.le_trans w.fits hg.size_le⟩
  exact ⟨x, rfl, rfl, hv x v rfl hq⟩

theorem growth_onContext {act act' : Attempt Context α} (hv : ∀ x v, V x v v) :
    (growth set allowed).Holds w V (Body.onContext act) (Body.onContext act') :=
  (Ensures.onContext w.vacant act).holds fun x v _ _ => hv x v

end Holds

theorem fragments_growth {allowed : Setting} {k : Nat} {x : Stage} {f : Fragment} (hx : x.base = k)
    (h : FragmentIn k x.body f) : (growth set allowed).Fragments x f f := by
  subst hx
  exact ⟨rfl, h.entry, h.exit⟩

theorem Judgement.Fragments.fragmentIn {allowed : Setting} {k : Nat} {x : Stage} {f f' : Fragment}
    (h : (growth set allowed).Fragments x f f') (hx : x.base = k) : FragmentIn k x.body f := by
  subst hx
  exact ⟨h.entry, h.exit⟩

theorem sound_growth {allowed : Setting}
    (hunit : set.returnsUnit = false → allowed.returnsUnit = false) : (growth set allowed).Sound where
  trans h₁ h₂ := ⟨h₂.1.trans h₁.1, h₁.2.trans (h₁.1 ▸ h₂.2)⟩
  types_later _ h := h
  terms_later _ h := h
  patterns_later _ h := h
  ascribed_later _ h := h
  source_later {w x n} h hn := show Open x.base x.body n from h.1 ▸ h.2.open hn
  target_later {w x n} h hn := show Placed x.base x.body n from h.1 ▸ h.2.placed hn
  target h := h.placed
  returnsUnit := rfl
  returns := hunit
  incoming n h := by rw [h.2]
  unknown _ := trivial
  type _ := trivial
  ascription _ _ := trivial
  unascribed _ := trivial
  binding _ _ := rfl
  shape {w p q} h v := by rw [show p = q from h]
  var _ _ _ := trivial
  assign _ _ := trivial
  declare _ _ _ _ := trivial
  nextStep _ _ _ _ := trivial
  stepGuard _ _ := trivial
  pure {α w v V} h := holds_growth.2 (.pure w.vacant ⟨w, rfl, rfl, h⟩)
  bind {α β w V W m m' f f'} h hf := by
    refine holds_growth.2 ((holds_growth.1 h).bind fun v b hg hv => ?_)
    obtain ⟨x, hbase, rfl, hv⟩ := hv
    have hnext := holds_growth.1 (hf x v v ⟨hbase, hg⟩ hv)
    rw [hbase] at hnext
    exact hnext
  get {α w V f f'} h := by
    refine holds_growth.2 ((Ensures.get w.vacant).bind fun a b hg hb => ?_)
    obtain ⟨rfl, rfl⟩ := hb
    exact h w w.body w.body ⟨rfl, hg⟩ ⟨rfl, rfl⟩
  refuse {α w V} what pos :=
    Ensures.holds (Q := fun _ _ => False) (.throw w.vacant _) fun _ _ _ h => h.elim
  lowerExpr _ := growth_onContext fun _ _ => trivial
  lowerPat _ := growth_onContext fun _ _ => rfl
  armTest _ _ _ := growth_onContext fun _ _ => ⟨trivial, rfl⟩
  letHead {α w V} pat ascription f f' hf := by
    refine holds_growth.2 ((Ensures.onContext w.vacant _).bind fun o b₁ hg₁ _ => ?_)
    refine (Ensures.onContext hg₁.vacant _).bind fun p b₂ hg₂ _ => ?_
    refine (Ensures.get hg₂.vacant).bind fun _ _ _ hb => ?_
    rw [hb.1, hb.2]
    have hgrew := hg₁.trans hg₂
    exact hf ⟨w.base, b₂, hgrew.vacant, Nat.le_trans w.fits hgrew.size_le⟩ b₂ b₂ o o p p
      ⟨rfl, hgrew⟩ ⟨rfl, rfl⟩ rfl trivial
  bindVariable _ _ := growth_onContext fun _ _ => trivial
  bindPattern _ _ := growth_onContext fun _ _ => trivial
  freshName {w} := Ensures.holds (Q := fun _ _ => True)
    (.of_run (modifyGet_run _ _) (.of_graph w.vacant rfl rfl) fun _ _ => trivial)
    fun _ _ _ _ => rfl
  add {w s s'} h := by
    have hs : allowed.Allows s ∧ s.isReturnValue = false := by cases h <;> exact ⟨trivial, rfl⟩
    exact (Ensures.add w.vacant w.fits hs.1).holds fun x n hx hn => ⟨rfl, hx ▸ hn.1, s, hn.2, hs.2⟩
  addValue {w t t'} hr _ := (Ensures.add w.vacant w.fits (Setting.allows_returnValue hr t _)).holds
    fun x n hx hn => ⟨rfl, hx ▸ hn.1, Graph.contains_of_node? hn.2⟩
  edge {w n m} kind hn hm := (Ensures.edge w.vacant hn hm kind).holds fun _ _ _ _ => trivial
  inLoop {w} label body body' hbody := by
    let inside : Stage := ⟨w.base, { w.body with loops := .ofLabel label :: w.body.loops }, w.vacant, w.fits⟩
    have hin : Ensures allowed inside.base body inside.body fun f b => FragmentIn inside.base b f :=
      (holds_growth.1 (hbody inside)).imp fun f b _ hf => by
        obtain ⟨x, hbase, rfl, hf⟩ := hf
        exact hf.fragmentIn hbase
    exact (Ensures.inLoop label hin).holds fun x r hx hr =>
      ⟨fragments_growth hx hr.1, rfl, fun n hn => show Open x.base x.body n from hx ▸ hr.2.open hn⟩
  jump {w} kind label pos := (Ensures.jump w.vacant w.fits _ kind label pos).holds fun _ _ hx hf =>
    fragments_growth hx hf

section Local

variable {allowed : Setting}

theorem sinks_growth {w : Stage} {sink : Sink}
    (hsink : sink.isReturned = true → allowed.returnsUnit = false) :
    (growth set allowed).Sinks w sink sink := by
  cases sink with
  | discard => exact .discard
  | returned => exact .returned (hsink rfl)
  | assigned t => exact .assigned trivial

theorem local_of_holds {m : Attempt Body Fragment}
    (h : ∀ w, (growth set allowed).Holds w (growth set allowed).Fragments m m) : Local allowed m := by
  intro b hv
  refine (holds_growth.1 (h ⟨b.size, b, hv, Nat.le_refl _⟩)).imp fun f b' _ hf => ?_
  obtain ⟨x, hbase, rfl, hf⟩ := hf
  exact hf.fragmentIn hbase

theorem localOption_of_holds {m : Attempt Body (Option Fragment)}
    (h : ∀ w, (growth set allowed).Holds w (fun x => Option.Rel ((growth set allowed).Fragments x)) m m) :
    LocalOption allowed m := by
  intro b hv
  refine (holds_growth.1 (h ⟨b.size, b, hv, Nat.le_refl _⟩)).imp fun r b' _ hr f hf => ?_
  obtain ⟨x, hbase, rfl, hr⟩ := hr
  subst hf
  cases hr with
  | some hr => exact hr.fragmentIn hbase

end Local

theorem local_single {s : Statement} (hs : set.Allows s) (hr : s.isReturnValue = false) :
    Local set (single s) := by
  intro b hv
  refine (Ensures.add hv (Nat.le_refl _) hs).bind fun n b₁ hg hn => .pure hg.vacant ?_
  have hopen : Open b.size b₁ n := ⟨hn.1, s, hn.2, hr⟩
  exact ⟨hopen.placed, fun x hx => Option.some.inj hx ▸ hopen⟩

theorem Ensures.chain (hv : b.graph.vacant = []) (hbase : base ≤ b.size) {p next : Fragment}
    (hp : FragmentIn base b p) (hn : FragmentIn base b next) :
    Ensures set base (Body.chain (some p) next) b fun f b' => FragmentIn base b' f := by
  let w : Stage := ⟨base, b, hv, hbase⟩
  have hprevious (q : Fragment) (hq : some p = some q) : (growth set set).Fragments w q q :=
    Option.some.inj hq ▸ fragments_growth (x := w) rfl hp
  have hchain := (sound_growth id).chain hprevious (fragments_growth (x := w) rfl hn)
  refine (holds_growth.1 hchain).imp fun f b' _ hf => ?_
  obtain ⟨x, hbase, rfl, hf⟩ := hf
  exact hf.fragmentIn hbase

/-- **Every expression is lowered to nodes and edges of its own.** -/
theorem local_lowerFlow (set : Setting) (e : Expr) :
    FlowLocal set fun sink => lowerFlow set sink e :=
  fun _ hsink => local_of_holds fun _ => (sound_growth id).lowerFlow e (sinks_growth hsink)

/-- **Every block is lowered to nodes and edges of its own.** -/
theorem local_lowerBlock (set : Setting) (body : Block) :
    FlowLocal set fun sink => lowerBlock set sink body :=
  fun _ hsink => local_of_holds fun _ => (sound_growth id).lowerBlock body (sinks_growth hsink)

theorem local_lowerStmt (set : Setting) {sink : Sink}
    (hsink : sink.isReturned = true → set.returnsUnit = false) (s : Stmt) :
    LocalOption set (lowerStmt set sink s) :=
  localOption_of_holds fun _ => (sound_growth id).lowerStmt s (sinks_growth hsink)

theorem local_lowerOtherwise (set : Setting) {sink : Sink}
    (hsink : sink.isReturned = true → set.returnsUnit = false) (otherwise : Option Block)
    (m : Attempt Body Fragment) (hm : lowerOtherwise set sink otherwise = some m) :
    Local set m := by
  cases otherwise with
  | none => cases hm
  | some body =>
    cases hm
    exact local_lowerBlock set body sink hsink

/-- A chain has guards just if it has clauses. -/
theorem isNone_of_lowerClauses {sink : Sink} {c : NodeId} {pending : Option NodeId}
    {clauses : List Clause} {r : Option Guards}
    (h : lowerClauses set sink c pending clauses b = (.ok r, b')) : r.isNone = clauses.isEmpty := by
  cases clauses with
  | nil =>
    cases h
    rfl
  | cons clause rest =>
    obtain ⟨condition, body⟩ := clause
    rw [lowerClauses] at h
    obtain ⟨_, _, -, h⟩ := bind_ok h
    obtain ⟨_, _, -, h⟩ := bind_ok h
    obtain ⟨_, _, -, h⟩ := bind_ok h
    cases h
    rfl

/-! ### Lowered bodies -/

/-- What is known of a graph that lowering built from nothing. -/
structure Lowered (set : Setting) (g : Graph) : Prop where
  tidy : g.Tidy
  entries : g.entries = []
  allowed : ∀ n s, g.node? n = some s → set.Allows s
  /-- No edge leaves a node that returns a value. -/
  ended : ∀ e ∈ g.edges, ∀ s, g.node? e.source = some s → s.isReturnValue = false

theorem Grew.lowered {c : Context} (h : Grew set base (.start c) b) : Lowered set b.graph := by
  obtain ⟨ss, hss, hallowed⟩ := h.slots
  obtain ⟨es, hes, hends⟩ := h.edges
  replace hes : b.graph.edges = es := hes.trans (List.append_nil es)
  refine ⟨⟨?_, ?_, ?_, h.faults⟩, h.entries, ?_, ?_⟩
  · exact fun e he => ⟨(hends e (hes ▸ he)).1.placed.2, (hends e (hes ▸ he)).2.2⟩
  · intro n hn
    rw [h.vacant] at hn
    cases hn
  · rw [h.vacant]
    exact List.nodup_nil
  · intro n s hs
    replace hss : b.graph.slots = ss.map .some := hss
    rw [Graph.node?, hss, List.getElem?_map] at hs
    cases hget : ss[n]? with
    | none =>
      rw [hget] at hs
      cases hs
    | some s' =>
      rw [hget] at hs
      cases hs
      exact hallowed _ (List.mem_of_getElem? hget)
  · intro e he s hs
    obtain ⟨-, s', hs', hr⟩ := (hends e (hes ▸ he)).1
    cases hs.symm.trans hs'
    exact hr

/-- **A body is lowered to a graph of this kind,** also as far as it got if it is
refused; the fragment starts at one of its nodes. -/
theorem lowered_lower (set : Setting) (body : Block) (c : Context) :
    Lowered set (lower set body (.start c)).2.graph ∧
      ∀ f, (lower set body (.start c)).1 = .ok f →
        (lower set body (.start c)).2.graph.contains f.entry = true := by
  have hsink : (if set.returnsUnit = true then Sink.discard else .returned).isReturned = true →
      set.returnsUnit = false := by
    cases set.returnsUnit <;> simp [Sink.isReturned]
  obtain ⟨hg, hf⟩ := local_lowerBlock set body _ hsink (.start c) rfl
  exact ⟨hg.lowered, fun f h => (hf f h).entry.2⟩

end Body
end RustFlow
