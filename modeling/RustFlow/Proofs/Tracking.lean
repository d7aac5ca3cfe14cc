/-
# Lowering keeps step with reading

A construct is lowered by a computation on a `Body` and read by one on a
`Reading`.  `Body.Follows` says that the two keep step: if lowering succeeds, so
does reading, and both end with the same names bound.  Nodes and edges are added
on the side of the body alone; `Wired` says which edges.

`Tracks` is the statement for a construct: its fragment realizes the behaviour
that is read.  Each combinator of fragments tracks the behaviour it stands for if
its parts do.
-/

import RustFlow.Proofs.Simulation

namespace RustFlow
namespace Body

open Graph Attempt

variable {α β γ δ : Type} {set : Setting} {exact : Prop} {b b' b₀ b₁ b₂ : Body} {f : Fragment}
  {n m x c : NodeId} {k : Jump} {i : Nat} {w : List Edge} {e : Edge}

/-- What the reading of a body keeps of the state of its lowering. -/
def reading (b : Body) : Reading := ⟨b.context, b.fresh⟩

/-- Whenever lowering succeeds, reading does and ends in the same state. -/
def Follows (act : Attempt Body α) (read : Attempt Reading β) (b : Body)
    (Q : α → β → Body → Prop) : Prop :=
  ∀ a b', act b = (.ok a, b') → ∃ v, read b.reading = (.ok v, b'.reading) ∧ Q a v b'

namespace Follows

variable {act : Attempt Body α} {read : Attempt Reading β} {Q : α → β → Body → Prop}

theorem imp {R : α → β → Body → Prop} (h : Follows act read b Q)
    (hqr : ∀ a v b', Q a v b' → R a v b') : Follows act read b R := by
  intro a b' hrun
  obtain ⟨v, hv, hq⟩ := h a b' hrun
  exact ⟨v, hv, hqr a v b' hq⟩

/-- **Two sequences keep step if their parts do.** -/
theorem bind {next : α → Attempt Body γ} {then' : β → Attempt Reading δ}
    {R : γ → δ → Body → Prop} (h : Follows act read b Q)
    (hnext : ∀ a v b₁, Q a v b₁ → Follows (next a) (then' v) b₁ R) :
    Follows (act >>= next) (read >>= then') b R := by
  intro r b' hrun
  obtain ⟨a, b₁, hact, hrest⟩ := bind_ok hrun
  obtain ⟨v, hv, hq⟩ := h a b₁ hact
  obtain ⟨u, hu, hr⟩ := hnext a v b₁ hq r b' hrest
  exact ⟨u, by rw [bind_run, hv]; exact hu, hr⟩

theorem andThen {next : α → Attempt Body γ} {R : γ → β → Body → Prop} (h : Follows act read b Q)
    (hnext : ∀ a v b₁, Q a v b₁ → Follows (next a) (Pure.pure v) b₁ R) :
    Follows (act >>= next) read b R := by
  intro r b' hrun
  obtain ⟨a, b₁, hact, hrest⟩ := bind_ok hrun
  obtain ⟨v, hv, hq⟩ := h a b₁ hact
  obtain ⟨u, hu, hr⟩ := hnext a v b₁ hq r b' hrest
  rw [pure_run, Prod.mk.injEq, Except.ok.injEq] at hu
  obtain ⟨rfl, hu⟩ := hu
  exact ⟨v, hu ▸ hv, hr⟩

theorem mapRead (g : β → δ) {R : α → δ → Body → Prop} (h : Follows act read b Q)
    (hqr : ∀ a v b', Q a v b' → R a (g v) b') :
    Follows act (read >>= fun v => Pure.pure (g v)) b R := by
  intro a b' hrun
  obtain ⟨v, hv, hq⟩ := h a b' hrun
  exact ⟨g v, by rw [bind_run, hv]; rfl, hqr a v b' hq⟩

theorem pure {a : α} {v : β} (hq : Q a v b) : Follows (Pure.pure a) (Pure.pure v) b Q := by
  intro r b' hrun
  cases hrun
  exact ⟨v, rfl, hq⟩

theorem alone {step : Attempt Body γ} {next : γ → Attempt Body α} {r : γ}
    (hrun : step b = (.ok r, b₁)) (hread : b₁.reading = b.reading)
    (h : Follows (next r) read b₁ Q) : Follows (step >>= next) read b Q := by
  intro a b' hall
  obtain ⟨r', b₂, hstep, hrest⟩ := bind_ok hall
  cases hrun.symm.trans hstep
  obtain ⟨v, hv, hq⟩ := h a b' hrest
  exact ⟨v, hread ▸ hv, hq⟩

theorem map (g : α → γ) {R : γ → β → Body → Prop} (h : Follows act read b Q)
    (hqr : ∀ a v b', Q a v b' → R (g a) v b') : Follows (g <$> act) read b R := by
  intro r b' hrun
  obtain ⟨a, hact, rfl⟩ := map_ok hrun
  obtain ⟨v, hv, hq⟩ := h a b' hact
  exact ⟨v, hv, hqr a v b' hq⟩

theorem fails {err : Error} : Follows (throw err) read b Q := by
  intro a b' hrun
  cases hrun

theorem ranContext (act : Attempt Context α) :
    Follows (Body.onContext act) (Reading.onContext act) b
      fun a v b' => (∃ c c', act c = (.ok a, c')) ∧ v = a ∧ b'.graph = b.graph ∧ b'.loops = b.loops := by
  intro a b' hrun
  obtain ⟨c, hact, rfl⟩ := zoom_ok hrun
  refine ⟨a, ?_, ⟨_, _, hact⟩, rfl, rfl, rfl⟩
  show zoom .. = _
  rw [zoom_run, show b.reading.context = b.context from rfl, hact]
  rfl

theorem onContext (act : Attempt Context α) :
    Follows (Body.onContext act) (Reading.onContext act) b
      fun a v b' => v = a ∧ b'.graph = b.graph ∧ b'.loops = b.loops :=
  (ranContext act).imp fun _ _ _ h => h.2

theorem get {next : Body → Attempt Body α} {then' : Reading → Attempt Reading β}
    (h : Follows (next b) (then' b.reading) b Q) :
    Follows (MonadState.get >>= next) (MonadState.get >>= then') b Q := h

theorem freshName : Follows (Body.freshName set) (Reading.freshName set) b
    fun a v b' => v = a ∧ b'.graph = b.graph ∧ b'.loops = b.loops := by
  intro a b' hrun
  cases hrun
  exact ⟨_, rfl, rfl, rfl, rfl⟩

theorem add (hv : b.graph.vacant = []) {s : Statement} {next : NodeId → Attempt Body α}
    (h : Follows (next b.size) read (b.withNode s) Q) : Follows (Body.add s >>= next) read b Q :=
  alone (add_run hv s) rfl h

end Follows

/-! ### Adding edges -/

/-- A state with some more edges and nothing else. -/
structure Wired (new : Edge → Prop) (b b' : Body) : Prop where
  slots : b'.graph.slots = b.graph.slots
  vacant : b'.graph.vacant = b.graph.vacant
  loops : b'.loops = b.loops
  reading : b'.reading = b.reading
  mem_edges : ∀ e, e ∈ b'.graph.edges ↔ e ∈ b.graph.edges ∨ new e

namespace Wired

variable {new new' : Edge → Prop}

theorem refl (b : Body) : Wired (fun _ => False) b b :=
  ⟨rfl, rfl, rfl, rfl, fun _ => (or_false _).symm.to_iff⟩

theorem imp (h : Wired new b b') (hnew : ∀ e, new e ↔ new' e) : Wired new' b b' :=
  ⟨h.slots, h.vacant, h.loops, h.reading, fun e => (h.mem_edges e).trans (or_congr_right (hnew e))⟩

theorem size (h : Wired new b b') : b'.size = b.size := congrArg List.length h.slots

theorem node? (h : Wired new b b') (n : NodeId) : b'.graph.node? n = b.graph.node? n := by
  rw [Graph.node?, Graph.node?, h.slots]

theorem later (h : Wired new b b') : Extends b b' := by
  have hhop : ∀ k i x, Hop b' k i x ↔ Hop b k i x := fun k i x => by simp only [Hop, h.loops]
  exact ⟨Nat.le_of_eq h.size.symm, fun n _ => h.node? n, fun e he => (h.mem_edges e).2 (.inl he),
    fun k i x => (hhop k i x).2, fun k i x hx _ => (hhop k i x).1 hx⟩

theorem trans (h : Wired new b b₁) (h' : Wired new' b₁ b') :
    Wired (fun e => new e ∨ new' e) b b' where
  slots := h'.slots.trans h.slots
  vacant := h'.vacant.trans h.vacant
  loops := h'.loops.trans h.loops
  reading := h'.reading.trans h.reading
  mem_edges e := by rw [h'.mem_edges, h.mem_edges, or_assoc]

theorem sound (h : Wired new b b') (hb : Sound b)
    (hnew : ∀ e, new e → b.graph.contains e.source = true ∧ b.graph.contains e.target = true) :
    Sound b' := by
  refine ⟨fun e he => ?_, h.vacant.trans hb.vacant, ?_⟩
  · rw [contains, contains, h.node?, h.node?]
    exact ((h.mem_edges e).1 he).elim (hb.joined e) (hnew e)
  · intro k i x hx
    rw [h.size]
    exact hb.hop_lt k i x (by simpa only [Hop, h.loops] using hx)

end Wired

/-- A computation that adds edges and nothing else. -/
def Wires (act : Attempt Body Unit) (new : Edge → Prop) : Prop :=
  ∀ b, ∃ b', act b = (.ok (), b') ∧ Wired new b b'

theorem wires_nothing : Wires (pure ()) fun _ => False := fun b => ⟨b, rfl, .refl b⟩

theorem wires_edge (u v : NodeId) (kind : EdgeKind) :
    Wires (edge u v kind) fun e => e = ⟨u, v, kind⟩ := fun _ =>
  ⟨_, rfl, rfl, rfl, rfl, rfl, fun _ => List.mem_cons.trans or_comm⟩

theorem wires_connect (exit : Option NodeId) (v : NodeId) :
    Wires (connect exit v) fun e => ∃ x, exit = some x ∧ e = ⟨x, v, .sequential⟩ := by
  cases exit with
  | none => simpa [connect] using wires_nothing
  | some x => simpa [connect] using wires_edge x v .sequential

theorem Wires.andThen {act act' : Attempt Body Unit} {new new' : Edge → Prop} (h : Wires act new)
    (h' : Wires act' new') : Wires (act >>= fun _ => act') fun e => new e ∨ new' e := by
  intro b
  obtain ⟨b₁, hrun, hw⟩ := h b
  obtain ⟨b₂, hrun', hw'⟩ := h' b₁
  exact ⟨b₂, by rw [bind_run, hrun]; exact hrun', hw.trans hw'⟩

theorem wires_edges (ns : List NodeId) (v : NodeId) :
    Wires (ns.forM fun n => edge n v .sequential) fun e => ∃ x ∈ ns, e = ⟨x, v, .sequential⟩ := by
  induction ns with
  | nil => simpa using wires_nothing
  | cons n ns ih => simpa using (wires_edge n v .sequential).andThen ih

theorem wires_resolveJumps (frame : LoopFrame) (l n : NodeId) :
    Wires (resolveJumps frame l n) fun e =>
      (∃ x ∈ frame.breaks, e = ⟨x, l, .sequential⟩) ∨
        ∃ x ∈ frame.continues, e = ⟨x, n, .sequential⟩ :=
  (wires_edges frame.breaks l).andThen (wires_edges frame.continues n)

theorem Follows.wire {act : Attempt Body Unit} {new : Edge → Prop} (hw : Wires act new)
    {next : Unit → Attempt Body α} {read : Attempt Reading β} {Q : α → β → Body → Prop}
    (h : ∀ b₁, Wired new b b₁ → Follows (next ()) read b₁ Q) :
    Follows (act >>= next) read b Q := by
  obtain ⟨b₁, hrun, hwired⟩ := hw b
  exact .alone hrun hwired.reading (h b₁ hwired)

/-! ### Constructs -/

/-- A state in which a construct inside loops with these labels is lowered. -/
structure Ready (labels : List (Option String)) (b : Body) : Prop where
  sound : Sound b
  labels : b.loops.map LoopFrame.label = labels

theorem Grew.labels {base : Nat} (h : Grew set base b b') :
    b'.loops.map LoopFrame.label = b.loops.map LoopFrame.label := by
  have hloops := h.loops
  generalize b.loops = xs at hloops ⊢
  generalize b'.loops = ys at hloops ⊢
  induction hloops with
  | nil => rfl
  | cons hf _ ih => rw [List.map_cons, List.map_cons, hf.label, ih]

theorem Sound.of_eq (hb : Sound b) (hg : b'.graph = b.graph) (hl : b'.loops = b.loops) :
    Sound b' := by
  refine ⟨hg ▸ hb.joined, hg ▸ hb.vacant, fun k i x hx => ?_⟩
  rw [size, hg]
  exact hb.hop_lt k i x (by simpa only [Hop, hl] using hx)

theorem Ready.of_eq {labels : List (Option String)} (h : Ready labels b)
    (hg : b'.graph = b.graph) (hl : b'.loops = b.loops) : Ready labels b' :=
  ⟨h.sound.of_eq hg hl, hl ▸ h.labels⟩

theorem Local.part {act : Attempt Body Fragment} (h : Local set act) (hb : Sound b)
    (hrun : act b = (.ok f, b')) : Part set b b' f := by
  obtain ⟨hg, hf⟩ := h b hb.vacant
  rw [hrun] at hg hf
  exact ⟨hb, hg, hf f rfl⟩

theorem Follows.part {act : Attempt Body Fragment} {read : Attempt Reading β}
    {Q : Fragment → β → Body → Prop} (hlocal : Local set act) (hb : Sound b)
    (h : Follows act read b Q) :
    Follows act read b fun f v b' => Part set b b' f ∧ Q f v b' := by
  intro f b' hrun
  obtain ⟨v, hv, hq⟩ := h f b' hrun
  exact ⟨v, hv, hlocal.part hb hrun, hq⟩

/-- A lowered fragment realizes a behaviour, and these loops around it are left by a
`break` in it. -/
structure Tracked (exact : Prop) (breaks : List Nat) (b : Body) (f : Fragment) (B : Behaviour) :
    Prop where
  realizes : Realizes exact b f B
  left : ∀ i ∈ breaks, ∃ x, b.Hop .leave i x

/-- Lowering a construct inside loops with these labels gives a fragment that
realizes the behaviour it is read as. -/
def Tracks (exact : Prop) (labels : List (Option String)) (breaks : List Nat)
    (act : Attempt Body Fragment) (read : Attempt Reading Behaviour) : Prop :=
  ∀ b, Ready labels b → Follows act read b fun f B b' => Tracked exact breaks b' f B

variable {labels : List (Option String)} {breaks : List Nat}

theorem Tracks.afterContext {act : Attempt Context α} {next : α → Attempt Body Fragment}
    {then' : α → Attempt Reading Behaviour}
    (h : ∀ a, Tracks exact labels breaks (next a) (then' a)) :
    Tracks exact labels breaks (Body.onContext act >>= next) (Reading.onContext act >>= then') := by
  intro b hb
  refine (Follows.onContext act).bind ?_
  rintro _ a b₁ ⟨rfl, hg, hl⟩
  exact h a b₁ (hb.of_eq hg hl)

theorem tracks_refuse {what : Construct} {pos : Position} {read : Attempt Reading Behaviour} :
    Tracks exact labels breaks (set.scope.refuse what pos) read := fun _ _ => .fails

theorem single_run (hb : Sound b) (s : Statement) :
    single s b = (.ok ⟨b.size, some b.size⟩, b.withNode s) := by
  rw [single, bind_run, add_run hb.vacant]
  rfl

theorem tracks_single {s : Statement} (hw : s.isWrittenReturn = false)
    (hv : s.isReturnValue = false) :
    Tracks exact labels [] (single s)
      (pure fun run out => run = s.events .sequential ∧ out = .completes) := by
  intro b hb
  refine .add hb.sound.vacant (.pure ⟨realizes_single hb.sound hw hv, fun i hi => ?_⟩)
  cases hi

theorem tracks_written (value : Option Term) (pos : Position) :
    Tracks exact labels [] (single ⟨.writtenReturn value, pos⟩)
      (pure fun run out => run = value.toList.map .eval ∧ out = .returns) := by
  intro b hb
  refine .add hb.sound.vacant (.pure ⟨?_, fun i hi => by cases hi⟩)
  exact realizes_return hb.sound (.inr ⟨rfl, rfl⟩) rfl

/-- **A value is delivered to its sink.** -/
theorem tracks_sendTo (sink : Sink) (t : Term) :
    Tracks exact labels [] (sendTo sink t) (pure (Behaviour.delivers sink t)) := by
  cases sink with
  | discard => exact tracks_single rfl rfl
  | assigned target => exact tracks_single rfl rfl
  | returned =>
    intro b hb
    refine .add hb.sound.vacant (.pure ⟨?_, fun i hi => by cases hi⟩)
    exact realizes_return hb.sound (.inl rfl) rfl

/-! ### Sequences -/

theorem Realizes.of_eq {B : Behaviour} (h : Realizes exact b f B) (hg : b'.graph = b.graph)
    (hl : b'.loops = b.loops) : Realizes exact b' f B := by
  obtain ⟨context, graph, loops, fresh⟩ := b'
  subst hg hl
  exact ⟨h.sound, h.complete⟩

theorem Part.of_eq (h : Part set b b₁ f) (hg : b'.graph = b₁.graph) (hl : b'.loops = b₁.loops) :
    Part set b b' f := by
  obtain ⟨context, graph, loops, fresh⟩ := b'
  subst hg hl
  exact ⟨h.start, { h.grew with }, { h.ends with }⟩

theorem chain_run {p next : Fragment} (hp : Part set b b₁ p) (hn : Part set b₁ b₂ next) :
    ∃ f b₃, chain (some p) next b₂ = (.ok f, b₃) ∧ b₃.reading = b₂.reading ∧
      b₃.loops = b₂.loops ∧ Extends b₂ b₃ ∧ Part set b b₃ f ∧ ∀ A B, Realizes exact b₁ p A → Realizes exact b₂ next B →
        Realizes exact b₃ f (A.andThen B) := by
  have hle := hp.grew.size_le
  have hgrew := hp.grew.trans (hn.grew.mono hle)
  have hchain : Ensures set b.size (chain (some p) next) b₂ fun f b' => FragmentIn b.size b' f :=
    .chain hn.grew.vacant hgrew.size_le (hn.grew.fragmentIn hp.ends) (hn.ends.mono hle)
  obtain ⟨hg, hf⟩ := hchain
  cases hexit : p.exit with
  | none =>
    have hrun : chain (some p) next b₂ = (.ok p, b₂) := by simp only [chain, hexit]; rfl
    rw [hrun] at hg hf
    exact ⟨p, b₂, hrun, rfl, rfl, .refl b₂, ⟨hp.start, hgrew.trans hg, hf p rfl⟩,
      fun A B hA _ => hA.andThen_stuck hp hn hexit⟩
  | some y =>
    have hrun : chain (some p) next b₂ =
        (.ok ⟨p.entry, next.exit⟩, b₂.withEdge y next.entry .sequential) := by
      simp only [chain, hexit]
      rfl
    rw [hrun] at hg hf
    exact ⟨_, _, hrun, rfl, rfl, .withEdge .., ⟨hp.start, hgrew.trans hg, hf _ rfl⟩,
      fun A B hA hB => hA.andThen hp hn hB hexit⟩

theorem Extends.left (hx : Extends b b') (hleft : ∀ i ∈ breaks, ∃ x, b.Hop .leave i x) :
    ∀ i ∈ breaks, ∃ x, b'.Hop .leave i x := fun i hi =>
  (hleft i hi).imp fun _ h => hx.hop _ _ _ h

theorem tracks_letFlow (pos : Position) (p : Pattern) (ascription : Option String)
    (declared : Option TypeId) {flow : Sink → Attempt Body Fragment}
    (read : Sink → Attempt Reading Behaviour) (hlocal : FlowLocal set flow)
    (h : ∀ target, Tracks exact labels breaks (flow (.assigned target)) (read (.assigned target))) :
    Tracks exact labels breaks (letFlow set pos p ascription declared flow)
      (Reading.letFlow set pos p ascription declared read) := by
  intro b hb
  cases p with
  | binding v =>
    refine .alone (single_run hb.sound _) rfl ?_
    have hp := (local_single (set.allows_ofTerm _) rfl).part hb.sound (single_run hb.sound
      (.ofTerm (.mk (.declare (.binding v) ascription none) (declared.getD .unknown) pos)))
    have hb₁ : Ready labels (b.withNode _) := ⟨hp.sound, hb.labels⟩
    refine ((h _ _ hb₁).part (hlocal _ fun h => by cases h) hp.sound).bind ?_
    rintro next B b₂ ⟨hn, hB⟩
    refine (Follows.onContext _).bind ?_
    rintro _ _ b₃ ⟨rfl, hg, hl⟩
    replace hn := hn.of_eq hg hl
    obtain ⟨f, b₄, hrun, hread, -, hlater, -, hall⟩ := chain_run hp hn
    rintro _ _ hrun'
    cases hrun.symm.trans hrun'
    refine ⟨_, by rw [hread]; rfl, hall _ _ (realizes_single hb.sound rfl rfl)
      (hB.realizes.of_eq hg hl), ?_⟩
    exact ((Extends.of_eq hg hl).trans hlater).left hB.left
  | _ => exact .fails

theorem tracks_returnFlow (pos : Position) {flow : Sink → Attempt Body Fragment}
    (read : Sink → Attempt Reading Behaviour) (hlocal : FlowLocal set flow)
    (hdiscard : Tracks exact labels breaks (flow .discard) (read .discard))
    (hreturned : set.returnsUnit = false →
      Tracks exact labels breaks (flow .returned) (read .returned)) :
    Tracks exact labels breaks (returnFlow set pos flow)
      (if set.returnsUnit then do
        let value ← read .discard
        return value.andThen .returnsNow
      else read .returned) := by
  unfold returnFlow
  split
  · intro b hb
    refine ((hdiscard b hb).part (hlocal .discard fun h => by cases h) hb.sound).bind ?_
    rintro value A b₁ ⟨hp, hA⟩
    refine .alone (single_run hp.sound _) rfl ?_
    have hn := (local_single (set.allows_written none pos) rfl).part hp.sound
      (single_run hp.sound _)
    obtain ⟨f, b₂, hrun, hread, -, hlater, -, hall⟩ := chain_run hp hn
    rintro _ _ hrun'
    cases hrun.symm.trans hrun'
    refine ⟨_, by rw [hread]; rfl, hall _ _ hA.realizes
      (realizes_return hp.sound (.inr ⟨rfl, rfl⟩) rfl), ?_⟩
    exact (hn.later.trans hlater).left hA.left
  · rename_i hunit
    exact hreturned (Bool.eq_false_iff.2 hunit)

/-! ### Jumps -/

/-- The loop that a jump refers to is found by the labels alone. -/
theorem targetLoop_eq (loops : List LoopFrame) (label : Option String) :
    targetLoop loops label = targetDepth (loops.map LoopFrame.label) label := by
  cases label with
  | none => simp only [targetLoop, targetDepth, List.isEmpty_map]
  | some name => simp only [targetLoop, targetDepth, List.findIdx?_map]; rfl

theorem lt_of_targetLoop {loops : List LoopFrame} {label : Option String}
    (h : targetLoop loops label = some i) : i < loops.length := by
  cases label with
  | none =>
    simp only [targetLoop] at h
    split at h
    · cases h
    · cases h
      rename_i hne
      exact List.length_pos_iff.2 fun h => hne (List.isEmpty_iff.2 h)
  | some name => exact (List.findIdx?_eq_some_iff_findIdx_eq.1 h).1

theorem hops_addHop (frame : LoopFrame) (kind : Jump) (hop : NodeId) :
    x ∈ (frame.addHop kind hop).hops k ↔ x ∈ frame.hops k ∨ k = kind ∧ x = hop := by
  cases k <;> cases kind <;> simp [LoopFrame.addHop, LoopFrame.hops]

/-- A new hop waits for the target of its loop and for nothing else. -/
theorem hop_modify {kind : Jump} {hop : NodeId} {j : Nat} (hi : i < b.loops.length) :
    Hop { b with loops := b.loops.modify i fun f => f.addHop kind hop } k j x ↔
      Hop b k j x ∨ k = kind ∧ j = i ∧ x = hop := by
  simp only [Hop, List.getElem?_modify]
  by_cases hij : i = j
  · subst hij
    simp only [if_true, List.getElem?_eq_getElem hi, Option.map_eq_map, Option.map_some,
      Option.some.injEq, exists_eq_left', hops_addHop, true_and]
  · have hji : j ≠ i := fun h => hij h.symm
    simp only [hij, hji, if_false, false_and, and_false, or_false, Option.map_eq_map,
      Option.map_id']

/-- **A jump ends at a hop that waits for its loop.** -/
theorem tracks_jump (kind : Jump) (label : Option String) (pos : Position)
    (hbreaks : ∀ i ∈ breaks, kind = .leave ∧ targetDepth labels label = some i) :
    Tracks exact labels breaks (jump set.scope kind label pos)
      (pure (Reading.jump labels kind label)) := by
  intro b hb
  have htarget : targetLoop b.loops label = targetDepth labels label := by
    rw [targetLoop_eq, hb.labels]
  refine .alone (get_run b) rfl ?_
  unfold Reading.jump
  rw [← htarget]
  cases hi : targetLoop b.loops label with
  | none => exact .fails
  | some i =>
    refine .add hb.sound.vacant (.alone (modify_run _ _) rfl (.pure ⟨?_, fun j hj => ?_⟩))
    · refine realizes_leaf (s := .noOp pos) (hb.sound.halts_fresh _) (node?_withNode b _) ?_
      intro out
      cases out with
      | completes => simp [Ends]
      | returns =>
        simp only [Ends, ReturnsAt, node?_withNode b (.noOp pos), Option.some.injEq,
          exists_eq_left']
        simp [Statement.isWrittenReturn, Statement.isReturnValue, Statement.noOp]
      | jumps k j =>
        have hold := (hb.sound.fresh (.noOp pos)).2 k j
        exact (hop_modify (b := b.withNode (.noOp pos)) (lt_of_targetLoop hi)).trans
          (by simp [hold])
    · obtain ⟨rfl, hj⟩ := hbreaks j hj
      cases htarget.symm.trans hi |>.symm.trans hj
      exact ⟨_, (hop_modify (b := b.withNode (.noOp pos)) (lt_of_targetLoop hi)).2
        (.inr ⟨rfl, rfl, rfl⟩)⟩

end Body
end RustFlow
