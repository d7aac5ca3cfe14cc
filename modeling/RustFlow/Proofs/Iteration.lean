/-
# Loops record their runs

The body of a loop is a part like any other; what makes it a loop are the edges
that are added afterwards.  `Turning` says how control gets from the head of the
loop into the body and from the end of a turn back to the head, which is all that
the runs of a loop need to be recorded (`Turning.sound`).  `LoopAt` says that
nothing else leaves the body and where a loop ends, so that nothing else is
recorded (`LoopAt.realizes`).
-/

import RustFlow.Proofs.Branching

namespace RustFlow
namespace Body

open Graph Ast

variable {set : Setting} {exact : Prop} {b b' b₁ b₂ : Body} {n m x : NodeId} {k : Jump} {i : Nat}
  {w : List Edge} {labels : List (Option String)}

/-- The state inside a loop. -/
def inside (b : Body) (frame : LoopFrame) : Body := { b with loops := frame :: b.loops }

theorem hop_inside_zero {frame : LoopFrame} : (b.inside frame).Hop k 0 x ↔ x ∈ frame.hops k := by
  simp [Hop, inside]

theorem hop_inside_succ {frame : LoopFrame} :
    (b.inside frame).Hop k (i + 1) x ↔ b.Hop k i x := by
  simp [Hop, inside]

theorem TestsAt.ne_meets {t : Term} {c : NodeId} (h : TestsAt b n t) (hc : Meets b c) : n ≠ c := by
  rintro rfl
  obtain ⟨pos, hnode⟩ := hc.node
  cases h.node.symm.trans hnode

/-- A node that evaluates a term and goes on to one other. -/
structure LeadsAt (b : Body) (n : NodeId) (t : Term) (m : NodeId) : Prop where
  tests : TestsAt b n t
  out : ∀ e ∈ b.graph.edges, e.source = n → e = ⟨n, m, .sequential⟩
  edge : ⟨n, m, .sequential⟩ ∈ b.graph.edges

/-- A guard with both its edges. -/
structure ForksAt (b : Body) (n : NodeId) (t : Term) (yes no : NodeId) : Prop where
  tests : TestsAt b n t
  out : ∀ e ∈ b.graph.edges, e.source = n → e = ⟨n, yes, .whenTrue⟩ ∨ e = ⟨n, no, .whenFalse⟩
  yes_edge : ⟨n, yes, .whenTrue⟩ ∈ b.graph.edges
  no_edge : ⟨n, no, .whenFalse⟩ ∈ b.graph.edges

/-- **A construct after the evaluation of a term.** -/
theorem LeadsAt.realizes {t : Term} {c : NodeId} {B : Behaviour} (h : LeadsAt b n t m) (hc : Meets b c)
    (hB : Realizes exact b ⟨m, some c⟩ B) :
    Realizes exact b ⟨n, some c⟩ ((Behaviour.evaluates t).andThen B) := by
  constructor
  · rintro run out (⟨⟨-, rfl⟩, hne⟩ | ⟨_, after, rfl, ⟨rfl, -⟩, hrun⟩)
    · exact absurd rfl hne
    · obtain ⟨x, ha, hend, hh⟩ := hB.sound after out hrun
      exact ⟨x, (h.tests.approaches h.edge).arrives ha, hend, hh⟩
  · intro hexact w x hr
    cases w with
    | nil =>
      obtain rfl := route_nil_iff.1 hr
      exact ⟨fun out hend => absurd hend (h.tests.not_ends (h.tests.ne_meets hc) out),
        fun hh => absurd rfl (hh _ (h.tests.mem_flow h.edge rfl))⟩
    | cons e w =>
      obtain ⟨he, hs, hr⟩ := route_cons_iff.1 hr
      obtain rfl := h.out e (mem_edges_cut.1 he).1 hs
      obtain ⟨hall, hhalt⟩ := hB.complete hexact w x hr
      refine ⟨fun out hend => .inr ⟨_, _, ?_, ⟨rfl, rfl⟩, hall out hend⟩, hhalt⟩
      rw [recorded_cons, h.tests.record]
      rfl

/-- The body of a loop that was lowered between `b` and `b₁`, as it stands in a
later state: where a turn is over, control goes to `back`. -/
structure BodyAt (set : Setting) (b b₁ b' : Body) (inner : Fragment) (frame : LoopFrame)
    (back : NodeId) : Prop where
  part : Part set b b₁ inner
  later : Extends b₁ b'
  noOps : ∀ k, ∀ h ∈ frame.hops k, ∃ s, b₁.graph.node? h = some s ∧ s.isNoOp = true
  exit : ∀ y, inner.exit = some y → ⟨y, back, .sequential⟩ ∈ b'.graph.edges
  continues : ∀ h ∈ frame.continues, ⟨h, back, .sequential⟩ ∈ b'.graph.edges

/-- A loop in a later state: from `head` the test leads into the body or to `conv`,
from `back` control goes to `head`, the `break`s lead to `conv`, and nothing else
leaves the body. -/
structure LoopAt (set : Setting) (b b₁ b' : Body) (inner : Fragment) (frame : LoopFrame)
    (test : Option Term) (step : List Event) (head back conv : NodeId) : Prop
    extends BodyAt set b b₁ b' inner frame back where
  meets : Meets b' conv
  apart : conv < b.size ∨ b₁.size ≤ conv
  breaks : ∀ h ∈ frame.breaks, ⟨h, conv, .sequential⟩ ∈ b'.graph.edges
  out : ∀ e ∈ b'.graph.edges, e ∉ b₁.graph.edges → b.size ≤ e.source → e.source < b₁.size →
    (inner.exit = some e.source ∨ e.source ∈ frame.continues) ∧ e = ⟨e.source, back, .sequential⟩ ∨
      e.source ∈ frame.breaks ∧ e = ⟨e.source, conv, .sequential⟩
  tested : test = none ∧ head = inner.entry ∨
    ∃ t, test = some t ∧ ForksAt b' head t inner.entry conv
  stepped : step = [] ∧ back = head ∨ ∃ t, step = [.eval t] ∧ LeadsAt b' back t head

section Loop

variable {inner : Fragment} {frame : LoopFrame} {test : Option Term} {step : List Event}
  {head back conv : NodeId} {A : Behaviour}

namespace BodyAt

variable (h : BodyAt set b b₁ b' inner frame back)
include h

theorem hop_lt (hx : x ∈ frame.hops k) : x < b₁.size := by
  obtain ⟨s, hs, -⟩ := h.noOps k x hx
  exact lt_of_contains (contains_of_node? hs)

theorem mem_flow (hx : x < b₁.size) (hw : ¬b₁.graph.WrittenAt x)
    (he : ⟨x, m, .sequential⟩ ∈ b'.graph.edges) : ⟨x, m, .sequential⟩ ∈ b'.flow.edges :=
  mem_edges_cut.2 ⟨he, fun h' => hw ((h.later.writtenAt_iff hx).1 h')⟩

theorem not_written (hx : x ∈ frame.hops k) : ¬b₁.graph.WrittenAt x := by
  obtain ⟨s, hs, hno⟩ := h.noOps k x hx
  rintro ⟨s', hs', hw⟩
  cases hs.symm.trans hs'
  unfold Statement.isNoOp at hno
  unfold Statement.isWrittenReturn at hw
  split at hno <;> simp_all

theorem mem_flow_hop (hx : x ∈ frame.hops k) (he : ⟨x, m, .sequential⟩ ∈ b'.graph.edges) :
    ⟨x, m, .sequential⟩ ∈ b'.flow.edges :=
  h.mem_flow (h.hop_lt hx) (h.not_written hx) he

theorem turns (hA : Realizes exact (b₁.inside frame) inner A) {run : List Event}
    (hturn : A run .completes ∨ A run (.jumps .next 0)) :
    b'.flow.Approaches inner.entry run back := by
  rcases hturn with hturn | hturn
  · obtain ⟨y, hy, ⟨hexit, hw⟩, -⟩ := hA.sound run _ hturn
    have hlt := (h.part.arrives_within hy).2
    exact (h.later.arrives h.part.sound hlt hy).approaches (h.mem_flow hlt hw (h.exit y hexit))
  · obtain ⟨y, hy, hhop, -⟩ := hA.sound run _ hturn
    have hhop := hop_inside_zero.1 hhop
    exact (h.later.arrives h.part.sound (h.hop_lt hhop) hy).approaches
      (h.mem_flow_hop hhop (h.continues y hhop))

/-- **Every run of a loop is recorded**, given where the loop goes when its test
fails and at a `break`. -/
theorem sound (hA : Realizes exact (b₁.inside frame) inner A) {exit : Option NodeId}
    (henter : b'.flow.Approaches head (Behaviour.enter test) inner.entry)
    (hback : b'.flow.Approaches back step head)
    (hstop : ∀ t, test = some t → b'.Runs head exit [.guard t false] .completes)
    (hleave : ∀ y ∈ frame.breaks, ∀ run, b'.flow.Arrives head run y →
      b'.Runs head exit run .completes)
    {run : List Event} {out : Outcome} (hrun : Behaviour.Iterates test step A run out) :
    b'.Runs head exit run out := by
  induction hrun with
  | stop ht => exact hstop _ ht
  | turn hturn _ ih =>
    obtain ⟨x, ha, hend, hh⟩ := ih
    exact ⟨x, ((henter.trans (h.turns hA hturn)).trans hback).arrives ha, hend, hh⟩
  | leave hrun =>
    obtain ⟨y, hy, hhop, -⟩ := hA.sound _ _ hrun
    have hhop := hop_inside_zero.1 hhop
    exact hleave y hhop _ (henter.arrives (h.later.arrives h.part.sound (h.hop_lt hhop) hy))
  | escape hrun =>
    obtain ⟨y, hy, hhop, -⟩ := hA.sound _ _ hrun
    have hlt := (h.part.arrives_within hy).2
    exact ⟨y, henter.arrives (h.later.arrives h.part.sound hlt hy),
      h.later.hop _ _ _ (hop_inside_succ.1 hhop), fun h => by cases h⟩
  | returns hrun =>
    obtain ⟨y, hy, hret, -⟩ := hA.sound _ _ hrun
    have hlt := (h.part.arrives_within hy).2
    exact ⟨y, henter.arrives (h.later.arrives h.part.sound hlt hy),
      (h.later.returnsAt_iff hlt).2 hret, fun h => by cases h⟩

/-- A loop without a test and a `break` has no run that completes, so its exit does
not matter. -/
theorem realizes_unbroken (hA : Realizes exact (b₁.inside frame) inner A)
    (hback : back = inner.entry) (hbreaks : frame.breaks = []) (hexact : ¬exact)
    (exit : Option NodeId) :
    Realizes exact b' ⟨inner.entry, exit⟩ (Behaviour.Iterates none [] A) := by
  subst hback
  refine ⟨fun run out hrun => ?_, fun he => absurd he hexact⟩
  refine h.sound hA (.refl _ _) (.refl _ _) (fun t ht => by cases ht) (fun y hy => ?_) hrun
  rw [hbreaks] at hy
  cases hy

end BodyAt

theorem Meets.runs (h : Meets b conv) {run : List Event} (ha : b.flow.Approaches n run conv) :
    b.Runs n (some conv) run .completes := by
  obtain ⟨w, hr, rfl⟩ := ha
  exact ⟨conv, ⟨w, hr, by rw [h.record, List.append_nil]⟩, (h.ends_iff _).2 rfl, fun _ => h.halts⟩

variable (h : LoopAt set b b₁ b' inner frame test step head back conv)

include h

theorem LoopAt.enters :
    b'.flow.Approaches head (Behaviour.enter test) inner.entry := by
  rcases h.tested with ⟨rfl, rfl⟩ | ⟨t, rfl, ht⟩
  · exact .refl _ _
  · exact ht.tests.approaches ht.yes_edge

theorem LoopAt.returns :
    b'.flow.Approaches back step head := by
  rcases h.stepped with ⟨rfl, rfl⟩ | ⟨t, rfl, ht⟩
  · exact .refl _ _
  · exact ht.tests.approaches ht.edge

theorem LoopAt.runs (hA : Realizes exact (b₁.inside frame) inner A) {run : List Event} {out : Outcome}
    (hrun : Behaviour.Iterates test step A run out) : b'.Runs head (some conv) run out := by
  refine h.sound hA h.enters h.returns (fun t ht => ?_) (fun y hy run ha => ?_) hrun
  · rcases h.tested with ⟨hnone, -⟩ | ⟨t', ht', hat⟩
    · cases ht.symm.trans hnone
    · cases ht.symm.trans ht'
      exact h.meets.runs (hat.tests.approaches hat.no_edge)
  · exact h.meets.runs (ha.approaches (h.mem_flow_hop (k := .leave) hy (h.breaks y hy)))

theorem LoopAt.accounts_stay (hA : Realizes exact (b₁.inside frame) inner A) (hexact : exact)
    (hstay : Route b₁.flow inner.entry w x) (hin : b.size ≤ x ∧ x < b₁.size) :
    Accounts b' (some conv) x (Behaviour.Iterates test step A
      (Behaviour.enter test ++ (b₁.flow.recorded w ++ b₁.flow.record x .sequential))) := by
  obtain ⟨hall, hhalt⟩ := hA.complete hexact w x hstay
  have hne : x ≠ conv := by
    rintro rfl
    exact h.apart.elim (fun hlt => absurd hin.1 (Nat.not_le.2 hlt)) fun hle =>
      absurd hin.2 (Nat.not_lt.2 hle)
  constructor
  · intro out hend
    cases out with
    | completes => exact absurd (Option.some.inj hend.1).symm hne
    | returns => exact .returns (hall .returns ((h.later.returnsAt_iff hin.2).1 hend))
    | jumps k i =>
      exact .escape (hall (.jumps k (i + 1)) (hop_inside_succ.2 (h.later.hop_old k i x hend hin.2)))
  · intro hh
    obtain ⟨out, hend⟩ := hhalt (h.later.halts h.part.sound hh)
    cases out with
    | completes => exact absurd rfl (hh _ (h.mem_flow hin.2 hend.2 (h.exit x hend.1)))
    | returns => exact ⟨.returns, (h.later.returnsAt_iff hin.2).2 hend⟩
    | jumps k i =>
      cases i with
      | succ i => exact ⟨.jumps k i, h.later.hop k i x (hop_inside_succ.1 hend)⟩
      | zero =>
        have hhop := hop_inside_zero.1 hend
        have hw := h.not_written hhop
        cases k with
        | leave => exact absurd rfl (hh _ (h.mem_flow hin.2 hw (h.breaks x hhop)))
        | next => exact absurd rfl (hh _ (h.mem_flow hin.2 hw (h.continues x hhop)))

theorem LoopAt.accounts_back {I : List Event → Outcome → Prop} (hr : Route b'.flow back w x)
    (hnext : ∀ v, v.length ≤ w.length → Route b'.flow head v x →
      Accounts b' (some conv) x (I (b'.flow.recorded v ++ b'.flow.record x .sequential))) :
    Accounts b' (some conv) x fun out => ∃ rest, I rest out ∧
      b'.flow.recorded w ++ b'.flow.record x .sequential = step ++ rest := by
  rcases h.stepped with ⟨hstep, rfl⟩ | ⟨t, hstep, hat⟩
  · obtain ⟨hall, hhalt⟩ := hnext w (Nat.le_refl _) hr
    exact ⟨fun out hend => ⟨_, hall out hend, by rw [hstep]; rfl⟩, hhalt⟩
  · cases w with
    | nil =>
      obtain rfl := route_nil_iff.1 hr
      exact ⟨fun out hend => absurd hend (hat.tests.not_ends (hat.tests.ne_meets h.meets) out),
        fun hh => absurd rfl (hh _ (hat.tests.mem_flow hat.edge rfl))⟩
    | cons d v =>
      obtain ⟨hd, hs, hr⟩ := route_cons_iff.1 hr
      obtain rfl := hat.out d (mem_edges_cut.1 hd).1 hs
      obtain ⟨hall, hhalt⟩ := hnext v (Nat.le_succ _) hr
      have hev : b'.flow.record back .sequential = [.eval t] := hat.tests.record _
      refine ⟨fun out hend => ⟨_, hall out hend, ?_⟩, hhalt⟩
      rw [recorded_cons, hev, hstep, List.append_assoc]

theorem LoopAt.accounts_turn (hA : Realizes exact (b₁.inside frame) inner A) (hexact : exact)
    (hr : Route b'.flow inner.entry w x)
    (hnext : ∀ v, v.length < w.length → Route b'.flow head v x →
      Accounts b' (some conv) x (Behaviour.Iterates test step A
        (b'.flow.recorded v ++ b'.flow.record x .sequential))) :
    Accounts b' (some conv) x (Behaviour.Iterates test step A
      (Behaviour.enter test ++ (b'.flow.recorded w ++ b'.flow.record x .sequential))) := by
  rcases h.part.leaves h.later hr with ⟨hstay, hin⟩ | ⟨w₁, e, w₂, rfl, hr₁, hein, he, hnew, hw, hr₂⟩
  · rw [h.later.recorded h.part.sound hstay, h.later.record hin.2]
    exact h.accounts_stay hA hexact hstay hin
  · have hfirst : ∀ out, (b₁.inside frame).Ends inner.exit out e.source →
        A (b₁.flow.recorded w₁ ++ b₁.flow.record e.source .sequential) out :=
      (hA.complete hexact w₁ e.source hr₁).1
    generalize hrun : b₁.flow.recorded w₁ ++ b₁.flow.record e.source .sequential = run at hfirst
    have hrec : ∀ target, e = ⟨e.source, target, .sequential⟩ →
        b'.flow.recorded (w₁ ++ e :: w₂) = run ++ b'.flow.recorded w₂ := by
      intro target heq
      have hkind : e.kind = .sequential := congrArg Edge.kind heq
      simp only [recorded_append, recorded_cons, h.later.recorded h.part.sound hr₁,
        h.later.record hein.2, hkind, ← hrun, List.append_assoc]
    rcases h.out e he hnew hein.1 hein.2 with ⟨hback, heq⟩ | ⟨hleave, heq⟩
    · have hturn : A run .completes ∨ A run (.jumps .next 0) :=
        hback.imp (fun hexit => hfirst .completes ⟨hexit, hw⟩) fun hhop =>
          hfirst (.jumps .next 0) (hop_inside_zero.2 hhop)
      rw [hrec back heq]
      rw [heq] at hr₂
      obtain ⟨hall, hhalt⟩ := h.accounts_back hr₂ fun v hv =>
        hnext v (by rw [List.length_append, List.length_cons]; omega)
      refine ⟨fun out hend => ?_, hhalt⟩
      obtain ⟨rest, hrest, hsplit⟩ := hall out hend
      rw [List.append_assoc, hsplit, ← List.append_assoc, ← List.append_assoc]
      exact .turn hturn hrest
    · rw [hrec conv heq]
      rw [heq] at hr₂
      obtain ⟨rfl, rfl⟩ := hr₂.eq_nil_of_halts h.meets.halts
      refine ⟨fun out hend => ?_, fun _ => ⟨.completes, (h.meets.ends_iff _).2 rfl⟩⟩
      obtain rfl := (h.meets.ends_iff out).1 hend
      rw [h.meets.record, recorded_nil, List.append_nil, List.append_nil]
      exact .leave (hfirst (.jumps .leave 0) (hop_inside_zero.2 hleave))

/-- **A loop records its runs and nothing else.** -/
theorem LoopAt.realizes (hA : Realizes exact (b₁.inside frame) inner A) :
    Realizes exact b' ⟨head, some conv⟩ (Behaviour.Iterates test step A) := by
  refine ⟨fun run out => h.runs hA, fun hexact w x hr => ?_⟩
  -- by induction on the length of the route, since a turn need not record anything
  induction hlen : w.length using Nat.strongRecOn generalizing w with
  | _ len ih =>
    have hnext : ∀ v, v.length < w.length → Route b'.flow head v x →
        Accounts b' (some conv) x (Behaviour.Iterates test step A
          (b'.flow.recorded v ++ b'.flow.record x .sequential)) := fun v hv hroute =>
      ih v.length (hlen ▸ hv) v hroute rfl
    rcases h.tested with ⟨rfl, rfl⟩ | ⟨t, rfl, hat⟩
    · exact h.accounts_turn hA hexact hr hnext
    · cases w with
      | nil =>
        obtain rfl := route_nil_iff.1 hr
        exact ⟨fun out hend => absurd hend (hat.tests.not_ends (hat.tests.ne_meets h.meets) out),
          fun hh => absurd rfl (hh _ (hat.tests.mem_flow hat.yes_edge rfl))⟩
      | cons e w =>
        obtain ⟨he, hs, hr⟩ := route_cons_iff.1 hr
        have hrec := hat.tests.record e.kind
        rw [recorded_cons, hs, hrec, List.append_assoc]
        rcases hat.out e (mem_edges_cut.1 he).1 hs with rfl | rfl
        · exact h.accounts_turn hA hexact hr fun v hv =>
            hnext v (Nat.lt_trans hv (Nat.lt_succ_self _))
        · obtain ⟨rfl, rfl⟩ := hr.eq_nil_of_halts h.meets.halts
          refine ⟨fun out hend => ?_, fun _ => ⟨.completes, (h.meets.ends_iff _).2 rfl⟩⟩
          obtain rfl := (h.meets.ends_iff out).1 hend
          rw [h.meets.record]
          exact .stop rfl

end Loop

/-! ### Lowering loops -/

/-- The body of a loop is lowered between the hops that wait for it. -/
theorem Follows.inLoop {β : Type} {body : Attempt Body Fragment} {read : Attempt Reading β}
    {Q : Fragment → β → Body → Prop} (label : Option String) (hlocal : Local set body)
    (hb : Sound b) (h : Follows body read (b.inside (.ofLabel label)) Q) :
    Follows (inLoop label body) read b fun r v b' =>
      Part set b b' r.1 ∧ HopsIn b.size b' r.2 ∧ Q r.1 v (b'.inside r.2) := by
  intro r b' hrun
  obtain ⟨hg, hends⟩ := Ensures.inLoop label (hlocal (b.inside (.ofLabel label)) hb.vacant)
  rw [hrun] at hg hends
  obtain ⟨hf, hhops⟩ := hends r rfl
  obtain ⟨hin, -⟩ := hlocal (b.inside (.ofLabel label)) hb.vacant
  rcases hout : body (b.inside (.ofLabel label)) with ⟨out, after⟩
  rw [hout] at hin
  obtain ⟨frame, frames, -, -, hloops⟩ := List.forall₂_cons_left_iff.1 hin.loops
  replace hloops : after.loops = frame :: frames := hloops
  rw [inLoop_run hout hloops] at hrun
  rcases out with err | f
  · cases hrun
  · cases hrun
    obtain ⟨v, hv, hq⟩ := h f after hout
    refine ⟨v, hv, ⟨hb, hg, hf⟩, hhops, ?_⟩
    have hafter : (Body.inside { after with loops := frames } frame) = after := by
      rw [inside, ← hloops]
    rw [hafter]
    exact hq

theorem Ready.inside (hb : Ready labels b) (label : Option String) :
    Ready (label :: labels) (b.inside (.ofLabel label)) := by
  refine ⟨⟨hb.sound.joined, hb.sound.vacant, fun k i x hx => ?_⟩, ?_⟩
  · cases i with
    | zero => cases k <;> simp [hop_inside_zero, LoopFrame.ofLabel, LoopFrame.hops] at hx
    | succ i => exact hb.sound.hop_lt k i x (hop_inside_succ.1 hx)
  · show label :: b.loops.map LoopFrame.label = _
    rw [hb.labels]

theorem left_outside {p : Profile} {frame : LoopFrame}
    (h : ∀ i ∈ p.breaks, ∃ x, (b.inside frame).Hop .leave i x) :
    ∀ i ∈ p.outside.breaks, ∃ x, b.Hop .leave i x := by
  intro i hi
  obtain ⟨j, hj, hji⟩ := List.mem_filterMap.1 hi
  split at hji
  · cases hji
  · cases hji
    obtain ⟨x, hx⟩ := h j hj
    obtain ⟨j, rfl⟩ := Nat.exists_eq_succ_of_ne_zero ‹_›
    exact ⟨x, hop_inside_succ.1 hx⟩

theorem HopsIn.hop {base : Nat} {frame : LoopFrame} (h : HopsIn base b frame)
    (hx : x ∈ frame.hops k) : base ≤ x ∧ ∃ s, b.graph.node? x = some s ∧ s.isNoOp = true := by
  cases k with
  | leave => exact h x (List.mem_append_left _ hx)
  | next => exact h x (List.mem_append_right _ hx)

/-- A node that no edge leaves and no loop waits for. -/
structure IdleAt (b : Body) (n : NodeId) (s : Statement) : Prop where
  node : b.graph.node? n = some s
  idle : ∀ e ∈ b.graph.edges, e.source ≠ n
  no_hop : ∀ k i, ¬b.Hop k i n

theorem Sound.idleAt (hb : Sound b) (s : Statement) : IdleAt (b.withNode s) b.size s :=
  ⟨node?_withNode b s, fun _ he => Nat.ne_of_lt (hb.source_lt he), (hb.fresh s).2⟩

namespace IdleAt

variable {s : Statement} {new : Edge → Prop}

theorem lt (h : IdleAt b n s) : n < b.size := lt_of_contains (contains_of_node? h.node)

theorem later (h : IdleAt b n s) (hx : Extends b b')
    (hnew : ∀ e ∈ b'.graph.edges, e ∉ b.graph.edges → e.source ≠ n) : IdleAt b' n s := by
  refine ⟨(hx.node? n h.lt).trans h.node, fun e he => ?_, hx.no_hop h.lt h.no_hop⟩
  by_cases hold : e ∈ b.graph.edges
  · exact h.idle e hold
  · exact hnew e he hold

theorem withNode (h : IdleAt b n s) (s' : Statement) : IdleAt (b.withNode s') n s :=
  h.later (.withNode b s') fun _ he hold => absurd he hold

theorem of_eq (h : IdleAt b n s) (hg : b'.graph = b.graph) (hl : b'.loops = b.loops) :
    IdleAt b' n s :=
  h.later (.of_eq hg hl) fun _ he hold => absurd (hg ▸ he) hold

theorem part {f : Fragment} (h : IdleAt b n s) (hp : Part set b b' f) : IdleAt b' n s := by
  refine h.later hp.later fun e he hold => ?_
  have hge := ((hp.mem_edges he).resolve_left hold).1
  exact fun hs => absurd h.lt (Nat.not_lt.2 (hs ▸ hge))

theorem ne_noOp {t : Term} {c : NodeId} {pos : Position} (h : IdleAt b n (.ofTerm t))
    (hc : IdleAt b c (.noOp pos)) : n ≠ c := by
  rintro rfl
  cases h.node.symm.trans hc.node

theorem source_new (h : IdleAt b n s) (hw : Wired new b b') {e : Edge} (he : e ∈ b'.graph.edges)
    (hs : e.source = n) : new e :=
  ((hw.mem_edges e).1 he).resolve_left fun hold => h.idle e hold hs

theorem testsAt {t : Term} (h : IdleAt b n (.ofTerm t)) (hx : Extends b b') : TestsAt b' n t :=
  ⟨(hx.node? n h.lt).trans h.node, hx.no_hop h.lt h.no_hop⟩

theorem leads {t : Term} (h : IdleAt b n (.ofTerm t))
    (hw : Wired (fun e => e = ⟨n, m, .sequential⟩) b b') : LeadsAt b' n t m :=
  ⟨h.testsAt hw.later, fun _ he hs => h.source_new hw he hs, (hw.mem_edges _).2 (.inr rfl)⟩

theorem wired (h : IdleAt b n s) (hw : Wired new b b') (hnew : ∀ e, new e → e.source ≠ n) :
    IdleAt b' n s :=
  h.later hw.later fun e he hold => hnew e (((hw.mem_edges e).1 he).resolve_left hold)

end IdleAt

namespace LeadsAt

variable {t : Term} {new : Edge → Prop}

theorem later (h : LeadsAt b n t m) (hx : Extends b b')
    (hnew : ∀ e ∈ b'.graph.edges, e ∉ b.graph.edges → e.source ≠ n) : LeadsAt b' n t m := by
  have hlt := lt_of_contains (contains_of_node? h.tests.node)
  refine ⟨⟨(hx.node? n hlt).trans h.tests.node, hx.no_hop hlt h.tests.no_hop⟩, fun e he hs => ?_,
    hx.edges _ h.edge⟩
  by_cases hold : e ∈ b.graph.edges
  · exact h.out e hold hs
  · exact absurd hs (hnew e he hold)

theorem withNode (h : LeadsAt b n t m) (s : Statement) : LeadsAt (b.withNode s) n t m :=
  h.later (.withNode b s) fun _ he hold => absurd he hold

theorem wired (h : LeadsAt b n t m) (hw : Wired new b b') (hnew : ∀ e, new e → e.source ≠ n) :
    LeadsAt b' n t m :=
  h.later hw.later fun e he hold => hnew e (((hw.mem_edges e).1 he).resolve_left hold)

theorem ne_idle (h : LeadsAt b n t m) {x : NodeId} {s : Statement} (hx : IdleAt b x s) : n ≠ x :=
  fun hn => hx.idle _ h.edge hn

end LeadsAt

theorem Follows.addIdle {α β : Type} (hb : Ready labels b) {s : Statement}
    {next : NodeId → Attempt Body α} {read : Attempt Reading β} {Q : α → β → Body → Prop}
    (h : ∀ n b₁, b.size = n → b.withNode s = b₁ → Ready labels b₁ → IdleAt b₁ n s →
      Follows (next n) read b₁ Q) : Follows (Body.add s >>= next) read b Q :=
  .add hb.sound.vacant (h _ _ rfl rfl ⟨hb.sound.withNode s, hb.labels⟩ (hb.sound.idleAt s))

theorem Follows.lead {α β : Type} (hb : Ready labels b) {t : Term} {s : Statement}
    (hn : IdleAt b n (.ofTerm t)) (hm : IdleAt b m s) (hne : n ≠ m)
    {next : Unit → Attempt Body α} {read : Attempt Reading β} {Q : α → β → Body → Prop}
    (h : ∀ b₁, Wired (fun e => e = ⟨n, m, .sequential⟩) b b₁ → Ready labels b₁ →
      LeadsAt b₁ n t m → IdleAt b₁ m s → Follows (next ()) read b₁ Q) :
    Follows (Body.edge n m .sequential >>= next) read b Q := by
  refine .wire (wires_edge _ _ _) fun b₁ hw => h b₁ hw ⟨hw.sound hb.sound ?_, hw.loops ▸ hb.labels⟩
    (hn.leads hw) (hm.wired hw ?_)
  · rintro e rfl
    exact ⟨contains_of_node? hn.node, contains_of_node? hm.node⟩
  · rintro e rfl
    exact hne

section Closing

variable {inner : Fragment} {frame : LoopFrame} {test : Option Term} {step : List Event}
  {head back conv : NodeId} {own : Edge → Prop} {e : Edge}

/-- The edges that lead on from the end of a turn and from the jumps of a loop. -/
def TurnEdge (inner : Fragment) (frame : LoopFrame) (back conv : NodeId) (e : Edge) : Prop :=
  (∃ x, inner.exit = some x ∧ e = ⟨x, back, .sequential⟩) ∨
    (∃ x ∈ frame.breaks, e = ⟨x, conv, .sequential⟩) ∨
    ∃ x ∈ frame.continues, e = ⟨x, back, .sequential⟩

theorem TurnEdge.source_in (h : TurnEdge inner frame back conv e) (hpart : Part set b b₁ inner)
    (hhops : HopsIn b.size b₁ frame) : b.size ≤ e.source ∧ e.source < b₁.size := by
  have hhop : ∀ k, ∀ x ∈ frame.hops k, b.size ≤ x ∧ x < b₁.size := by
    intro k x hx
    obtain ⟨hle, s, hs, -⟩ := hhops.hop hx
    exact ⟨hle, lt_of_contains (contains_of_node? hs)⟩
  rcases h with ⟨x, hx, rfl⟩ | ⟨x, hx, rfl⟩ | ⟨x, hx, rfl⟩
  · exact ⟨(hpart.ends.exit x hx).1, hpart.exit_lt hx⟩
  · exact hhop .leave x hx
  · exact hhop .next x hx

theorem bodyAt_of_edges (hpart : Part set b b₁ inner) (hhops : HopsIn b.size b₁ frame)
    (hx : Extends b₁ b')
    (hmem : ∀ e, e ∈ b'.graph.edges ↔
      e ∈ b₁.graph.edges ∨ own e ∨ TurnEdge inner frame back conv e) :
    BodyAt set b b₁ b' inner frame back :=
  ⟨hpart, hx, fun _ _ hx => (hhops.hop hx).2,
    fun y hy => (hmem _).2 (.inr (.inr (.inl ⟨y, hy, rfl⟩))),
    fun y hy => (hmem _).2 (.inr (.inr (.inr (.inr ⟨y, hy, rfl⟩))))⟩

theorem own_of_source (hpart : Part set b b₁ inner) (hhops : HopsIn b.size b₁ frame)
    (hmem : ∀ e, e ∈ b'.graph.edges ↔
      e ∈ b₁.graph.edges ∨ own e ∨ TurnEdge inner frame back conv e)
    (hout : n < b.size ∨ b₁.size ≤ n) (hidle : ∀ e ∈ b₁.graph.edges, e.source ≠ n)
    (he : e ∈ b'.graph.edges) (hs : e.source = n) : own e := by
  rcases (hmem e).1 he with he | he | he
  · exact absurd hs (hidle e he)
  · exact he
  · have hin := he.source_in hpart hhops
    rw [hs] at hin
    exact hout.elim (fun h => absurd hin.1 (Nat.not_le.2 h)) fun h => absurd hin.2 (Nat.not_lt.2 h)

theorem loopAt_of_edges (hpart : Part set b b₁ inner) (hhops : HopsIn b.size b₁ frame)
    (hx : Extends b₁ b')
    (hmem : ∀ e, e ∈ b'.graph.edges ↔
      e ∈ b₁.graph.edges ∨ own e ∨ TurnEdge inner frame back conv e)
    (hown : ∀ e, own e → e.source < b.size ∨ b₁.size ≤ e.source)
    (hmeets : Meets b' conv) (hapart : conv < b.size ∨ b₁.size ≤ conv)
    (htested : test = none ∧ head = inner.entry ∨
      ∃ t, test = some t ∧ ForksAt b' head t inner.entry conv)
    (hstepped : step = [] ∧ back = head ∨
      ∃ t, step = [.eval t] ∧ LeadsAt b' back t head) :
    LoopAt set b b₁ b' inner frame test step head back conv := by
  refine ⟨bodyAt_of_edges hpart hhops hx hmem, hmeets, hapart,
    fun y hy => (hmem _).2 (.inr (.inr (.inr (.inl ⟨y, hy, rfl⟩)))), ?_, htested, hstepped⟩
  intro e he hnot hge hlt
  rcases (hmem e).1 he with he | he | ⟨x, hx, rfl⟩ | ⟨x, hx, rfl⟩ | ⟨x, hx, rfl⟩
  · exact absurd he hnot
  · exact (hown e he).elim (fun h => absurd hge (Nat.not_le.2 h)) fun h => absurd hlt (Nat.not_lt.2 h)
  · exact .inl ⟨.inl hx, rfl⟩
  · exact .inr ⟨hx, rfl⟩
  · exact .inl ⟨.inr hx, rfl⟩

end Closing

/-- **A `while` loop.** -/
theorem tracks_whileLoop (pos : Position) (label : Option String) (t : Term) {p : Profile}
    {body : Attempt Body Fragment} {read : Attempt Reading Behaviour} (hlocal : Local set body)
    (hbody : Tracks exact (label :: labels) p.breaks body read) :
    Tracks exact labels p.outside.breaks (whileLoop pos label t body) (do
      let turn ← read
      return Behaviour.Iterates (some t) [] turn) := by
  intro b hb
  have hb₁ := hb.sound.withNode (.ofTerm t)
  refine .add hb.sound.vacant (.add hb₁.vacant ?_)
  have hb₂ : Ready labels ((b.withNode (.ofTerm t)).withNode (.noOp pos)) :=
    ⟨hb₁.withNode _, hb.labels⟩
  have hguard := (hb.sound.idleAt (.ofTerm t)).withNode (.noOp pos)
  have hconv := hb₁.idleAt (.noOp pos)
  generalize (b.withNode (.ofTerm t)).withNode (.noOp pos) = b₂ at hb₂ hguard hconv ⊢
  generalize b.size = guard, (b.withNode (.ofTerm t)).size = conv at hguard hconv ⊢
  have hne : guard ≠ conv := hguard.ne_noOp hconv
  refine (Follows.inLoop label hlocal hb₂.sound (hbody _ (hb₂.inside label))).bind ?_
  rintro ⟨inner, frame⟩ A b₃ ⟨hpart, hhops, hA⟩
  refine .wire (wires_edge _ _ _) fun b₄ hw₁ => .wire (wires_connect _ _) fun b₅ hw₂ =>
    .wire (wires_edge _ _ _) fun b₆ hw₃ => .wire (wires_resolveJumps _ _ _) fun b₇ hw₄ => .pure ?_
  have hw := ((hw₁.trans hw₂).trans hw₃).trans hw₄
  have hmem : ∀ e, e ∈ b₇.graph.edges ↔ e ∈ b₃.graph.edges ∨
      (e = ⟨guard, inner.entry, .whenTrue⟩ ∨ e = ⟨guard, conv, .whenFalse⟩) ∨
        TurnEdge inner frame guard conv e := by
    intro e
    simp only [hw.mem_edges, TurnEdge, or_assoc, or_left_comm]
  have hidle := hguard.part hpart
  have hidle' := hconv.part hpart
  have hloop : LoopAt set b₂ b₃ b₇ inner frame (some t) [] guard guard conv := by
    refine loopAt_of_edges hpart hhops hw.later hmem ?_ ⟨?_, ?_, ?_⟩ (.inl hconv.lt)
      (.inr ⟨t, rfl, hidle.testsAt hw.later, ?_, ?_, ?_⟩) (.inl ⟨rfl, rfl⟩)
    · rintro e (rfl | rfl) <;> exact .inl hguard.lt
    · exact ⟨pos, (hw.node? _).trans hidle'.node⟩
    · intro e he hs
      rcases own_of_source hpart hhops hmem (.inl hconv.lt) hidle'.idle (mem_edges_cut.1 he).1 hs
        with rfl | rfl <;> exact hne hs
    · exact hw.later.no_hop hidle'.lt hidle'.no_hop
    · exact fun e he hs => own_of_source hpart hhops hmem (.inl hguard.lt) hidle.idle he hs
    · exact (hmem _).2 (.inr (.inl (.inl rfl)))
    · exact (hmem _).2 (.inr (.inl (.inr rfl)))
  exact ⟨hloop.realizes hA.realizes, hw.later.left (left_outside hA.left)⟩

/-- **A `loop`.**  One that nothing leaves has no run that completes. -/
theorem tracks_plainLoop (pos : Position) (label : Option String) {p : Profile}
    {body : Attempt Body Fragment} {read : Attempt Reading Behaviour} (hlocal : Local set body)
    (hbody : Tracks exact (label :: labels) p.breaks body read)
    (hexact : exact → p.breaks.contains 0 = true) :
    Tracks exact labels p.outside.breaks (plainLoop pos label body) (do
      let turn ← read
      return Behaviour.Iterates none [] turn) := by
  intro b hb
  refine (Follows.inLoop label hlocal hb.sound (hbody _ (hb.inside label))).bind ?_
  rintro ⟨inner, frame⟩ A b₁ ⟨hpart, hhops, hA⟩
  refine .wire (wires_connect _ _) fun b₂ hw₁ => ?_
  cases hbreaks : frame.breaks with
  | nil =>
    refine .wire (wires_resolveJumps _ _ _) fun b₃ hw₂ => .pure ?_
    have hw := hw₁.trans hw₂
    have hmem : ∀ e, e ∈ b₃.graph.edges ↔
        e ∈ b₁.graph.edges ∨ False ∨ TurnEdge inner frame inner.entry inner.entry e := by
      intro e
      simp only [hw.mem_edges, TurnEdge, false_or]
    have hnot : ¬exact := by
      intro h
      obtain ⟨x, hx⟩ := hA.left 0 (List.contains_iff_mem.1 (hexact h))
      have hx := hop_inside_zero.1 hx
      rw [show frame.hops .leave = [] from hbreaks] at hx
      cases hx
    exact ⟨(bodyAt_of_edges hpart hhops hw.later hmem).realizes_unbroken hA.realizes rfl hbreaks
      hnot inner.exit, hw.later.left (left_outside hA.left)⟩
  | cons hop hops =>
    have hb₂ : Sound b₂ := by
      refine hw₁.sound hpart.sound ?_
      rintro e ⟨x, hx, rfl⟩
      exact ⟨(hpart.ends.exit x hx).placed.2, hpart.ends.entry.2⟩
    refine .add hb₂.vacant (.wire (wires_resolveJumps _ _ _) fun b₃ hw₂ => .pure ?_)
    have hconv := hb₂.idleAt (.noOp pos)
    have hx : Extends b₁ b₃ := hw₁.later.trans ((Extends.withNode b₂ _).trans hw₂.later)
    have hmem : ∀ e, e ∈ b₃.graph.edges ↔
        e ∈ b₁.graph.edges ∨ False ∨ TurnEdge inner frame inner.entry b₂.size e := by
      intro e
      have hnode : e ∈ (b₂.withNode (.noOp pos)).graph.edges ↔ e ∈ b₂.graph.edges := Iff.rfl
      simp only [hw₂.mem_edges, hnode, hw₁.mem_edges, TurnEdge, false_or, or_assoc]
    have hapart : b₁.size ≤ b₂.size := Nat.le_of_eq hw₁.size.symm
    have hloop : LoopAt set b b₁ b₃ inner frame none [] inner.entry inner.entry b₂.size := by
      refine loopAt_of_edges hpart hhops hx hmem (fun _ h => h.elim) ⟨?_, ?_, ?_⟩ (.inr hapart)
        (.inl ⟨rfl, rfl⟩) (.inl ⟨rfl, rfl⟩)
      · exact ⟨pos, (hw₂.node? _).trans hconv.node⟩
      · intro e he hs
        refine own_of_source hpart hhops hmem (.inr hapart) (fun e he => ?_) (mem_edges_cut.1 he).1 hs
        exact hconv.idle e (hw₁.later.edges e he)
      · exact hw₂.later.no_hop hconv.lt hconv.no_hop
    exact ⟨hloop.realizes hA.realizes, hx.left (left_outside hA.left)⟩

theorem follows_forTurns {labels : List (Option String)} {label : Option String} {p : Profile}
    {body : Attempt Body Fragment} {read : Attempt Reading Behaviour} (hlocal : Local set body)
    (hbody : Tracks exact (label :: labels) p.breaks body read) (hb : Ready labels b)
    {init first guard conv : NodeId} {source step test : Term} {pos : Position}
    (hinit : LeadsAt b init source first) (hfirst : LeadsAt b first step guard)
    (hguard : IdleAt b guard (.ofTerm test)) (hconv : IdleAt b conv (.noOp pos))
    (again : Context → Term) :
    Follows (do
      let (inner, frame) ← inLoop label body
      let step ← add (.ofTerm (again (← get).context))
      edge guard inner.entry .whenTrue
      edge guard conv .whenFalse
      connect inner.exit step
      edge step guard .sequential
      resolveJumps frame conv step
      return (⟨init, some conv⟩ : Fragment)) (do
      let turn ← read
      let next := again (← get).context
      return (Behaviour.evaluates source).andThen
        ((Behaviour.evaluates step).andThen (Behaviour.Iterates (some test) [.eval next] turn))) b
      fun f B b' => Tracked exact p.outside.breaks b' f B := by
  refine (Follows.inLoop label hlocal hb.sound (hbody _ (hb.inside label))).bind ?_
  rintro ⟨inner, frame⟩ A b₁ ⟨hpart, hhops, hA⟩
  refine .get (.add hpart.sound.vacant ?_)
  refine .wire (wires_edge _ _ _) fun b₂ hw₁ => .wire (wires_edge _ _ _) fun b₃ hw₂ =>
    .wire (wires_connect _ _) fun b₄ hw₃ => .wire (wires_edge _ _ _) fun b₅ hw₄ =>
    .wire (wires_resolveJumps _ _ _) fun b' hw₅ => .pure ?_
  have hw := (((hw₁.trans hw₂).trans hw₃).trans hw₄).trans hw₅
  have hx : Extends b₁ b' := (Extends.withNode b₁ _).trans hw.later
  have hmem : ∀ e, e ∈ b'.graph.edges ↔ e ∈ b₁.graph.edges ∨
      (e = ⟨guard, inner.entry, .whenTrue⟩ ∨ e = ⟨guard, conv, .whenFalse⟩ ∨
        e = ⟨b₁.size, guard, .sequential⟩) ∨ TurnEdge inner frame b₁.size conv e := by
    intro e
    have hnode : e ∈ (b₁.withNode (.ofTerm (again b₁.context))).graph.edges ↔
      e ∈ b₁.graph.edges := Iff.rfl
    simp only [hw.mem_edges, hnode, TurnEdge, or_assoc, or_left_comm]
  have hstep := hpart.sound.idleAt (.ofTerm (again b₁.context))
  have hidle := hguard.part hpart
  have hidle' := hconv.part hpart
  have hmeets : Meets b' conv := by
    refine ⟨⟨pos, (hx.node? conv hidle'.lt).trans hidle'.node⟩, fun e he hs => ?_,
      hx.no_hop hidle'.lt hidle'.no_hop⟩
    rcases own_of_source hpart hhops hmem (.inl hconv.lt) hidle'.idle (mem_edges_cut.1 he).1 hs with
      rfl | rfl | rfl
    · exact hguard.ne_noOp hconv hs
    · exact hguard.ne_noOp hconv hs
    · exact Nat.ne_of_gt hidle'.lt hs
  have hloop : LoopAt set b b₁ b' inner frame (some test) [.eval (again b₁.context)] guard b₁.size
      conv := by
    refine loopAt_of_edges hpart hhops hx hmem ?_ hmeets (.inl hconv.lt)
      (.inr ⟨test, rfl, hidle.testsAt hx, fun e he hs => ?_, ?_, ?_⟩)
      (.inr ⟨_, rfl, hstep.testsAt hw.later, fun e he hs => ?_, ?_⟩)
    · rintro e (rfl | rfl | rfl)
      · exact .inl hguard.lt
      · exact .inl hguard.lt
      · exact .inr (Nat.le_refl _)
    · rcases own_of_source hpart hhops hmem (.inl hguard.lt) hidle.idle he hs with rfl | rfl | rfl
      · exact .inl rfl
      · exact .inr rfl
      · exact absurd hs (Nat.ne_of_gt hidle.lt)
    · exact (hmem _).2 (.inr (.inl (.inl rfl)))
    · exact (hmem _).2 (.inr (.inl (.inr (.inl rfl))))
    · rcases own_of_source hpart hhops hmem (.inr (Nat.le_refl _))
        (fun e he => Nat.ne_of_lt (hpart.sound.source_lt he)) he hs with rfl | rfl | rfl
      · exact absurd hs (Nat.ne_of_lt hidle.lt)
      · exact absurd hs (Nat.ne_of_lt hidle.lt)
      · rfl
    · exact (hmem _).2 (.inr (.inl (.inr (.inr rfl))))
  -- what comes before the loop is left as it was
  have hkeep : ∀ {n m t}, LeadsAt b n t m → LeadsAt b' n t m := by
    intro n m t h
    have hlt : n < b.size := lt_of_contains (contains_of_node? h.tests.node)
    refine h.later (hpart.later.trans hx) fun e he hold => ?_
    rcases (hmem e).1 he with he | (rfl | rfl | rfl) | he
    · exact Nat.ne_of_gt (Nat.lt_of_lt_of_le hlt ((hpart.mem_edges he).resolve_left hold).1)
    · exact (h.ne_idle hguard).symm
    · exact (h.ne_idle hguard).symm
    · exact Nat.ne_of_gt (Nat.lt_of_lt_of_le hlt hpart.grew.size_le)
    · exact Nat.ne_of_gt (Nat.lt_of_lt_of_le hlt (he.source_in hpart hhops).1)
  exact ⟨(hkeep hinit).realizes hmeets ((hkeep hfirst).realizes hmeets
    (hloop.realizes hA.realizes)), hx.left (left_outside hA.left)⟩

/-- **A `for` loop.** -/
theorem tracks_forLoop (pos : Position) (label : Option String) (pat : Pat)
    (iterable : Expr) {p : Profile} {body : Attempt Body Fragment}
    {read : Attempt Reading Behaviour} (hlocal : Local set body)
    (hbody : Tracks exact (label :: labels) p.breaks body read) :
    Tracks exact labels p.outside.breaks (forLoop set pos label pat iterable body)
      (Reading.forLoop set pos pat iterable read) := by
  intro b hb
  refine Follows.freshName.bind ?_
  rintro _ iterator b₁ ⟨rfl, hg₁, hl₁⟩
  replace hb := hb.of_eq hg₁ hl₁
  refine (Follows.onContext _).bind ?_
  rintro _ source b₂ ⟨rfl, hg₂, hl₂⟩
  replace hb := hb.of_eq hg₂ hl₂
  refine .addIdle hb ?_
  rintro init b₃ - - hb hinit
  refine (Follows.onContext _).bind ?_
  rintro _ _ b₄ ⟨rfl, hg₄, hl₄⟩
  refine (Follows.onContext _).bind ?_
  rintro _ bound b₅ ⟨rfl, hg₅, hl₅⟩
  refine (Follows.onContext _).bind ?_
  rintro _ _ b₆ ⟨rfl, hg₆, hl₆⟩
  replace hinit := ((hinit.of_eq hg₄ hl₄).of_eq hg₅ hl₅).of_eq hg₆ hl₆
  replace hb := ((hb.of_eq hg₄ hl₄).of_eq hg₅ hl₅).of_eq hg₆ hl₆
  refine .get (.addIdle hb ?_)
  rintro first _ hsize rfl hb₇ hfirst
  have hne : init ≠ first := hsize ▸ Nat.ne_of_lt hinit.lt
  refine .lead hb₇ (hinit.withNode _) hfirst hne fun b₈ _ hb₈ hinit hfirst => .addIdle hb₈ ?_
  rintro guard _ hsize rfl hb₉ hguard
  have hne' : first ≠ guard := hsize ▸ Nat.ne_of_lt hfirst.lt
  refine .lead hb₉ (hfirst.withNode _) hguard hne' fun b₁₀ hw hb₁₀ hfirst hguard =>
    .addIdle hb₁₀ ?_
  rintro conv _ - rfl hb₁₁ hconv
  replace hinit := (hinit.withNode _).wired hw fun e he => he ▸ hne.symm
  exact follows_forTurns hlocal hbody hb₁₁ (hinit.withNode _) (hfirst.withNode _)
    (hguard.withNode _) hconv fun c => nextStep c iterator bound pat.pos

end Body
end RustFlow
