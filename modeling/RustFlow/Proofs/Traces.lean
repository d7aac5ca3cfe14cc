/-
# Closing and splicing keep the traces

The traces of a lowered graph are taken with the edges out of written returns cut.
Closing its exits, splicing out no-ops and putting a no-op before a single node
all keep them: a merged return records nothing, a return with a value records the
value as an expression does, and a no-op records nothing.

With what lowering realizes, this gives the meaning of the finished graph: each
run of a body is a trace of its graph, and there are no others if every `loop` is
left by a `break` (`Cfg.traces_ofBody`).
-/

import RustFlow.Proofs.ExitShape
import RustFlow.Proofs.Realization

namespace RustFlow

open Ast

namespace Statement

variable {s s' : Statement}

theorem events_of_bare (h : s.isBareReturn = true) (kind : EdgeKind) : s.events kind = [] := by
  obtain ⟨k, pos⟩ := s
  cases k with
  | writtenReturn t => cases t <;> first | rfl | cases h
  | _ => cases h

/-- A settled statement records what it did; if it was no return, also as a guard. -/
theorem events_settled (h : s.settled = some s') {kind : EdgeKind}
    (hkind : kind = .sequential ∨ s.isWrittenReturn = false) : s'.events kind = s.events kind := by
  obtain ⟨k, pos⟩ := s
  cases k with
  | writtenReturn t =>
    obtain rfl := hkind.resolve_right (fun h => by cases h)
    cases t with
    | none => cases h
    | some t =>
      cases h
      rfl
  | _ =>
    cases h
    rfl

theorem events_asReturn (s : Statement) : s.asReturn.events .sequential = s.events .sequential := by
  obtain ⟨k, pos⟩ := s
  cases k with
  | writtenReturn t => cases t <;> rfl
  | _ => rfl

end Statement

namespace Graph

variable {g g' u : Graph} {n m x entry ret : NodeId} {e : Edge} {run rest : List Event}
  {pos : Position}

theorem TracesFrom.halt (h : g.Halts n) : g.TracesFrom n (g.record n .sequential) :=
  ⟨n, ⟨[], .nil n, rfl⟩, h⟩

theorem TracesFrom.step (he : e ∈ g.edges) (h : g.TracesFrom e.target rest) :
    g.TracesFrom e.source (g.record e.source e.kind ++ rest) := by
  obtain ⟨x, ha, hh⟩ := h
  exact ⟨x, (Approaches.edge he).arrives ha, hh⟩

theorem TracesFrom.eq_of_halts (hh : g.Halts n) (h : g.TracesFrom n run) :
    run = g.record n .sequential := by
  obtain ⟨x, ⟨w, hr, rfl⟩, -⟩ := h
  obtain ⟨rfl, rfl⟩ := hr.eq_nil_of_halts hh
  rfl

/-- A trace is the end of the graph or an edge and a trace after it. -/
@[elab_as_elim]
theorem TracesFrom.induction
    {motive : (n : NodeId) → (run : List Event) → g.TracesFrom n run → Prop}
    (halt : ∀ n (hh : g.Halts n), motive n _ (.halt hh))
    (step : ∀ e rest (he : e ∈ g.edges) (h : g.TracesFrom e.target rest), motive _ _ h →
      motive _ _ (.step he h))
    (h : g.TracesFrom n run) : motive n run h := by
  obtain ⟨x, ⟨w, hr, hrun⟩, hh⟩ := h
  induction hr generalizing run with
  | nil =>
    subst hrun
    exact halt _ hh
  | @cons e w x he hr ih =>
    rw [recorded_cons, List.append_assoc] at hrun
    subst hrun
    exact step e _ he ⟨x, ⟨w, hr, rfl⟩, hh⟩ (ih hh rfl)

theorem TracesFrom.of_eq (hedges : g'.edges = g.edges) (hnode : g'.node? = g.node?)
    (h : g.TracesFrom n run) : g'.TracesFrom n run := by
  have hrecord : ∀ m kind, g.record m kind = g'.record m kind := fun m kind => by
    rw [record, record, hnode]
  induction h using TracesFrom.induction with
  | halt n hh =>
    rw [hrecord]
    exact .halt fun e he => hh e (hedges ▸ he)
  | step e rest he _ ih =>
    rw [hrecord]
    exact .step (hedges ▸ he) ih

theorem traces_of_entries (h : g.entries = [entry]) : g.Traces run ↔ g.TracesFrom entry run := by
  simp [Traces, h]

/-! ### Closing -/

theorem BareAt.record_eq (h : g.BareAt n) (kind : EdgeKind) : g.record n kind = [] := by
  obtain ⟨s, hs, hb⟩ := h
  rw [record_of_node? hs, Statement.events_of_bare hb]

section Unit

variable (hu : UnitClosed g entry ret pos u) (hg : Unclosed true entry g)
include hu hg

theorem UnitClosed.ne_ret (hr : g.cut.Reaches entry n) : n ≠ ret := by
  rintro rfl
  have hlive := hg.tidy.cut.contains_of_reaches hg.entry_live hr
  rw [contains, node?_cut, hu.fresh] at hlive
  cases hlive

theorem UnitClosed.record_eq (hr : g.cut.Reaches entry n) (hb : ¬g.BareAt n) {kind : EdgeKind}
    (hkind : kind = .sequential ∨ ¬g.WrittenAt n) : u.record n kind = g.record n kind := by
  have hkept := hu.kept n (hu.ne_ret hg hr) hr
  cases hs : g.node? n with
  | none => rw [record, record, hkept, hs]; rfl
  | some s =>
    obtain ⟨s', hset⟩ := exists_settled hs hb
    rw [record_of_node? hs, record_of_node? (s := s') (by rw [hkept, hs]; exact hset)]
    refine Statement.events_settled hset (hkind.imp_right fun hw => ?_)
    rw [← Bool.not_eq_true]
    exact fun h => hw ⟨s, hs, h⟩

theorem UnitClosed.traces_ret : u.TracesFrom ret run ↔ run = [] := by
  have hrec : u.record ret .sequential = [] := record_of_node? hu.ends _
  refine ⟨fun h => (h.eq_of_halts (hu.halts_ret hg)).trans hrec, ?_⟩
  rintro rfl
  have h := TracesFrom.halt (hu.halts_ret hg)
  rwa [hrec] at h

/-- A trace of the cut graph goes on to the `ret` node. -/
theorem UnitClosed.traces_of_cut (h : g.cut.TracesFrom n run) (hr : g.cut.Reaches entry n) :
    u.TracesFrom (g.merged ret n) run := by
  induction h using TracesFrom.induction with
  | halt n hh =>
    by_cases hb : g.BareAt n
    · rw [merged_of_bare hb, show g.cut.record n .sequential = [] from hb.record_eq _]
      exact (hu.traces_ret hg).2 rfl
    · have hstep := TracesFrom.step ((hu.edges ⟨n, ret, .sequential⟩).2 (.inr ⟨n, hr, hh, hb, rfl⟩))
        ((hu.traces_ret hg).2 rfl)
      rw [merged_of_not_bare hb]
      rw [List.append_nil, hu.record_eq hg hr hb (.inl rfl)] at hstep
      exact hstep
  | step e rest he _ ih =>
    have hw := (mem_edges_cut.1 he).2
    have hb : ¬g.BareAt e.source := fun hb => hw hb.writtenAt
    have hstep := TracesFrom.step ((hu.edges _).2 (.inl ⟨e, he, hr, rfl⟩))
      (ih (hr.tail ⟨e, he, rfl, rfl⟩))
    rw [merged_of_not_bare hb]
    rw [hu.record_eq hg hr hb (.inr hw)] at hstep
    exact hstep

theorem UnitClosed.cut_of_traces (h : u.TracesFrom m run) (hr : g.cut.Reaches entry n)
    (hm : g.merged ret n = m) : g.cut.TracesFrom n run := by
  induction h using TracesFrom.induction generalizing n with
  | halt m hh =>
    by_cases hb : g.BareAt n
    · have h := TracesFrom.halt hb.writtenAt.halts_cut
      rw [merged_of_bare hb] at hm
      subst hm
      rwa [show g.cut.record n .sequential = [] from hb.record_eq _,
        ← show u.record ret .sequential = [] from record_of_node? hu.ends _] at h
    · rw [merged_of_not_bare hb] at hm
      subst hm
      exact absurd hh (hu.not_halts hr hb)
  | step e rest he h ih =>
    have hb : ¬g.BareAt n := by
      intro hb
      rw [merged_of_bare hb] at hm
      exact hu.halts_ret hg e he hm.symm
    rw [merged_of_not_bare hb] at hm
    rcases (hu.edges e).1 he with ⟨d, hd, -, rfl⟩ | ⟨k, -, hh, -, rfl⟩
    · have hs : d.source = n := hm.symm
      subst hs
      have hstep := TracesFrom.step hd (ih (hr.tail ⟨d, hd, rfl, rfl⟩) rfl)
      rw [hu.record_eq hg hr hb (.inr (mem_edges_cut.1 hd).2)]
      exact hstep
    · have hs : k = n := hm.symm
      subst hs
      obtain rfl := (hu.traces_ret hg).1 h
      rw [List.append_nil, hu.record_eq hg hr hb (.inl rfl)]
      exact .halt hh

theorem UnitClosed.traces_iff : u.Traces run ↔ g.cut.TracesFrom entry run := by
  rw [traces_of_entries hu.entries]
  exact ⟨fun h => hu.cut_of_traces hg h .refl rfl, fun h => hu.traces_of_cut hg h .refl⟩

end Unit

section Value

variable (hu : ValueClosed g entry u)
include hu

theorem ValueClosed.record_eq (hr : g.cut.Reaches entry n) {kind : EdgeKind}
    (hkind : kind = .sequential ∨ ¬g.cut.Halts n) : u.record n kind = g.record n kind := by
  by_cases hh : g.cut.Halts n
  · obtain rfl := hkind.resolve_right fun h => h hh
    rw [record, record, hu.ended n hr hh, Option.map_map]
    refine congrArg (Option.getD · []) (Option.map_congr fun s _ => ?_)
    exact s.events_asReturn
  · rw [record, record, hu.kept n hr hh]

theorem ValueClosed.traces_of_cut (h : g.cut.TracesFrom n run) (hr : g.cut.Reaches entry n) :
    u.TracesFrom n run := by
  induction h using TracesFrom.induction with
  | halt n hh =>
    rw [show g.cut.record n .sequential = _ from (hu.record_eq hr (.inl rfl)).symm]
    exact .halt ((hu.halts_iff hr).2 hh)
  | step e rest he _ ih =>
    rw [show g.cut.record e.source e.kind = _ from
      (hu.record_eq hr (.inr fun hh => hh e he rfl)).symm]
    exact .step ((hu.edges e).2 ⟨he, hr⟩) (ih (hr.tail ⟨e, he, rfl, rfl⟩))

theorem ValueClosed.cut_of_traces (h : u.TracesFrom n run) (hr : g.cut.Reaches entry n) :
    g.cut.TracesFrom n run := by
  induction h using TracesFrom.induction with
  | halt n hh =>
    rw [hu.record_eq hr (.inl rfl)]
    exact .halt ((hu.halts_iff hr).1 hh)
  | step e rest he _ ih =>
    obtain ⟨he, -⟩ := (hu.edges e).1 he
    rw [hu.record_eq hr (.inr fun hh => hh e he rfl)]
    exact .step he (ih (hr.tail ⟨e, he, rfl, rfl⟩))

theorem ValueClosed.traces_iff : u.Traces run ↔ g.cut.TracesFrom entry run := by
  rw [traces_of_entries hu.entries]
  exact ⟨fun h => hu.cut_of_traces h .refl, fun h => hu.traces_of_cut h .refl⟩

end Value

/-! ### Splicing -/

section Splicing

variable {i o : Edge} (h : SpliceStep n i o g g') (ht : g.Tidy)
include h

theorem SpliceStep.record_node (kind : EdgeKind) : g.record n kind = [] := by
  obtain ⟨s, hs, hno⟩ := h.pass.noOp
  rw [record_of_node? hs]
  unfold Statement.isNoOp at hno
  unfold Statement.events
  split at hno <;> simp_all

theorem SpliceStep.record_eq (hm : m ≠ n) (kind : EdgeKind) :
    g'.record m kind = g.record m kind := by rw [record, record, h.node?_eq, if_neg hm]

include ht

theorem SpliceStep.traces_of_old (htr : g.TracesFrom m run) :
    (m ≠ n → g'.TracesFrom m run) ∧ (m = n → g'.TracesFrom o.target run) := by
  induction htr using TracesFrom.induction with
  | halt m hh =>
    have hne : m ≠ n := by
      rintro rfl
      exact hh o h.mem_out.1 h.mem_out.2
    refine ⟨fun _ => ?_, fun hm => absurd hm hne⟩
    rw [← h.record_eq hne]
    exact .halt ((h.halts_iff ht hne).2 hh)
  | step e rest he _ ih =>
    by_cases hs : e.source = n
    · obtain rfl := h.eq_out he hs
      refine ⟨fun hne => absurd hs hne, fun _ => ?_⟩
      rw [hs, h.record_node]
      exact ih.1 h.target_ne
    · refine ⟨fun _ => ?_, fun hn => absurd hn hs⟩
      rw [← h.record_eq hs]
      by_cases htarget : e.target = n
      · obtain rfl := h.eq_in he htarget
        exact TracesFrom.step (e := ⟨e.source, o.target, e.kind⟩)
          ((h.mem_edges ht).2 (.inl rfl)) (ih.2 htarget)
      · exact .step ((h.mem_edges ht).2 (.inr ⟨he, hs, htarget⟩)) (ih.1 htarget)

theorem SpliceStep.old_of_traces (htr : g'.TracesFrom m run) (hm : m ≠ n) :
    g.TracesFrom m run := by
  induction htr using TracesFrom.induction with
  | halt m hh =>
    rw [h.record_eq hm]
    exact .halt ((h.halts_iff ht hm).1 hh)
  | step e rest he _ ih =>
    rw [h.record_eq hm]
    rcases (h.mem_edges ht).1 he with rfl | ⟨he, -, htarget⟩
    · have hout := TracesFrom.step h.mem_out.1 (ih h.target_ne)
      rw [h.mem_out.2, h.record_node, List.nil_append, ← h.mem_in.2] at hout
      exact TracesFrom.step (e := i) h.mem_in.1 hout
    · exact .step he (ih htarget)

theorem SpliceStep.traces_iff : g'.Traces run ↔ g.Traces run := by
  have hentry : ∀ e ∈ g.entries, e ≠ n := by
    rintro e he rfl
    have := h.pass.not_entry
    rw [isEntry, List.contains_eq_mem, decide_eq_false_iff_not] at this
    exact this he
  simp only [Traces, h.entries_eq]
  exact exists_congr fun e => and_congr_right fun he =>
    ⟨fun htr => h.old_of_traces ht htr (hentry e he),
      fun htr => (h.traces_of_old ht htr).1 (hentry e he)⟩

end Splicing

theorem Splices.traces_iff (h : Splices g g') (ht : g.Tidy) : g'.Traces run ↔ g.Traces run := by
  induction h with
  | refl => exact Iff.rfl
  | tail hrun hstep ih =>
    obtain ⟨_, _, _, hstep⟩ := hstep
    exact (hstep.traces_iff (Splices.tidy hrun ht)).trans ih

/-! ### With a no-op before a single node -/

section Guarded

variable (h : Guarded entry x pos g g')
include h

theorem Guarded.record_eq (hm : m ≠ x) (kind : EdgeKind) : g'.record m kind = g.record m kind := by
  rw [record, record, h.node?, if_neg hm]

theorem Guarded.traces_of_old (ht : g.Tidy) (htr : g.TracesFrom m run) (hm : m ≠ x) :
    g'.TracesFrom m run := by
  induction htr using TracesFrom.induction with
  | halt m hh =>
    rw [← h.record_eq hm]
    exact .halt ((h.halts_iff hm).2 hh)
  | step e rest he _ ih =>
    rw [← h.record_eq hm]
    exact .step (h.mem_edges.2 (.inr he)) (ih (h.ne_of_contains (ht.target_live e he)))

theorem Guarded.old_of_traces (ht : g.Tidy) (hlive : g.contains entry = true)
    (htr : g'.TracesFrom m run) :
    (m ≠ x → g.TracesFrom m run) ∧ (m = x → g.TracesFrom entry run) := by
  induction htr using TracesFrom.induction with
  | halt m hh =>
    have hm : m ≠ x := by
      rintro rfl
      exact h.not_halts hh
    refine ⟨fun _ => ?_, fun h => absurd h hm⟩
    rw [h.record_eq hm]
    exact .halt ((h.halts_iff hm).1 hh)
  | step e rest he _ ih =>
    rcases h.mem_edges.1 he with rfl | he
    · refine ⟨fun hne => absurd rfl hne, fun _ => ?_⟩
      have hnode : g'.node? x = some (.noOp pos) := by rw [h.node?, if_pos rfl]
      rw [record_of_node? hnode]
      exact ih.1 (h.ne_of_contains hlive)
    · have hs := h.ne_of_contains (ht.source_live e he)
      refine ⟨fun _ => ?_, fun hx => absurd hx hs⟩
      rw [h.record_eq hs]
      exact .step he (ih.1 (h.ne_of_contains (ht.target_live e he)))

theorem Guarded.traces_iff (ht : g.Tidy) (hlive : g.contains entry = true)
    (hentries : g.entries = [entry]) : g'.Traces run ↔ g.Traces run := by
  rw [traces_of_entries h.entries, traces_of_entries hentries]
  refine ⟨fun htr => (h.old_of_traces ht hlive htr).2 rfl, fun htr => ?_⟩
  have hold := h.traces_of_old ht htr (h.ne_of_contains hlive)
  have hnode : g'.node? x = some (.noOp pos) := by rw [h.node?, if_pos rfl]
  have hstep := TracesFrom.step (h.mem_edges.2 (.inl rfl)) hold
  rwa [record_of_node? hnode] at hstep

end Guarded

theorem Shape.traces_finish (sig : Signature) (hs : Shape sig.returnsUnit entry g) :
    (Cfg.finish sig g).Traces run ↔ g.Traces run := by
  unfold Cfg.finish
  split
  · obtain ⟨e, pos, h⟩ := guarded_guardSingle sig hs.tidy hs.entries hs.entry_live
    exact h.traces_iff hs.tidy hs.entry_live hs.entries
  · exact Iff.rfl

/-- **Closing keeps the traces.** -/
theorem traces_closeExits (sig : Signature) (hg : Unclosed sig.returnsUnit entry g)
    (h : Cfg.closeExits sig g = .ok u) : u.Traces run ↔ g.cut.TracesFrom entry run := by
  cases hunit : sig.returnsUnit with
  | true =>
    rw [hunit] at hg
    simp only [Cfg.closeExits, hunit, if_pos, Except.ok.injEq] at h
    subst h
    exact (unitClosed_closeUnit hg.tidy hg.entries hg.entry_live _).traces_iff hg
  | false =>
    rw [hunit] at hg
    rw [show Cfg.closeExits sig g = Cfg.closeValue sig g by simp [Cfg.closeExits, hunit]] at h
    rcases closeValue_cases sig hg.tidy hg.entries hg.entry_live with ⟨s, -, he⟩ | ⟨-, u', hok, hu⟩
    · cases he.symm.trans h
    · cases hok.symm.trans h
      exact hu.traces_iff

end Graph

/-! ### The graph of a body -/

namespace Body

open Graph

theorem ready_start (c : Context) : Ready [] (.start c) where
  sound := ⟨Tidy.empty.joined, rfl, fun k i x h => by
    obtain ⟨frame, hframe, -⟩ := h
    cases hframe⟩
  labels := rfl

variable {exact : Prop} {b : Body} {f : Fragment} {B : Behaviour} {run : List Event}

/-- A fragment that realizes a behaviour outside all loops has its runs as traces. -/
theorem Realizes.tracesFrom (h : Realizes exact b f B) {set : Setting}
    (hl : Lowered set b.graph) (hrun : B run .completes ∨ B run .returns) :
    b.flow.TracesFrom f.entry run := by
  rcases hrun with hrun | hrun
  · obtain ⟨x, ha, -, hh⟩ := h.sound run _ hrun
    exact ⟨x, ha, hh rfl⟩
  · obtain ⟨x, ha, ⟨s, hs, hret⟩, -⟩ := h.sound run _ hrun
    refine ⟨x, ha, ?_⟩
    rcases Bool.or_eq_true_iff.1 hret with hw | hv
    · exact WrittenAt.halts_cut ⟨s, hs, hw⟩
    · rintro e he rfl
      have := hl.ended e (mem_edges_cut.1 he).1 s hs
      rw [hv] at this
      cases this

theorem Realizes.of_tracesFrom (h : Realizes exact b f B) (hexact : exact) (hloops : b.loops = [])
    (htr : b.flow.TracesFrom f.entry run) : B run .completes ∨ B run .returns := by
  obtain ⟨x, ⟨w, hr, rfl⟩, hh⟩ := htr
  obtain ⟨hall, hend⟩ := h.complete hexact w x hr
  obtain ⟨out, hout⟩ := hend hh
  cases out with
  | completes => exact .inl (hall _ hout)
  | returns => exact .inr (hall _ hout)
  | jumps k i =>
    obtain ⟨frame, hframe, -⟩ := hout
    rw [hloops] at hframe
    cases hframe

theorem tracked_lower (set : Setting) (body : Block) (c : Context)
    (hst : (body.profile []).structured = true) (hrun : lower set body (.start c) = (.ok f, b)) :
    ∃ B r, Reading.body set body ⟨c, 0⟩ = (.ok B, r) ∧ b.loops = [] ∧
      Realizes ((body.profile []).broken = true) b f B := by
  have hsink : (if set.returnsUnit = true then Sink.discard else .returned).isReturned = true →
      set.returnsUnit = false := by
    cases set.returnsUnit <;> simp [Sink.isReturned]
  obtain ⟨B, hread, htracked⟩ :=
    tracks_lowerBlock set [] body hsink ⟨hst, id⟩ _ (ready_start c) f b hrun
  have hgrew := (local_lowerBlock set body _ hsink (.start c) rfl).1
  change Grew set _ _ (lower set body (.start c)).2 at hgrew
  rw [hrun] at hgrew
  exact ⟨B, _, hread, List.map_eq_nil_iff.1 hgrew.labels, htracked.realizes⟩

end Body

namespace Cfg

open Graph

variable (config : Config) (scope : Scope) (sig : Signature) (body : Block) (arena : Arena)

theorem tracesFrom_cut_addEntry (g : Graph) (e n : NodeId) (run : List Event) :
    (g.addEntry e).cut.TracesFrom n run ↔ g.cut.TracesFrom n run := by
  have hnode : (g.addEntry e).cut.node? = g.cut.node? := by
    funext m
    rw [node?_cut, node?_cut, node?_addEntry]
  have hedges : (g.addEntry e).cut.edges = g.cut.edges := by
    simp only [cut, edges_addEntry, node?_addEntry]
  exact ⟨.of_eq hedges.symm hnode.symm, .of_eq hedges hnode⟩

theorem traces_of_lowerBody {f : Fragment} {b : Body} {cfg : Cfg} {run : List Event}
    (hrun : lowerBody config scope sig body arena = (.ok f, b))
    (hok : (ofBody config scope sig body arena).1 = .ok cfg) :
    cfg.graph.Traces run ↔ b.flow.TracesFrom f.entry run := by
  obtain ⟨_, _, u, e, hrun', hu, hshape, rfl⟩ := ofBody_ok config scope sig body arena hok
  cases hrun.symm.trans hrun'
  have hclosed : u.Traces run ↔ _ :=
    traces_closeExits sig (unclosed_lowerBody config scope sig body arena hrun) hu
  rw [tracesFrom_cut_addEntry] at hclosed
  refine Iff.trans ?_ hclosed
  by_cases hsimplify : config.simplify = true
  · have hsplices := splices_simplify hshape.tidy hshape.passReached
    simp only [hsimplify, if_true]
    rw [(hshape.splices hsplices).traces_finish sig, hsplices.traces_iff hshape.tidy]
  · simp only [hsimplify]
    exact hshape.traces_finish sig

/-- **Every graph that is built has the meaning of its body.**  A body whose `match`es
have arms and which returns no loop has a reading, and each finite run of it that
completes or returns is a trace of the graph.  If every `loop` is left by a `break`,
the graph has no other traces. -/
theorem traces_ofBody {cfg : Cfg} (hok : (ofBody config scope sig body arena).1 = .ok cfg)
    (hst : (body.profile []).structured = true) :
    ∃ B, (Reading.body ⟨scope, config.freshStem, sig.returnsUnit⟩ body
        ⟨sig.context arena, 0⟩).1 = .ok B ∧
      (∀ run, B run .completes ∨ B run .returns → cfg.graph.Traces run) ∧
      ((body.profile []).broken = true →
        ∀ run, cfg.graph.Traces run → B run .completes ∨ B run .returns) := by
  rcases hrun : lowerBody config scope sig body arena with ⟨e | f, b⟩
  · rw [ofBody_of_error config scope sig body arena hrun] at hok
    cases hok
  · obtain ⟨B, r, hread, hloops, hB⟩ := Body.tracked_lower _ body _ hst hrun
    have hl := (Body.lowered_lower ⟨scope, config.freshStem, sig.returnsUnit⟩ body
      (sig.context arena)).1
    rw [show Body.lower _ body (.start (sig.context arena)) = _ from hrun] at hl
    refine ⟨B, congrArg Prod.fst hread, fun run h => ?_, fun hbroken run h => ?_⟩
    · exact (traces_of_lowerBody config scope sig body arena hrun hok).2 (hB.tracesFrom hl h)
    · exact hB.of_tracesFrom hbroken hloops
        ((traces_of_lowerBody config scope sig body arena hrun hok).1 h)

/-- `{ 'a: loop { while true { match true { false => break 'a, _ => if false { break 'a; } else {
continue 'a; } } } } false }`. -/
def nestedLoops : Block :=
  let block (stmts : List Stmt) : Block := .mk default stmts
  let truth (value : Bool) : Expr := .literal default (.bool value)
  let leave : Expr := .leave default (some "a") none
  let choice : Expr := .branch default [.mk (truth false) (block [.expr leave true])]
    (some (block [.expr (.next default (some "a")) true]))
  let jumps : Expr := .matchOn default (truth true)
    [.mk (.literal default (.bool false)) none leave, .mk (.wild default) none choice]
  block [
    .expr (.loop default (some "a") (block [
      .expr (.whileLoop default none (truth true) (block [.expr jumps false])) false])) false,
    .expr (truth false) false]

theorem traces_ofBody_nestedLoops :
    let scope : Scope := ⟨default, none, [], true, "a.rs"⟩
    let sig : Signature := ⟨"f", default, default, [], .bool, none⟩
    ∃ cfg B, (ofBody {} scope sig nestedLoops .empty).1 = .ok cfg ∧
      (Reading.body ⟨scope, "__iter", false⟩ nestedLoops ⟨sig.context .empty, 0⟩).1 = .ok B ∧
      ∀ run, cfg.graph.Traces run ↔ B run .completes ∨ B run .returns := by
  intro scope sig
  obtain ⟨cfg, hok⟩ : ∃ cfg, (ofBody {} scope sig nestedLoops .empty).1 = .ok cfg := by
    have hok : (ofBody {} scope sig nestedLoops .empty).1.isOk = true := by decide +kernel
    generalize (ofBody {} scope sig nestedLoops .empty).1 = built at hok ⊢
    cases built with
    | error e => cases hok
    | ok cfg => exact ⟨cfg, rfl⟩
  obtain ⟨B, hB, hsound, hcomplete⟩ := traces_ofBody {} scope sig nestedLoops .empty hok (by decide)
  exact ⟨cfg, B, hok, hB, fun run => ⟨hcomplete (by decide) run, hsound run⟩⟩

end Cfg
end RustFlow
