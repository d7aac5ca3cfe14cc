/-
# Branches record their runs

The guards of an `if` or a `match` form a chain: each guard leads into its branch
or on to the next guard, and all branches meet in one node.  `BranchAt` is one
guard with its branch, `ChainAt` a chain of them whose last false edge is still
open.  What follows when all guards fail is added later, so both say what they
realize in a later state in which the branches meet.
-/

import RustFlow.Proofs.Tracking

namespace RustFlow
namespace Body

open Graph

variable {α β : Type} {set : Setting} {exact : Prop} {b b' b₁ b₂ : Body} {f : Fragment}
  {n m x c : NodeId} {k : Jump} {i : Nat} {w : List Edge} {e : Edge}

/-! ### Where branches meet -/

/-- A node where branches meet: a no-op that nothing follows yet. -/
structure Meets (b : Body) (c : NodeId) : Prop where
  node : ∃ pos, b.graph.node? c = some (.noOp pos)
  halts : b.flow.Halts c
  no_hop : ∀ k i, ¬b.Hop k i c

theorem Meets.record {c : NodeId} (h : Meets b c) (kind : EdgeKind) : b.flow.record c kind = [] := by
  obtain ⟨pos, hs⟩ := h.node
  exact record_of_node? (g := b.flow) hs kind

theorem Meets.ends_iff {c : NodeId} (h : Meets b c) (out : Outcome) :
    b.Ends (some c) out c ↔ out = .completes := by
  obtain ⟨pos, hs⟩ := h.node
  cases out with
  | completes => simp [Ends, WrittenAt, hs, Statement.isWrittenReturn, Statement.noOp]
  | returns =>
    simp [Ends, ReturnsAt, hs, Statement.isWrittenReturn, Statement.isReturnValue, Statement.noOp]
  | jumps k i => simpa [Ends] using h.no_hop k i

theorem Meets.nothing {c : NodeId} (h : Meets b c) :
    Realizes exact b ⟨c, some c⟩ Behaviour.nothing := by
  obtain ⟨pos, hs⟩ := h.node
  exact realizes_leaf (f := ⟨c, some c⟩) h.halts hs h.ends_iff

/-- **A branch that leads to where branches meet.** -/
theorem Realizes.toward {taken : Fragment} {A : Behaviour} {c : NodeId}
    (hp : Part set b b₁ taken) (hA : Realizes exact b₁ taken A) (hx : Extends b₁ b')
    (hc : Meets b' c) (hlt : c < b.size)
    (hout : ∀ e ∈ b'.graph.edges, e ∉ b₁.graph.edges → b.size ≤ e.source → e.source < b₁.size →
      taken.exit = some e.source ∧ e = ⟨e.source, c, .sequential⟩)
    (hin : ∀ y, taken.exit = some y → ⟨y, c, .sequential⟩ ∈ b'.graph.edges) :
    Realizes exact b' ⟨taken.entry, some c⟩ A := by
  have hedge : ∀ y, taken.exit = some y → ¬b₁.graph.WrittenAt y →
      ⟨y, c, .sequential⟩ ∈ b'.flow.edges := fun y hy hw =>
    mem_edges_cut.2 ⟨hin y hy, fun h => hw ((hx.writtenAt_iff (hp.exit_lt hy)).1 h)⟩
  constructor
  · intro run out hrun
    obtain ⟨x, ha, hend, -⟩ := hA.sound run out hrun
    have hxlt := (hp.arrives_within ha).2
    have ha' := hx.arrives hp.sound hxlt ha
    by_cases hcomp : out = .completes
    · subst hcomp
      refine ⟨c, ?_, (hc.ends_iff _).2 rfl, fun _ => hc.halts⟩
      obtain ⟨w, hr, rfl⟩ := ha'.approaches (hedge x hend.1 hend.2)
      exact ⟨w, hr, by rw [hc.record, List.append_nil]⟩
    · exact ⟨x, ha', (hx.ends hxlt fun h => absurd h hcomp).2 hend, fun h => absurd h hcomp⟩
  · intro hexact w x hr
    rcases hp.leaves hx hr with ⟨hstay, hxin⟩ | ⟨w₁, e, w₂, rfl, hr₁, hein, he, hnew, hw, hr₂⟩
    · obtain ⟨hall, hhalt⟩ := hA.complete hexact w x hstay
      constructor
      · intro out hend
        have hne : out ≠ .completes := by
          rintro rfl
          exact Nat.ne_of_lt (Nat.lt_of_lt_of_le hlt hxin.1) (Option.some.inj hend.1)
        rw [hx.recorded hp.sound hstay, hx.record hxin.2]
        exact hall out ((hx.ends hxin.2 fun h => absurd h hne).1 hend)
      · intro hh
        obtain ⟨out, hend⟩ := hhalt (hx.halts hp.sound hh)
        have hne : out ≠ .completes := by
          rintro rfl
          exact hh _ (hedge x hend.1 hend.2) rfl
        exact ⟨out, (hx.ends hxin.2 fun h => absurd h hne).2 hend⟩
    · obtain ⟨hexit, heq⟩ := hout e he hnew hein.1 hein.2
      rw [heq] at hr₂
      obtain ⟨rfl, rfl⟩ := hr₂.eq_nil_of_halts hc.halts
      refine ⟨fun out hend => ?_, fun _ => ⟨.completes, (hc.ends_iff _).2 rfl⟩⟩
      obtain rfl := (hc.ends_iff out).1 hend
      have hrun := (hA.complete hexact w₁ e.source hr₁).1 .completes ⟨hexit, hw⟩
      have hkind : e.kind = .sequential := congrArg Edge.kind heq
      simpa only [recorded_append, recorded_cons, recorded_nil, List.append_nil, hc.record,
        hx.recorded hp.sound hr₁, hx.record hein.2, hkind] using hrun

/-- A node that tests a term. -/
structure TestsAt (b : Body) (n : NodeId) (t : Term) : Prop where
  node : b.graph.node? n = some (.ofTerm t)
  no_hop : ∀ k i, ¬b.Hop k i n

theorem TestsAt.not_ends {t : Term} (h : TestsAt b n t) {c : NodeId} (hc : n ≠ c)
    (out : Outcome) : ¬b.Ends (some c) out n := by
  cases out with
  | completes => exact fun hend => hc (Option.some.inj hend.1).symm
  | returns =>
    simp [Ends, ReturnsAt, h.node, Statement.isWrittenReturn, Statement.isReturnValue,
      Statement.ofTerm]
  | jumps k i => exact h.no_hop k i

theorem TestsAt.mem_flow {t : Term} (h : TestsAt b n t) (he : e ∈ b.graph.edges)
    (hs : e.source = n) : e ∈ b.flow.edges := by
  refine mem_edges_cut.2 ⟨he, ?_⟩
  rintro ⟨s, hs', hw⟩
  rw [hs, h.node] at hs'
  cases hs'
  cases hw

theorem TestsAt.record {t : Term} (h : TestsAt b n t) (kind : EdgeKind) :
    b.flow.record n kind = (Statement.ofTerm t).events kind := record_of_node? (g := b.flow) h.node kind

theorem TestsAt.approaches {t : Term} (h : TestsAt b n t) {kind : EdgeKind}
    (he : ⟨n, m, kind⟩ ∈ b.graph.edges) :
    b.flow.Approaches n ((Statement.ofTerm t).events kind) m := by
  rw [← h.record]
  exact .edge (h.mem_flow he rfl)

/-- What happens when all guards so far fail: control goes to a node that realizes
it, or the last guard cannot fail. -/
def Continues (exact : Prop) (b : Body) (c : NodeId) (no : Option NodeId) (R : Behaviour) : Prop :=
  match no with
  | some m => Realizes exact b ⟨m, some c⟩ R
  | none => R = .never

/-- **A guard and its branches.**  Without a false edge the guard cannot fail. -/
theorem Realizes.choice {A R : Behaviour} {t : Term} {c yes : NodeId} {no : Option NodeId}
    (hn : TestsAt b n t) (hc : n ≠ c)
    (hout : ∀ e ∈ b.graph.edges, e.source = n →
      e = ⟨n, yes, .whenTrue⟩ ∨ ∃ m, no = some m ∧ e = ⟨n, m, .whenFalse⟩)
    (hyes : ⟨n, yes, .whenTrue⟩ ∈ b.graph.edges)
    (hno : ∀ m, no = some m → ⟨n, m, .whenFalse⟩ ∈ b.graph.edges)
    (hA : Realizes exact b ⟨yes, some c⟩ A)
    (hR : Continues exact b c no R) :
    Realizes exact b ⟨n, some c⟩ (Behaviour.choice t A R) := by
  constructor
  · rintro run out ⟨rest, ⟨rfl, hrun⟩ | ⟨rfl, hrun⟩⟩
    · obtain ⟨x, ha, hend, hh⟩ := hA.sound rest out hrun
      exact ⟨x, (hn.approaches hyes).arrives ha, hend, hh⟩
    · cases no with
      | none => exact absurd hrun (by rw [show R = .never from hR]; exact id)
      | some m =>
        obtain ⟨x, ha, hend, hh⟩ := Realizes.sound hR rest out hrun
        exact ⟨x, (hn.approaches (hno m rfl)).arrives ha, hend, hh⟩
  · intro hexact w x hr
    cases w with
    | nil =>
      obtain rfl := route_nil_iff.1 hr
      exact ⟨fun out hend => absurd hend (hn.not_ends hc out),
        fun hh => absurd rfl (hh _ (hn.mem_flow hyes rfl))⟩
    | cons e w =>
      obtain ⟨he, hs, hr⟩ := route_cons_iff.1 hr
      rcases hout e (mem_edges_cut.1 he).1 hs with rfl | ⟨m, rfl, rfl⟩
      · obtain ⟨hall, hhalt⟩ := hA.complete hexact w x hr
        refine ⟨fun out hend => ⟨_, .inl ⟨?_, hall out hend⟩⟩,
          hhalt⟩
        rw [recorded_cons, hn.record]
        rfl
      · obtain ⟨hall, hhalt⟩ := Realizes.complete hR hexact w x hr
        refine ⟨fun out hend => ⟨_, .inr ⟨?_, hall out hend⟩⟩,
          hhalt⟩
        rw [recorded_cons, hn.record]
        rfl

/-! ### One guard -/

theorem Extends.no_hop (hx : Extends b b') (hn : n < b.size) (h : ∀ k i, ¬b.Hop k i n) (k : Jump)
    (i : Nat) : ¬b'.Hop k i n := fun hop => h k i (hx.hop_old k i n hop hn)

theorem Extends.contains (hx : Extends b b') (h : b.graph.contains n = true) :
    b'.graph.contains n = true := by
  rw [Graph.contains, hx.node? n (lt_of_contains h)]
  exact h

/-- A guard at `b.size` and its branch towards `c`, which were lowered between `b`
and `b'`; the guard takes the false edge of a guard before it. -/
structure BranchAt (exact : Prop) (b b' : Body) (c : NodeId) (pending : Option NodeId) (t : Term)
    (yes : NodeId) (A : Behaviour) : Prop where
  sound : Sound b'
  later : Extends b b'
  guard : TestsAt b' b.size t
  old : ∀ e ∈ b'.graph.edges, e.source < b.size →
    e ∈ b.graph.edges ∨ ∃ p, pending = some p ∧ e = ⟨p, b.size, .whenFalse⟩
  own : ∀ e ∈ b'.graph.edges, e.source = b.size → e = ⟨b.size, yes, .whenTrue⟩
  taken : ⟨b.size, yes, .whenTrue⟩ ∈ b'.graph.edges
  linked : ∀ p, pending = some p → ⟨p, b.size, .whenFalse⟩ ∈ b'.graph.edges
  realizes : ∀ b'', Extends b' b'' → Meets b'' c →
    (∀ e ∈ b''.graph.edges, b.size < e.source → e.source < b'.size → e ∈ b'.graph.edges) →
    Realizes exact b'' ⟨yes, some c⟩ A

variable {labels : List (Option String)} {breaks : List Nat}

theorem BranchAt.size_lt {pending : Option NodeId} {t : Term} {yes : NodeId} {A : Behaviour}
    (h : BranchAt exact b b' c pending t yes A) : b.size < b'.size :=
  lt_of_contains (contains_of_node? h.guard.node)

theorem branchAt_of_wired {pending : Option NodeId} {t : Term} {taken : Fragment} {A : Behaviour}
    {b₃ : Body} (hb : Sound b) (hc : b.graph.contains c = true)
    (hpending : ∀ p, pending = some p → b.graph.contains p = true)
    (hw₁ : Wired (fun e => ∃ p, pending = some p ∧ e = ⟨p, b.size, .whenFalse⟩)
      (b.withNode (.ofTerm t)) b₁)
    (hpart : Part set b₁ b₂ taken) (hA : Realizes exact b₂ taken A)
    (hw₃ : Wired (fun e => e = ⟨b.size, taken.entry, .whenTrue⟩ ∨
      ∃ x, taken.exit = some x ∧ e = ⟨x, c, .sequential⟩) b₂ b₃) :
    BranchAt exact b b₃ c pending t taken.entry A := by
  have hsize : b₁.size = b.size + 1 := hw₁.size.trans (size_withNode b _)
  have hx : Extends (b.withNode (.ofTerm t)) b₃ := hw₁.later.trans (hpart.later.trans hw₃.later)
  have hlt : b.size < (b.withNode (.ofTerm t)).size := by rw [size_withNode]; exact Nat.lt_succ_self _
  have hexit : ∀ y, taken.exit = some y → b.size < y := fun y hy =>
    Nat.lt_of_lt_of_le (by rw [hsize]; exact Nat.lt_succ_self _) (hpart.ends.exit y hy).1
  have hnode : b₂.graph.node? b.size = some (.ofTerm t) :=
    (hpart.later.node? _ (by rw [hsize]; exact Nat.lt_succ_self _)).trans
      ((hw₁.node? _).trans (node?_withNode b _))
  -- an edge from a node up to the guard
  have hedges : ∀ e ∈ b₃.graph.edges, e.source ≤ b.size →
      e ∈ b.graph.edges ∨ (∃ p, pending = some p ∧ e = ⟨p, b.size, .whenFalse⟩) ∨
        e = ⟨b.size, taken.entry, .whenTrue⟩ := by
    intro e he hle
    rcases (hw₃.mem_edges e).1 he with he | rfl | ⟨y, hy, rfl⟩
    · rcases hpart.mem_edges he with he | ⟨hge, -⟩
      · exact ((hw₁.mem_edges e).1 he).imp_right .inl
      · rw [hsize] at hge
        exact absurd hle (Nat.not_le.2 hge)
    · exact .inr (.inr rfl)
    · exact absurd hle (Nat.not_le.2 (hexit y hy))
  refine ⟨?_, (Extends.withNode b _).trans hx, ⟨?_, ?_⟩, ?_, ?_, ?_, ?_, ?_⟩
  · have hc₂ := ((Extends.withNode b _).trans (hw₁.later.trans hpart.later)).contains hc
    refine hw₃.sound hpart.sound ?_
    rintro e (rfl | ⟨y, hy, rfl⟩)
    · exact ⟨contains_of_node? hnode, hpart.ends.entry.2⟩
    · exact ⟨(hpart.ends.exit y hy).placed.2, hc₂⟩
  · exact (hw₃.node? _).trans hnode
  · exact hx.no_hop hlt (hb.fresh _).2
  · intro e he hlt'
    rcases hedges e he (Nat.le_of_lt hlt') with he | he | rfl
    · exact .inl he
    · exact .inr he
    · exact absurd hlt' (Nat.lt_irrefl _)
  · intro e he hs
    rcases hedges e he (Nat.le_of_eq hs) with he | ⟨p, hp, rfl⟩ | rfl
    · exact absurd hs (Nat.ne_of_lt (hb.source_lt he))
    · exact absurd hs (Nat.ne_of_lt (lt_of_contains (hpending p hp)))
    · rfl
  · exact (hw₃.mem_edges _).2 (.inr (.inl rfl))
  · exact fun p hp => (hpart.later.trans hw₃.later).edges _
      ((hw₁.mem_edges _).2 (.inr ⟨p, hp, rfl⟩))
  · intro b'' hx' hmeets hnew
    refine hA.toward hpart (hw₃.later.trans hx') hmeets ?_ ?_ ?_
    · rw [hsize]
      exact Nat.lt_succ_of_lt (lt_of_contains hc)
    · intro e he hnot hge hlt'
      rw [hsize] at hge
      have he' := hnew e he hge (by rw [hw₃.size]; exact hlt')
      rcases (hw₃.mem_edges e).1 he' with he' | rfl | ⟨y, hy, rfl⟩
      · exact absurd he' hnot
      · exact absurd hge (Nat.not_succ_le_self _)
      · exact ⟨hy, rfl⟩
    · exact fun y hy => hx'.edges _ ((hw₃.mem_edges _).2 (.inr (.inr ⟨y, hy, rfl⟩)))

/-- **A guarded branch is lowered.** -/
theorem follows_guarded {pending : Option NodeId} {t : Term} {body : Attempt Body Fragment}
    {read : Attempt Reading Behaviour} (hlocal : Local set body)
    (hbody : Tracks exact labels breaks body read) (hb : Ready labels b)
    (hc : b.graph.contains c = true)
    (hpending : ∀ p, pending = some p → b.graph.contains p = true) :
    Follows (guarded c pending t body) read b fun guard A b' =>
      guard = b.size ∧ (∃ yes, BranchAt exact b b' c pending t yes A) ∧
        b'.loops.map LoopFrame.label = labels ∧ ∀ i ∈ breaks, ∃ x, b'.Hop .leave i x := by
  refine .add hb.sound.vacant ?_
  have hrest : ∀ b₁, Wired (fun e => ∃ p, pending = some p ∧ e = ⟨p, b.size, .whenFalse⟩)
      (b.withNode (.ofTerm t)) b₁ → Follows (do
        let taken ← body
        edge b.size taken.entry .whenTrue
        connect taken.exit c
        return b.size) read b₁ fun guard A b' =>
      guard = b.size ∧ (∃ yes, BranchAt exact b b' c pending t yes A) ∧
        b'.loops.map LoopFrame.label = labels ∧ ∀ i ∈ breaks, ∃ x, b'.Hop .leave i x := by
    intro b₁ hw₁
    have hb₁ : Ready labels b₁ := by
      refine ⟨hw₁.sound (hb.sound.withNode _) ?_, hw₁.loops ▸ hb.labels⟩
      rintro e ⟨p, hp, rfl⟩
      exact ⟨(Extends.withNode b _).contains (hpending p hp),
        contains_of_node? (node?_withNode b _)⟩
    refine ((hbody b₁ hb₁).part hlocal hb₁.sound).andThen ?_
    rintro taken A b₂ ⟨hpart, hA⟩
    refine .wire (wires_edge _ _ _) fun b₃ hw₂ => .wire (wires_connect _ _) fun b₄ hw₃ => .pure ?_
    have hw := hw₂.trans hw₃
    refine ⟨rfl, ⟨_, branchAt_of_wired hb.sound hc hpending hw₁ hpart hA.realizes hw⟩, ?_,
      hw.later.left hA.left⟩
    rw [hw.loops, hpart.grew.labels, hb₁.labels]
  cases pending with
  | none => exact hrest _ ((Wired.refl _).imp fun e => by simp)
  | some p => exact .wire (wires_edge _ _ _) fun b₁ hw => hrest b₁ (hw.imp fun e => by simp)

/-! ### A chain of guards -/

/-- Guards with branches towards `c` that were lowered between `b` and `b'`.  Where
there are any, the first takes the false edge of a guard before them, and the false
edge of the last is open. -/
structure ChainAt (exact : Prop) (b b' : Body) (c : NodeId) (pending first last : Option NodeId)
    (branches : List (Term × Behaviour)) : Prop where
  sound : Sound b'
  later : Extends b b'
  old : ∀ e ∈ b'.graph.edges, e.source < b.size →
    e ∈ b.graph.edges ∨ ∃ p m, pending = some p ∧ first = some m ∧ e = ⟨p, m, .whenFalse⟩
  linked : ∀ p m, pending = some p → first = some m → ⟨p, m, .whenFalse⟩ ∈ b'.graph.edges
  ends : first = none ↔ last = none
  first_le : ∀ m, first = some m → b.size ≤ m
  last_le : ∀ l, last = some l → b.size ≤ l ∧ b'.graph.contains l = true
  realizes : ∀ b'' no R, Extends b' b'' → Meets b'' c →
    (∀ e ∈ b''.graph.edges, b.size ≤ e.source → e.source < b'.size →
      e ∈ b'.graph.edges ∨ ∃ l m, last = some l ∧ no = some m ∧ e = ⟨l, m, .whenFalse⟩) →
    (∀ l m, last = some l → no = some m → ⟨l, m, .whenFalse⟩ ∈ b''.graph.edges) →
    Continues exact b'' c no R → Continues exact b'' c (first.or no) (Behaviour.choose branches R)

theorem ChainAt.nil (hb : Sound b) (pending : Option NodeId) :
    ChainAt exact b b c pending none none [] where
  sound := hb
  later := .refl b
  old _ he _ := .inl he
  linked _ _ _ h := by cases h
  ends := Iff.rfl
  first_le _ h := by cases h
  last_le _ h := by cases h
  realizes _ _ _ _ _ _ _ hR := hR

section Cons

/-! The edges around a guard in front of a chain, once the false edge of the last guard
leads to `no`. -/

variable {pending first last no : Option NodeId} {t : Term} {yes : NodeId} {A : Behaviour}
  {branches : List (Term × Behaviour)} {b'' : Body}
  (h : BranchAt exact b b₁ c pending t yes A)
  (hrest : ChainAt exact b₁ b' c (some b.size) first last branches)
  (hnew : ∀ e ∈ b''.graph.edges, b.size ≤ e.source → e.source < b'.size →
    e ∈ b'.graph.edges ∨ ∃ l m, some (last.getD b.size) = some l ∧ no = some m ∧
      e = ⟨l, m, .whenFalse⟩)

include h hrest hnew

theorem ChainAt.edges_rest {e : Edge} (he : e ∈ b''.graph.edges) (hge : b₁.size ≤ e.source)
    (hlt : e.source < b'.size) :
    e ∈ b'.graph.edges ∨ ∃ l m, last = some l ∧ no = some m ∧ e = ⟨l, m, .whenFalse⟩ := by
  rcases hnew e he (Nat.le_trans (Nat.le_of_lt h.size_lt) hge) hlt with he | ⟨l, m, hl, hm, rfl⟩
  · exact .inl he
  · cases last with
    | none =>
      cases hl
      exact absurd hge (Nat.not_le.2 h.size_lt)
    | some l' => exact .inr ⟨l', m, rfl, hm, by cases hl; rfl⟩

omit h in
theorem ChainAt.edges_branch {e : Edge} (he : e ∈ b''.graph.edges) (hgt : b.size < e.source)
    (hlt : e.source < b₁.size) : e ∈ b₁.graph.edges := by
  rcases hnew e he (Nat.le_of_lt hgt) (Nat.lt_of_lt_of_le hlt hrest.later.size_le) with
    he | ⟨l, m, hl, -, rfl⟩
  · rcases hrest.old e he hlt with he | ⟨p, m, hp, -, rfl⟩
    · exact he
    · cases hp
      exact absurd hgt (Nat.lt_irrefl _)
  · cases last with
    | none =>
      cases hl
      exact absurd hgt (Nat.lt_irrefl _)
    | some l' =>
      cases hl
      exact absurd hlt (Nat.not_lt.2 (hrest.last_le _ rfl).1)

theorem ChainAt.edges_guard {e : Edge} (he : e ∈ b''.graph.edges) (hs : e.source = b.size) :
    e = ⟨b.size, yes, .whenTrue⟩ ∨ ∃ m, first.or no = some m ∧ e = ⟨b.size, m, .whenFalse⟩ := by
  have hlt : e.source < b'.size := hs ▸ Nat.lt_of_lt_of_le h.size_lt hrest.later.size_le
  rcases hnew e he (Nat.le_of_eq hs.symm) hlt with he | ⟨l, m, hl, hm, rfl⟩
  · rcases hrest.old e he (hs ▸ h.size_lt) with he | ⟨p, m, hp, hm, rfl⟩
    · exact .inl (h.own e he hs)
    · cases hp
      exact .inr ⟨m, by rw [hm]; rfl, rfl⟩
  · cases hlast : last with
    | none =>
      rw [hlast] at hl
      cases hl
      exact .inr ⟨m, by rw [hrest.ends.2 hlast, hm]; rfl, rfl⟩
    | some l' =>
      rw [hlast] at hl
      cases hl
      exact absurd hs (Nat.ne_of_gt (Nat.lt_of_lt_of_le h.size_lt (hrest.last_le _ hlast).1))

end Cons

theorem ChainAt.false_edge {first last no : Option NodeId} {branches : List (Term × Behaviour)}
    {b'' : Body} (hrest : ChainAt exact b₁ b' c (some b.size) first last branches)
    (hx : Extends b' b'')
    (hlink : ∀ m, no = some m → ⟨last.getD b.size, m, .whenFalse⟩ ∈ b''.graph.edges) {m : NodeId}
    (hm : first.or no = some m) : ⟨b.size, m, .whenFalse⟩ ∈ b''.graph.edges := by
  cases hfirst : first with
  | some m' =>
    rw [hfirst] at hm
    cases hm
    exact hx.edges _ (hrest.linked b.size m rfl hfirst)
  | none =>
    rw [hfirst] at hm
    have hlinked := hlink m hm
    rwa [hrest.ends.1 hfirst] at hlinked

/-- **One more guard in front of a chain.** -/
theorem ChainAt.cons {pending first last : Option NodeId} {t : Term} {yes : NodeId} {A : Behaviour}
    {branches : List (Term × Behaviour)} (h : BranchAt exact b b₁ c pending t yes A)
    (hcb : c < b.size) (hrest : ChainAt exact b₁ b' c (some b.size) first last branches) :
    ChainAt exact b b' c pending (some b.size) (some (last.getD b.size)) ((t, A) :: branches) where
  sound := hrest.sound
  later := h.later.trans hrest.later
  old e he hlt := by
    rcases hrest.old e he (Nat.lt_trans hlt h.size_lt) with he | ⟨p, m, hp, -, rfl⟩
    · exact (h.old e he hlt).imp_right fun ⟨p, hp, heq⟩ => ⟨p, b.size, hp, rfl, heq⟩
    · cases hp
      exact absurd hlt (Nat.lt_irrefl _)
  linked p m hp hm := by
    cases hm
    exact hrest.later.edges _ (h.linked p hp)
  ends := by simp
  first_le m hm := by
    cases hm
    exact Nat.le_refl _
  last_le l hl := by
    cases hl
    cases last with
    | none =>
      exact ⟨Nat.le_refl _, hrest.later.contains (contains_of_node? h.guard.node)⟩
    | some l =>
      obtain ⟨hle, hl⟩ := hrest.last_le l rfl
      exact ⟨Nat.le_trans (Nat.le_of_lt h.size_lt) hle, hl⟩
  realizes b'' no R hx hmeets hnew hlink hR := by
    have hlater : Extends b₁ b'' := hrest.later.trans hx
    have hbranch : Realizes exact b'' ⟨yes, some c⟩ A :=
      h.realizes b'' hlater hmeets fun _ he => hrest.edges_branch hnew he
    have hothers : Continues exact b'' c (first.or no) (Behaviour.choose branches R) := by
      refine hrest.realizes b'' no R hx hmeets (fun _ he => hrest.edges_rest h hnew he) ?_ hR
      rintro l m rfl hm
      exact hlink l m rfl hm
    have hguard : TestsAt b'' b.size t :=
      ⟨(hlater.node? _ h.size_lt).trans h.guard.node, hlater.no_hop h.size_lt h.guard.no_hop⟩
    exact Realizes.choice hguard (Nat.ne_of_gt hcb) (fun _ he => hrest.edges_guard h hnew he)
      (hlater.edges _ h.taken) (fun _ hm => hrest.false_edge hx (fun m => hlink _ m rfl) hm)
      hbranch hothers

theorem ChainAt.of_eq {pending first last : Option NodeId} {branches : List (Term × Behaviour)}
    (h : ChainAt exact b₁ b' c pending first last branches) (hg : b₁.graph = b.graph)
    (hl : b₁.loops = b.loops) : ChainAt exact b b' c pending first last branches := by
  obtain ⟨context, graph, loops, fresh⟩ := b₁
  subst hg hl
  exact ⟨h.sound, ⟨h.later.size_le, h.later.node?, h.later.edges, h.later.hop, h.later.hop_old⟩,
    h.old, h.linked, h.ends, h.first_le, h.last_le, h.realizes⟩

/-! ### `if` and `match` -/

theorem ChainAt.meets {pos : Position} {first last : Option NodeId}
    {branches : List (Term × Behaviour)}
    (h : ChainAt exact (b.withNode (.noOp pos)) b₁ b.size none first last branches) (hb : Sound b)
    (hx : Extends b₁ b')
    (hnew : ∀ e ∈ b'.graph.edges, e.source = b.size → e ∈ b₁.graph.edges) : Meets b' b.size := by
  have hlt : b.size < (b.withNode (.noOp pos)).size := by rw [size_withNode]; exact Nat.lt_succ_self _
  have hall := h.later.trans hx
  refine ⟨⟨pos, (hall.node? _ hlt).trans (node?_withNode b _)⟩, fun e he hs => ?_,
    hall.no_hop hlt (hb.fresh _).2⟩
  have he := hnew e (mem_edges_cut.1 he).1 hs
  rcases h.old e he (hs ▸ hlt) with he | ⟨p, m, hp, -⟩
  · exact absurd hs (Nat.ne_of_lt (hb.source_lt he))
  · cases hp

/-- Lowering some guards towards a node gives a chain with the branches that are
read. -/
def TracksGuards (exact : Prop) (labels : List (Option String)) (breaks : List Nat)
    (act : NodeId → Attempt Body (Option α)) (guards : α → Guards)
    (read : Attempt Reading (List (Term × Behaviour))) (agree : α → Prop) : Prop :=
  ∀ b c, Ready labels b → b.graph.contains c = true → Follows (act c) read b fun r branches b' =>
    Ready labels b' ∧ (∀ i ∈ breaks, ∃ x, b'.Hop .leave i x) ∧ ∃ a, r = some a ∧ agree a ∧
      ChainAt exact b b' c none (some (guards a).first) (some (guards a).last) branches

/-- **An `if` chain.** -/
theorem tracks_ifChain (pos : Position) {clauses : NodeId → Attempt Body (Option Guards)}
    {read : Attempt Reading (List (Term × Behaviour))} {otherwise : Option (Attempt Body Fragment)}
    {readLast : Attempt Reading Behaviour} {breaks' : List Nat}
    (hclauses : TracksGuards exact labels breaks clauses id read fun _ => True)
    (hlocal : ∀ m, otherwise = some m → Local set m)
    (hsome : ∀ m, otherwise = some m → Tracks exact labels breaks' m readLast)
    (hnone : otherwise = none → readLast = pure .nothing ∧ breaks' = []) :
    Tracks exact labels (breaks ++ breaks') (ifChain pos clauses otherwise) (do
      let branches ← read
      let last ← readLast
      return Behaviour.choose branches last) := by
  intro b hb
  refine .add hb.sound.vacant ?_
  have hb₁ : Ready labels (b.withNode (.noOp pos)) := ⟨hb.sound.withNode _, hb.labels⟩
  refine (hclauses _ b.size hb₁ (contains_of_node? (node?_withNode b _))).bind ?_
  rintro _ branches b₂ ⟨hb₂, hleft, gs, rfl, -, hchain⟩
  have hlast := hchain.last_le gs.last rfl
  have hsize : (b.withNode (.noOp pos)).size = b.size + 1 := size_withNode b _
  cases otherwise with
  | none =>
    obtain ⟨rfl, rfl⟩ := hnone rfl
    refine .wire (wires_edge _ _ _) fun b₃ hw => .pure ?_
    have hmeets : Meets b₃ b.size := by
      refine hchain.meets hb.sound hw.later fun e he hs => ?_
      rcases (hw.mem_edges e).1 he with he | rfl
      · exact he
      · exact absurd hs (Nat.ne_of_gt (Nat.lt_of_lt_of_le (by rw [hsize]; omega) hlast.1))
    refine ⟨hchain.realizes b₃ (some b.size) .nothing hw.later hmeets ?_ ?_ hmeets.nothing, ?_⟩
    · exact fun e he _ _ => ((hw.mem_edges e).1 he).imp_right fun h => ⟨_, _, rfl, rfl, h⟩
    · rintro _ _ ⟨⟩ ⟨⟩
      exact (hw.mem_edges _).2 (.inr rfl)
    · rw [List.append_nil]
      exact hw.later.left hleft
  | some m =>
    refine ((hsome m rfl b₂ hb₂).part (hlocal m rfl) hb₂.sound).bind ?_
    rintro taken A b₃ ⟨hpart, hA⟩
    refine .wire (wires_edge _ _ _) fun b₄ hw₁ => .wire (wires_connect _ _) fun b₅ hw₂ => .pure ?_
    have hw := hw₁.trans hw₂
    have hlastlt := lt_of_contains hlast.2
    have hexit : ∀ y, taken.exit = some y → b₂.size ≤ y := fun y hy => (hpart.ends.exit y hy).1
    have hconv : b.size < b₂.size :=
      Nat.lt_of_lt_of_le (by rw [hsize]; exact Nat.lt_succ_self _) hchain.later.size_le
    -- the edges from the nodes before the last block
    have hold : ∀ e ∈ b₅.graph.edges, e.source < b₂.size →
        e ∈ b₂.graph.edges ∨ e = ⟨gs.last, taken.entry, .whenFalse⟩ := by
      intro e he hlt
      rcases (hw.mem_edges e).1 he with he | rfl | ⟨y, hy, rfl⟩
      · exact .inl ((hpart.mem_edges he).resolve_right fun h => absurd hlt (Nat.not_lt.2 h.1))
      · exact .inr rfl
      · exact absurd hlt (Nat.not_lt.2 (hexit y hy))
    have hmeets : Meets b₅ b.size := by
      refine hchain.meets hb.sound (hpart.later.trans hw.later) fun e he hs => ?_
      rcases hold e he (hs ▸ hconv) with he | rfl
      · exact he
      · exact absurd hs (Nat.ne_of_gt (Nat.lt_of_lt_of_le (by rw [hsize]; omega) hlast.1))
    have htaken : Realizes exact b₅ ⟨taken.entry, some b.size⟩ A := by
      refine hA.realizes.toward hpart hw.later hmeets hconv ?_ ?_
      · intro e he hnot hge _
        rcases (hw.mem_edges e).1 he with he | rfl | ⟨y, hy, rfl⟩
        · exact absurd he hnot
        · exact absurd hge (Nat.not_le.2 hlastlt)
        · exact ⟨hy, rfl⟩
      · exact fun y hy => (hw.mem_edges _).2 (.inr (.inr ⟨y, hy, rfl⟩))
    refine ⟨hchain.realizes b₅ (some taken.entry) A (hpart.later.trans hw.later) hmeets ?_ ?_
      htaken, ?_⟩
    · exact fun e he _ hlt => (hold e he hlt).imp_right fun h => ⟨_, _, rfl, rfl, h⟩
    · rintro _ _ ⟨⟩ ⟨⟩
      exact (hw.mem_edges _).2 (.inr (.inl rfl))
    · intro i hi
      rcases List.mem_append.1 hi with hi | hi
      · exact (hpart.later.trans hw.later).left hleft i hi
      · exact hw.later.left hA.left i hi

/-- A construct whose exit is not reached can do without it. -/
theorem Realizes.exitless {B : Behaviour} (h : Realizes exact b ⟨n, some c⟩ B) (hne : n ≠ c)
    (hin : ∀ e ∈ b.graph.edges, e.target ≠ c) : Realizes exact b ⟨n, none⟩ B := by
  have hnot : ∀ w x, Route b.flow n w x → x ≠ c := by
    intro w x hr
    clear h
    induction hr with
    | nil => exact hne
    | cons he _ ih => exact ih (hin _ (mem_edges_cut.1 he).1)
  have hends : ∀ out x, x ≠ c → (b.Ends none out x ↔ b.Ends (some c) out x) := by
    intro out x hx
    cases out with
    | completes => simpa [Ends] using fun h => absurd h.symm hx
    | returns => exact Iff.rfl
    | jumps k i => exact Iff.rfl
  constructor
  · intro run out hrun
    obtain ⟨x, ⟨w, hr, rfl⟩, hend, hh⟩ := h.sound run out hrun
    exact ⟨x, ⟨w, hr, rfl⟩, (hends out x (hnot w x hr)).2 hend, hh⟩
  · intro hexact w x hr
    obtain ⟨hall, hhalt⟩ := h.complete hexact w x hr
    have hx := hnot w x hr
    exact ⟨fun out hend => hall out ((hends out x hx).1 hend),
      fun hh => (hhalt hh).imp fun out => (hends out x hx).2⟩

theorem incoming_isEmpty {g : Graph} :
    (g.incoming c).isEmpty = true ↔ ∀ e ∈ g.edges, e.target ≠ c := by
  simp [incoming, List.isEmpty_iff, List.filter_eq_nil_iff]

/-- **A `match`.** -/
theorem tracks_matchChain (pos : Position) (sink : Sink)
    {arms : NodeId → Attempt Body (Option (Guards × Bool))}
    {read : Attempt Reading (List (Term × Behaviour))} {exhaustive : Bool}
    (harms : TracksGuards exact labels breaks arms Prod.fst read fun a => a.2 = exhaustive) :
    Tracks exact labels breaks (matchChain pos sink arms) (do
      let branches ← read
      return Behaviour.choose branches
        (if exhaustive || sink.isReturned then .never else .nothing)) := by
  intro b hb
  refine .add hb.sound.vacant ?_
  have hb₁ : Ready labels (b.withNode (.noOp pos)) := ⟨hb.sound.withNode _, hb.labels⟩
  refine (harms _ b.size hb₁ (contains_of_node? (node?_withNode b _))).bind ?_
  rintro _ branches b₂ ⟨hb₂, hleft, ⟨gs, exhaustive⟩, rfl, rfl, hchain⟩
  have hsize : (b.withNode (.noOp pos)).size = b.size + 1 := size_withNode b _
  have hfirst : b.size < gs.first :=
    Nat.lt_of_lt_of_le (by rw [hsize]; exact Nat.lt_succ_self _) (hchain.first_le _ rfl)
  have hlast : b.size < gs.last :=
    Nat.lt_of_lt_of_le (by rw [hsize]; exact Nat.lt_succ_self _) (hchain.last_le _ rfl).1
  have hrest : ∀ (b₃ : Body) (no : Option NodeId) (R : Behaviour),
      Wired (fun e => ∃ m, no = some m ∧ e = ⟨gs.last, m, .whenFalse⟩) b₂ b₃ →
      (Meets b₃ b.size → Continues exact b₃ b.size no R) →
      Follows (do
        let now ← get
        return (⟨gs.first, if !(now.graph.incoming b.size).isEmpty then some b.size else none⟩ :
          Fragment)) (pure (Behaviour.choose branches R)) b₃
        fun f B b' => Tracked exact breaks b' f B := by
    intro b₃ no R hw hR
    refine .alone (Attempt.get_run b₃) rfl (.pure ⟨?_, hw.later.left hleft⟩)
    have hmeets : Meets b₃ b.size := by
      refine hchain.meets hb.sound hw.later fun e he hs => ?_
      rcases (hw.mem_edges e).1 he with he | ⟨m, -, rfl⟩
      · exact he
      · exact absurd hs (Nat.ne_of_gt hlast)
    have hall : Realizes exact b₃ ⟨gs.first, some b.size⟩ (Behaviour.choose branches R) := by
      refine hchain.realizes b₃ no R hw.later hmeets ?_ ?_ (hR hmeets)
      · exact fun e he _ _ => ((hw.mem_edges e).1 he).imp_right fun ⟨m, hm, h⟩ => ⟨_, m, rfl, hm, h⟩
      · rintro _ m ⟨⟩ hm
        exact (hw.mem_edges _).2 (.inr ⟨m, hm, rfl⟩)
    cases hin : (b₃.graph.incoming b.size).isEmpty with
    | false => exact hall
    | true => exact hall.exitless (Nat.ne_of_gt hfirst) (incoming_isEmpty.1 hin)
  by_cases hfail : (!exhaustive && !sink.isReturned) = true
  · have hopen : (exhaustive || sink.isReturned) = false := by
      rw [← Bool.not_or, Bool.not_eq_true'] at hfail
      exact hfail
    simp only [hfail, hopen, if_true]
    exact .wire (wires_edge _ _ _) fun b₃ hw =>
      hrest b₃ (some b.size) .nothing (hw.imp fun e => by simp) fun hmeets => hmeets.nothing
  · have hclosed : (exhaustive || sink.isReturned) = true := by
      rw [← Bool.not_or, Bool.not_eq_true', Bool.not_eq_false] at hfail
      exact hfail
    simp only [hfail, hclosed, if_true]
    exact hrest b₂ none .never ((Wired.refl b₂).imp fun e => by simp) fun _ => rfl

end Body
end RustFlow
