/-
# Computations that differ in the local variables

Two states are *near* if they differ in the local variables only, and in those only at
stale names and at the iterators of loops that have ended.  A computation *mirrors*
another over a scoping if from near states both have one outcome and reach near
states, the stale names moving as the scoping says.  Whatever the names, it leaves the
iterators alone that are there, and each one that it names gets a loop (`Framed`).

`Mirrors` is about single computations and closed under sequence, so it is shown of
each construct from its parts.  A part that neither reads nor binds variables is
`Blind`; it mirrors itself over `nothing`.
-/

import RustFlow.Lowering.Fragment
import RustFlow.Proofs.Attempt
import RustFlow.Proofs.Bindings
import RustFlow.Proofs.GraphOps
import RustFlow.Proofs.Scoping

namespace RustFlow

open Attempt Ast

def iteratorName (stem : String) (k : Nat) : String := stem ++ toString k

theorem iteratorName_inj {stem : String} {i k : Nat}
    (h : iteratorName stem i = iteratorName stem k) : i = k := by
  have h : toString i = toString k := (String.append_right_inj stem).1 h
  rw [Nat.toString_eq_ofList_toDigits, Nat.toString_eq_ofList_toDigits, String.ofList_inj] at h
  rw [← Nat.ofDigitChars_ten_toDigits (n := i), h, Nat.ofDigitChars_ten_toDigits]

/-- No word is the name of an iterator. -/
def Scoping.Avoids (stem : String) (k : Scoping) : Prop :=
  ∀ name ∈ k.words, ∀ i, name ≠ iteratorName stem i

theorem Scoping.Avoids.fst {stem : String} {a b : Scoping} (h : (Scoping.seq a b).Avoids stem) :
    a.Avoids stem := fun name hname => h name (List.mem_append_left _ hname)

theorem Scoping.Avoids.snd {stem : String} {a b : Scoping} (h : (Scoping.seq a b).Avoids stem) :
    b.Avoids stem := fun name hname => h name (List.mem_append_right _ hname)

theorem Scoping.Avoids.seq_nothing {stem : String} {a : Scoping} (h : a.Avoids stem) :
    (Scoping.seq a .nothing).Avoids stem := by
  simpa only [Scoping.Avoids, Scoping.words, List.append_nil] using h

/-- The statement `let pat = v.next()`. -/
def Statement.step (v : Variable) (type : TypeId) (p : Pattern) (pos : Position) : Statement :=
  .ofTerm (.mk (.declare p none (some (.mk (.call "next" none true [.mk (.var v) type pos])
    .unknown pos))) .unknown pos)

namespace Graph

variable {g g' g'' : Graph} {name : String} {init : NodeId}

/-- The nodes and edges of a graph are still there in another one. -/
structure Retained (g g' : Graph) : Prop where
  slots : g.slots <+: g'.slots
  edges : g.edges ⊆ g'.edges
  vacant : g'.vacant = []

theorem Retained.trans (h : g.Retained g') (h' : g'.Retained g'') : g.Retained g'' :=
  ⟨h.slots.trans h'.slots, List.Subset.trans h.edges h'.edges, h'.vacant⟩

theorem Retained.node? (h : g.Retained g') {n : NodeId} {s : Statement}
    (hn : g.node? n = some s) : g'.node? n = some s := by
  obtain ⟨ss, hss⟩ := h.slots
  rw [Graph.node?, ← hss, List.getElem?_append_left (lt_of_contains (contains_of_node? hn))]
  exact hn

/-- A loop over a mutable iterator, which is declared in the node `init`.  The first step
and the later one are the same statement: it calls `next` on that iterator. -/
def Iterated (g : Graph) (name : String) (init : NodeId) : Prop :=
  ∃ (source : Term) (p : Pattern) (pos place : Position) (first guard step : NodeId),
    g.node? init = some (.ofTerm (.mk (.declare (.binding ⟨name, true⟩) none (some source))
      source.type pos)) ∧
    g.node? first = some (.step ⟨name, true⟩ source.type p place) ∧
    g.node? step = some (.step ⟨name, true⟩ source.type p place) ∧ first ≠ step ∧
    ⟨init, first, .sequential⟩ ∈ g.edges ∧ ⟨first, guard, .sequential⟩ ∈ g.edges ∧
    ⟨step, guard, .sequential⟩ ∈ g.edges

theorem Iterated.mono (h : g.Iterated name init) (hg : g.Retained g') :
    g'.Iterated name init := by
  obtain ⟨source, p, pos, place, first, guard, step, hinit, hfirst, hstep, hne, hedges⟩ := h
  exact ⟨source, p, pos, place, first, guard, step, hg.node? hinit, hg.node? hfirst,
    hg.node? hstep, hne, hg.edges hedges.1, hg.edges hedges.2.1, hg.edges hedges.2.2⟩

end Graph

/-- What is there stays, and every iterator that is named on the way gets a loop. -/
def Body.Since (stem : String) (b b' : Body) : Prop :=
  b.graph.vacant = [] → b.graph.Retained b'.graph ∧
    ∀ k, b.fresh ≤ k → k < b'.fresh → ∃ init, b'.graph.Iterated (iteratorName stem k) init

theorem Body.Since.of_fresh {stem : String} {b b' : Body} (hfresh : b'.fresh = b.fresh)
    (hg : b.graph.vacant = [] → b.graph.Retained b'.graph) : Body.Since stem b b' :=
  fun hv => ⟨hg hv, fun _ hk hlt => absurd hlt (Nat.not_lt.2 (hfresh ▸ hk))⟩

theorem Body.Since.of_graph {stem : String} {b b' : Body} (hgraph : b'.graph = b.graph)
    (hfresh : b'.fresh = b.fresh) : Body.Since stem b b' :=
  .of_fresh hfresh fun hv =>
    ⟨hgraph ▸ List.prefix_rfl, hgraph ▸ List.Subset.refl _, hgraph ▸ hv⟩

theorem Body.Since.trans {stem : String} {b b₁ b' : Body} (h : Body.Since stem b b₁)
    (h' : Body.Since stem b₁ b') : Body.Since stem b b' := by
  intro hv
  obtain ⟨hg, hloops⟩ := h hv
  obtain ⟨hg', hloops'⟩ := h' hg.vacant
  refine ⟨hg.trans hg', fun k hk hlt => ?_⟩
  by_cases hmid : k < b₁.fresh
  · exact (hloops k hk hmid).imp fun _ hinit => hinit.mono hg'
  · exact hloops' k (Nat.le_of_not_lt hmid) hlt

/-- A state with local variables in it.  The iterators that it has not named yet are
`pending`, and `since` says what becomes of those that are named. -/
class Localized (σ : Type) where
  locals : σ → Locals
  withLocals : Locals → σ → σ
  pending : σ → Nat → Prop
  since : String → σ → σ → Prop
  since_refl (stem : String) (x : σ) : since stem x x
  since_trans {stem : String} {x y z : σ} : since stem x y → since stem y z → since stem x z
  locals_with (l : Locals) (x : σ) : locals (withLocals l x) = l
  with_with (l l' : Locals) (x : σ) : withLocals l (withLocals l' x) = withLocals l x
  with_locals (x : σ) : withLocals (locals x) x = x

/-- Lowering an expression names no iterators. -/
instance : Localized Context where
  locals := Context.locals
  withLocals l c := { c with locals := l }
  pending _ _ := False
  since _ _ _ := True
  since_refl _ _ := trivial
  since_trans _ _ := trivial
  locals_with _ _ := rfl
  with_with _ _ _ := rfl
  with_locals _ := rfl

instance : Localized Body where
  locals b := b.context.locals
  withLocals l b := { b with context := { b.context with locals := l } }
  pending b k := b.fresh ≤ k
  since := Body.Since
  since_refl _ _ := .of_graph rfl rfl
  since_trans := .trans
  locals_with _ _ := rfl
  with_with _ _ _ := rfl
  with_locals _ := rfl

open Localized

section Relations

variable {σ α β : Type} [Localized σ] {stem : String} {J J' : Nat → Prop}
  {X Y Z A B : List String} {x y z : σ} {k : Nat}

/-- States that differ in the local variables only, and there only at the names in
`X` and at the iterators in `J`. -/
structure Near (stem : String) (J : Nat → Prop) (X : List String) (x y : σ) : Prop where
  rest : y = withLocals (locals y) x
  lookup : ∀ name ∉ X, (∀ k, J k → name ≠ iteratorName stem k) →
    (locals x).lookup name = (locals y).lookup name
  pending : ∀ k, pending x k → J k
  plain : ∀ name ∈ X, ∀ k, name ≠ iteratorName stem k

/-- What a computation leaves alone: the variables that are neither in `B` nor iterators
it may have named.  Those that it has named have got loops. -/
structure Framed (stem : String) (B : List String) (x y : σ) : Prop where
  pending : ∀ k, pending y k → pending x k
  lookup : ∀ name ∉ B, (∀ k, Localized.pending x k → name ≠ iteratorName stem k) →
    (locals y).lookup name = (locals x).lookup name
  since : since stem x y

theorem Near.weaken (h : Near stem J X x y) (hJ : ∀ k, J k → J' k) : Near stem J' X x y :=
  ⟨h.rest, fun name hX hJ' => h.lookup name hX fun k hk => hJ' k (hJ k hk),
    fun k hk => hJ k (h.pending k hk), h.plain⟩

theorem Framed.refl (B : List String) (x : σ) : Framed stem B x x :=
  ⟨fun _ h => h, fun _ _ _ => rfl, since_refl _ _⟩

theorem Framed.trans (h : Framed stem A x y) (h' : Framed stem B y z) :
    Framed stem (A ++ B) x z := by
  refine ⟨fun k hk => h.pending k (h'.pending k hk), fun name hname hpending => ?_,
    since_trans h.since h'.since⟩
  rw [List.mem_append, not_or] at hname
  rw [h'.lookup name hname.2 fun k hk => hpending k (h.pending k hk),
    h.lookup name hname.1 hpending]

theorem Framed.mono (h : Framed stem A x y) (hAB : A ⊆ B) : Framed stem B x y :=
  ⟨h.pending, fun name hname => h.lookup name fun hA => hname (hAB hA), h.since⟩

/-- An iterator that is known stays as it is if no variable is bound under its name. -/
theorem Framed.lookup_iterator (h : Framed stem B x y)
    (hB : ∀ name ∈ B, ∀ i, name ≠ iteratorName stem i) (hk : ¬ Localized.pending x k) :
    (locals y).lookup (iteratorName stem k) = (locals x).lookup (iteratorName stem k) :=
  h.lookup _ (fun hmem => hB _ hmem k rfl) fun _ hi heq => hk (iteratorName_inj heq ▸ hi)

/-- The results of two computations: one outcome, states that differ in the local
variables, and after a success near ones. -/
structure Mirrored (stem : String) (J : Nat → Prop) (Y : List String)
    (r r' : Except Error α × σ) : Prop where
  outcome : r'.1 = r.1
  rest : r'.2 = withLocals (locals r'.2) r.2
  kept : ∀ v, r.1 = .ok v → Near stem J Y r.2 r'.2

/-- A successful run of a computation over a scoping leaves the other variables alone. -/
def Frames (stem : String) (k : Scoping) (m : Attempt σ α) : Prop :=
  k.Avoids stem → ∀ ⦃x v x'⦄, m x = (.ok v, x') → Framed stem k.bound x x'

/-- From near states both computations have one outcome and reach near states. -/
structure Mirrors (stem : String) (J : Nat → Prop) (k : Scoping) (m m' : Attempt σ α) : Prop where
  frames : Frames stem k m
  mirrored : ∀ ⦃X Y x y⦄, k.stale X = some Y → k.Avoids stem → Near stem J X x y →
    Mirrored stem J Y (m x) (m' y)

/-- **The rule for sequences.** -/
theorem Mirrored.bind {m m' : Attempt σ α} {f f' : α → Attempt σ β}
    (h : Mirrored stem J Y (m x) (m' y))
    (hf : ∀ v x₁ y₁, m x = (.ok v, x₁) → Near stem J Y x₁ y₁ →
      Mirrored stem J Z (f v x₁) (f' v y₁)) :
    Mirrored stem J Z ((m >>= f) x) ((m' >>= f') y) := by
  obtain ⟨houtcome, hrest, hkept⟩ := h
  rw [bind_run, bind_run]
  rcases hm : m x with ⟨out, x₁⟩
  rcases hm' : m' y with ⟨out', y₁⟩
  rw [hm, hm'] at houtcome hrest
  rw [hm, hm'] at hkept
  obtain rfl : out' = out := houtcome
  cases out' with
  | error e => exact ⟨rfl, hrest, fun _ hv => by cases hv⟩
  | ok v => exact hf v x₁ y₁ hm (hkept v rfl)

/-- A computation that neither reads nor binds variables. -/
structure Blind (m : Attempt σ α) : Prop where
  run : ∀ l x, m (withLocals l x) = ((m x).1, withLocals l (m x).2)
  pending : ∀ x k, pending (m x).2 k → pending x k
  since : ∀ stem x, since stem x (m x).2

theorem Blind.locals {m : Attempt σ α} (h : Blind m) (x : σ) :
    locals (m x).2 = Localized.locals x := by
  have hrun := h.run (Localized.locals x) x
  rw [with_locals] at hrun
  rw [hrun]
  exact locals_with _ _

theorem Blind.mirrored {m : Attempt σ α} (h : Blind m) (hxy : Near stem J X x y) :
    Mirrored stem J X (m x) (m y) := by
  have hrun := h.run (Localized.locals y) x
  rw [← hxy.rest] at hrun
  have hrest : (m y).2 = withLocals (Localized.locals (m y).2) (m x).2 := by
    rw [h.locals y, hrun]
  refine ⟨by rw [hrun], hrest, fun v _ => ⟨hrest, ?_, ?_, hxy.plain⟩⟩
  · rw [h.locals x, h.locals y]
    exact hxy.lookup
  · exact fun k hk => hxy.pending k (h.pending x k hk)

theorem Blind.framed {m : Attempt σ α} (h : Blind m) {v : α} (hrun : m x = (.ok v, y)) :
    Framed stem [] x y := by
  obtain rfl : (m x).2 = y := congrArg Prod.snd hrun
  exact ⟨h.pending x, fun name _ _ => by rw [h.locals x], h.since stem x⟩

theorem Blind.frames {m : Attempt σ α} (h : Blind m) (k : Scoping) : Frames stem k m :=
  fun _ _ _ _ hrun => (h.framed hrun).mono (List.nil_subset _)

theorem Blind.mirrors {m : Attempt σ α} (h : Blind m) : Mirrors stem J .nothing m m := by
  refine ⟨h.frames _, fun X Y x y hstale _ hxy => ?_⟩
  obtain rfl : X = Y := Option.some.inj hstale
  exact h.mirrored hxy

theorem Blind.pure (v : α) : Blind (pure v : Attempt σ α) :=
  ⟨fun _ _ => rfl, fun _ _ h => h, fun _ _ => since_refl _ _⟩

theorem Blind.throw (e : Error) : Blind (throw e : Attempt σ α) :=
  ⟨fun _ _ => rfl, fun _ _ h => h, fun _ _ => since_refl _ _⟩

theorem Blind.bind {m : Attempt σ α} {f : α → Attempt σ β} (hm : Blind m) (hf : ∀ v, Blind (f v)) :
    Blind (m >>= f) := by
  constructor
  · intro l x
    rw [bind_run, bind_run, hm.run l x]
    rcases m x with ⟨e | v, x₁⟩
    · rfl
    · exact (hf v).run l x₁
  · intro x k hk
    have hx := hm.pending x
    rw [bind_run] at hk
    rcases hmx : m x with ⟨e | v, x₁⟩
    · rw [hmx] at hk hx
      exact hx k hk
    · rw [hmx] at hk hx
      exact hx k ((hf v).pending x₁ k hk)
  · intro stem x
    have hx := hm.since stem x
    rw [bind_run]
    rcases hmx : m x with ⟨e | v, x₁⟩
    · rw [hmx] at hx
      exact hx
    · rw [hmx] at hx
      exact since_trans hx ((hf v).since stem x₁)

theorem Blind.map {m : Attempt σ α} (hm : Blind m) (f : α → β) : Blind (f <$> m) := by
  constructor
  · intro l x
    rw [map_run, map_run, hm.run l x]
  · intro x k hk
    rw [map_run] at hk
    exact hm.pending x k hk
  · intro stem x
    rw [map_run]
    exact hm.since stem x

theorem Blind.read {f : σ → Attempt σ β} (hread : ∀ l x, f (withLocals l x) = f x)
    (hf : ∀ x, Blind (f x)) : Blind (get >>= f) := by
  constructor
  · intro l x
    rw [bind_run, bind_run, get_run, get_run]
    dsimp only
    rw [hread]
    exact (hf x).run l x
  · exact fun x k hk => (hf x).pending x k hk
  · exact fun stem x => (hf x).since stem x

/-! ### The rules of mirroring -/

theorem Frames.bind {a b : Scoping} {m : Attempt σ α} {f : α → Attempt σ β}
    (hm : Frames stem a m) (hf : ∀ x v x', m x = (.ok v, x') → Frames stem b (f v)) :
    Frames stem (.seq a b) (m >>= f) := by
  intro havoids x w z h
  obtain ⟨v, y, hv, hw⟩ := bind_ok h
  exact (hm havoids.fst hv).trans (hf x v y hv havoids.snd hw)

theorem Frames.seq_nothing {a : Scoping} {m : Attempt σ α}
    (h : Frames stem (.seq a .nothing) m) : Frames stem a m := by
  intro havoids x v x' hv
  simpa only [Scoping.bound, List.append_nil] using h havoids.seq_nothing hv

theorem Mirrors.throw (e : Error) (k : Scoping) :
    Mirrors stem J k (throw e : Attempt σ α) (throw e) :=
  ⟨(Blind.throw e).frames k, fun _ _ _ _ _ _ hxy => ⟨rfl, hxy.rest, fun _ hv => by cases hv⟩⟩

/-- The second part may rely on what the first one returns. -/
theorem Mirrors.seq_of {a b : Scoping} {m m' : Attempt σ α} {f f' : α → Attempt σ β}
    (hm : Mirrors stem J a m m') {P : α → Prop} (hP : ∀ x v x', m x = (.ok v, x') → P v)
    (hf : ∀ v, P v → Mirrors stem J b (f v) (f' v)) :
    Mirrors stem J (.seq a b) (m >>= f) (m' >>= f') := by
  refine ⟨hm.frames.bind fun x v x' hv => (hf v (hP x v x' hv)).frames, ?_⟩
  intro X Z x y hstale havoids hxy
  obtain ⟨Y, hY, hZ⟩ := Option.bind_eq_some_iff.1 hstale
  refine (hm.mirrored hY havoids.fst hxy).bind fun v x₁ y₁ hrun hnear => ?_
  exact (hf v (hP x v x₁ hrun)).mirrored hZ havoids.snd hnear

theorem Mirrors.seq {a b : Scoping} {m m' : Attempt σ α} {f f' : α → Attempt σ β}
    (hm : Mirrors stem J a m m') (hf : ∀ v, Mirrors stem J b (f v) (f' v)) :
    Mirrors stem J (.seq a b) (m >>= f) (m' >>= f') :=
  hm.seq_of (P := fun _ => True) (fun _ _ _ _ => trivial) fun v _ => hf v

theorem Mirrors.after_blind {b : Scoping} {m : Attempt σ α} {f f' : α → Attempt σ β}
    (hm : Blind m) (hf : ∀ v, Mirrors stem J b (f v) (f' v)) :
    Mirrors stem J b (m >>= f) (m >>= f') :=
  ⟨(hm.frames .nothing).bind fun _ v _ _ => (hf v).frames, fun _ _ _ _ hstale havoids hxy =>
    (hm.mirrored hxy).bind fun v _ _ _ hnear => (hf v).mirrored hstale havoids hnear⟩

theorem Mirrors.then_blind {a : Scoping} {m m' : Attempt σ α} {f : α → Attempt σ β}
    (hm : Mirrors stem J a m m') (hf : ∀ v, Blind (f v)) : Mirrors stem J a (m >>= f) (m' >>= f) :=
  ⟨(hm.frames.bind fun _ v _ _ => (hf v).frames .nothing).seq_nothing,
    fun _ _ _ _ hstale havoids hxy =>
      (hm.mirrored hstale havoids hxy).bind fun v _ _ _ hnear => (hf v).mirrored hnear⟩

theorem Mirrors.map {a : Scoping} {m m' : Attempt σ α} (hm : Mirrors stem J a m m') (f : α → β) :
    Mirrors stem J a (f <$> m) (f <$> m') := by
  constructor
  · intro havoids x v x' h
    obtain ⟨u, hu, -⟩ := map_ok h
    exact hm.frames havoids hu
  · intro X Y x y hstale havoids hxy
    obtain ⟨houtcome, hrest, hkept⟩ := hm.mirrored hstale havoids hxy
    rw [map_run, map_run]
    refine ⟨by rw [houtcome], hrest, fun v hv => ?_⟩
    cases hout : (m x).1 with
    | error e =>
      rw [hout] at hv
      cases hv
    | ok u => exact hkept u hout

theorem Mirrors.seq_nothing {a : Scoping} {m m' : Attempt σ α}
    (h : Mirrors stem J (.seq a .nothing) m m') : Mirrors stem J a m m' := by
  refine ⟨h.frames.seq_nothing, fun X Y x y hstale havoids hxy => ?_⟩
  exact h.mirrored (by simp only [Scoping.stale, hstale, Option.bind_some]) havoids.seq_nothing hxy

theorem Mirrors.nothing_seq {a : Scoping} {m m' : Attempt σ α} (h : Mirrors stem J a m m') :
    Mirrors stem J (.seq .nothing a) m m' := ⟨h.frames, h.mirrored⟩

theorem Mirrors.get {a : Scoping} {f f' : σ → Attempt σ β}
    (hread : ∀ X x y, Near stem J X x y → f' y = f' x) (hf : ∀ x, Mirrors stem J a (f x) (f' x)) :
    Mirrors stem J a (MonadState.get >>= f) (MonadState.get >>= f') := by
  refine ⟨fun havoids x _ _ h => (hf x).frames havoids h, fun X Y x y hstale havoids hxy => ?_⟩
  show Mirrored stem J Y (f x x) (f' y y)
  rw [hread X x y hxy]
  exact (hf x).mirrored hstale havoids hxy

theorem Mirrors.read {a : Scoping} {f f' : σ → Attempt σ β}
    (hread : ∀ l x, f' (withLocals l x) = f' x) (hf : ∀ x, Mirrors stem J a (f x) (f' x)) :
    Mirrors stem J a (MonadState.get >>= f) (MonadState.get >>= f') :=
  .get (fun _ x _ hxy => by rw [hxy.rest, hread]) hf

end Relations

/-! ### Variables -/

section Variables

variable {stem : String} {J : Nat → Prop} {X : List String} {c d : Context} {name : String}

theorem Near.arena_eq (h : Near stem J X c d) : d.arena = c.arena := by
  rw [h.rest]
  rfl

/-- A name that is neither stale nor an iterator stands for one variable. -/
theorem Near.local?_eq (h : Near stem J X c d) (hname : name ∉ X)
    (hJ : ∀ k, J k → name ≠ iteratorName stem k) : d.local? name = c.local? name :=
  (h.lookup name hname hJ).symm

theorem Near.mention_eq (h : Near stem J X c d) (hname : name ∉ X)
    (hJ : ∀ k, J k → name ≠ iteratorName stem k) : d.mention name = c.mention name := by
  unfold Context.mention
  rw [h.local?_eq hname hJ]

theorem Near.localType_eq (h : Near stem J X c d) (hname : name ∉ X)
    (hJ : ∀ k, J k → name ≠ iteratorName stem k) : d.localType name = c.localType name := by
  unfold Context.localType
  rw [h.local?_eq hname hJ]

end Variables

/-! ### Bindings

Binding a pattern puts entries for the names of its variables in front of the locals;
the entries depend on the types alone. -/

namespace Locals

variable (a : Arena)

/-- Some entries are put in front, for these names in reverse. -/
def Fronted (names : List String) (f : Locals → Locals) : Prop :=
  ∃ front : Locals, front.map Prod.fst = names.reverse ∧ ∀ l, f l = front ++ l

theorem fronted_bindPattern (p : Pattern) (type : TypeId) :
    Fronted (p.bindings.map Variable.name) (bindPattern a p type) := by
  obtain ⟨typed, hvs, hf⟩ := recorded_bindPattern a p type
  refine ⟨_, ?_, hf⟩
  rw [← hvs, List.map_reverse, List.map_map, List.map_map]
  rfl

/-- The entries in front are found first, and no others are. -/
theorem Fronted.lookup {names : List String} {f : Locals → Locals} (hf : Fronted names f)
    (l : Locals) (name : String) :
    (name ∉ names → (f l).lookup name = l.lookup name) ∧
      (name ∈ names → ∀ l', (f l).lookup name = (f l').lookup name) := by
  obtain ⟨front, hnames, hf⟩ := hf
  have hmem : name ∈ names ↔ name ∈ front.map Prod.fst := by rw [hnames, List.mem_reverse]
  rw [hf, List.lookup_append]
  constructor
  · intro hname
    have hnone : front.lookup name = none := by
      rw [List.lookup_eq_none_iff]
      intro entry hentry
      rw [bne_iff_ne]
      rintro rfl
      exact hname (hmem.2 (List.mem_map_of_mem hentry))
    rw [hnone, Option.none_or]
  · intro hname l'
    rw [hf, List.lookup_append]
    cases hfound : front.lookup name with
    | some entry => rfl
    | none =>
      obtain ⟨entry, hentry, rfl⟩ := List.mem_map.1 (hmem.1 hname)
      rw [List.lookup_eq_none_iff] at hfound
      exact absurd rfl (bne_iff_ne.1 (hfound entry hentry))

end Locals

section Bindings

variable {stem : String} {J : Nat → Prop} {X names : List String} {c d : Context}

/-- A binding makes its names agree and leaves the others alone. -/
theorem Near.lookup_fronted (h : Near stem J X c d) {f : Locals → Locals}
    (hf : Locals.Fronted names f) {name : String}
    (hname : name ∉ names → name ∉ X ∧ ∀ k, J k → name ≠ iteratorName stem k) :
    (f c.locals).lookup name = (f d.locals).lookup name := by
  by_cases hmem : name ∈ names
  · exact (hf.lookup c.locals name).2 hmem d.locals
  · obtain ⟨hX, hJ⟩ := hname hmem
    rw [(hf.lookup c.locals name).1 hmem, (hf.lookup d.locals name).1 hmem]
    exact h.lookup name hX hJ

theorem Framed.fronted {f : Locals → Locals} (hf : Locals.Fronted names f) (c : Context) :
    Framed stem names c { c with locals := f c.locals } :=
  ⟨fun _ h => h, fun name hname _ => (hf.lookup c.locals name).1 hname, trivial⟩

/-- **What is bound is no longer stale.** -/
theorem mirrors_bind {f : Arena → Locals → Locals} (hf : ∀ a, Locals.Fronted names (f a)) :
    Mirrors stem J (.bind names) (modify fun c : Context => { c with locals := f c.arena c.locals })
      (modify fun c : Context => { c with locals := f c.arena c.locals }) := by
  constructor
  · intro _ c _ _ h
    cases h
    exact .fronted (hf _) c
  intro X Y c d hstale _ hcd
  obtain rfl : X.filter (· ∉ names) = Y := Option.some.inj hstale
  have hrest : ({ d with locals := f d.arena d.locals } : Context) =
      { c with locals := f d.arena d.locals } := by
    rw [hcd.arena_eq]
  refine ⟨rfl, hrest, fun _ _ => ⟨hrest, ?_, hcd.pending, ?_⟩⟩
  · intro name hname hJ
    show (f c.arena c.locals).lookup name = (f d.arena d.locals).lookup name
    rw [hcd.arena_eq]
    refine hcd.lookup_fronted (hf _) fun hmem => ⟨fun hX => hname ?_, hJ⟩
    exact List.mem_filter.2 ⟨hX, decide_eq_true hmem⟩
  · exact fun name hname => hcd.plain name (List.mem_filter.1 hname).1

theorem mirrors_bindPattern {p : Pattern} (hp : p.bindings.map Variable.name = names)
    (type : TypeId) :
    Mirrors stem J (.bind names) (modify fun c : Context => c.bindPattern p type)
      (modify fun c : Context => c.bindPattern p type) :=
  mirrors_bind fun a => hp ▸ Locals.fronted_bindPattern a p type

end Bindings

/-! ### Expressions and patterns -/

section Terms

variable {α : Type} {stem : String} {J : Nat → Prop} (s : Scope)

theorem Blind.onArena (m : Attempt Arena α) : Blind (Context.onArena m) :=
  ⟨fun _ _ => rfl, fun _ _ h => h, fun _ _ => trivial⟩

theorem blind_lowerLit (pos : Position) (lit : Lit) : Blind (s.lowerLit pos lit) := by
  unfold Scope.lowerLit
  cases lit with
  | int negative n suffix =>
    dsimp only
    split
    · exact .throw _
    · exact .pure _
  | str text => exact (Blind.onArena _).bind fun _ => .pure _
  | bytes => exact .throw _
  | _ => exact .pure _

theorem mirrors_lowerPath (p : Ast.Path) (pos : Position) :
    Mirrors stem J p.scoping (s.lowerPath p pos) (s.lowerPath p pos) := by
  unfold Scope.lowerPath
  split
  · exact .throw _ _
  · unfold Ast.Path.scoping
    cases hp : p.ident? with
    | none =>
      refine Blind.mirrors (.read (fun l c => ?_) fun _ => .pure _)
      simp only [Scope.pathTerm, hp]
      rfl
    | some name =>
      refine ⟨fun _ c _ _ h => by cases h; exact .refl [] c, fun X Y c d hstale havoids hcd => ?_⟩
      simp only [Scoping.stale] at hstale
      split at hstale
      · cases hstale
      rename_i hX
      obtain rfl : X = Y := Option.some.inj hstale
      have hJ : ∀ k, J k → name ≠ iteratorName stem k := fun k _ =>
        havoids name List.mem_cons_self k
      have hterm : s.pathTerm d p pos = s.pathTerm c p pos := by
        simp only [Scope.pathTerm, hp]
        rw [hcd.local?_eq hX hJ, hcd.arena_eq, hcd.mention_eq hX hJ, hcd.localType_eq hX hJ]
      refine ⟨?_, hcd.rest, fun _ _ => hcd⟩
      exact congrArg Except.ok hterm

theorem mirrors_lowerBound : ∀ bound : Option Ast.Bound,
    Mirrors stem J (Ast.Bound.scoping bound) (s.lowerBound bound) (s.lowerBound bound)
  | none => (Blind.pure _).mirrors
  | some (.literal pos lit) => ((blind_lowerLit s pos lit).map _).mirrors
  | some (.path p) => (mirrors_lowerPath s p p.pos).map _
  | some (.constBlock _) => .throw _ _

mutual

theorem mirrors_lowerPat : ∀ p : Pat, Mirrors stem J p.scoping (s.lowerPat p) (s.lowerPat p)
  | .binding _ _ _ | .path _ _ | .rest _ | .wild _ => by
    exact (Blind.pure _).mirrors
  | .reference _ _ p => by
    exact (mirrors_lowerPat p).then_blind fun _ => .pure _
  | .struct _ p fields _ => by
    simp only [Scope.lowerPat, Pat.scoping]
    split
    · exact .throw _ _
    · exact .read (fun _ _ => rfl) fun _ => (mirrors_lowerFieldPats fields).then_blind fun _ => .pure _
  | .tupleStruct _ p ps => by
    simp only [Scope.lowerPat, Pat.scoping]
    split
    · exact .throw _ _
    · exact (mirrors_lowerPats ps).then_blind fun _ => .pure _
  | .tuple _ ps | .alternatives _ ps => by
    exact (mirrors_lowerPats ps).then_blind fun _ => .pure _
  | .literal pos lit => by
    exact ((blind_lowerLit s pos lit).bind fun _ => .pure _).mirrors
  | .range _ start stop _ => by
    exact (mirrors_lowerBound s start).seq fun _ =>
      (mirrors_lowerBound s stop).then_blind fun _ => .pure _
  | .paren _ p => by
    exact mirrors_lowerPat p
  | .other _ _ => by
    exact .throw _ _

theorem mirrors_lowerPats : ∀ ps : List Pat,
    Mirrors stem J (Pat.scopingOfAll ps) (s.lowerPats ps) (s.lowerPats ps)
  | [] => (Blind.pure _).mirrors
  | p :: ps => by
    exact (mirrors_lowerPat p).seq fun _ => (mirrors_lowerPats ps).then_blind fun _ => .pure _

theorem mirrors_lowerFieldPats : ∀ fields : List FieldPat,
    Mirrors stem J (Pat.scopingOfFields fields) (s.lowerFieldPats fields)
      (s.lowerFieldPats fields)
  | [] => (Blind.pure _).mirrors
  | .mk _ p :: fields => by
    exact (mirrors_lowerPat p).seq fun _ =>
      (mirrors_lowerFieldPats fields).then_blind fun _ => .pure _

end

mutual

theorem names_lowerPat : ∀ (p : Pat) (c : Context) (q : Pattern) (c' : Context),
    s.lowerPat p c = (.ok q, c') → q.bindings.map Variable.name = p.names
  | .binding _ _ _, _, _, _, h | .path _ _, _, _, _, h | .rest _, _, _, _, h
  | .wild _, _, _, _, h => by
    simp only [Scope.lowerPat] at h
    cases h
    simp only [Pattern.bindings, Pat.names, List.map]
  | .reference _ _ p, _, _, _, h => by
    simp only [Scope.lowerPat] at h
    obtain ⟨q, _, hq, h⟩ := bind_ok h
    cases h
    simpa only [Pattern.bindings, Pat.names] using names_lowerPat p _ _ _ hq
  | .struct _ p fields _, _, _, _, h => by
    simp only [Scope.lowerPat] at h
    split at h
    · cases h
    · obtain ⟨_, _, -, h⟩ := bind_ok h
      obtain ⟨qs, _, hqs, h⟩ := bind_ok h
      cases h
      simpa only [Pattern.bindings, Pat.names] using names_lowerFieldPats fields _ _ _ hqs
  | .tupleStruct _ p ps, _, _, _, h => by
    simp only [Scope.lowerPat] at h
    split at h
    · cases h
    · obtain ⟨qs, _, hqs, h⟩ := bind_ok h
      cases h
      simpa only [Pattern.bindings, Pat.names] using names_lowerPats ps _ _ _ hqs
  | .tuple _ ps, _, _, _, h | .alternatives _ ps, _, _, _, h => by
    simp only [Scope.lowerPat] at h
    obtain ⟨qs, _, hqs, h⟩ := bind_ok h
    cases h
    simpa only [Pattern.bindings, Pat.names] using names_lowerPats ps _ _ _ hqs
  | .literal _ _, _, _, _, h => by
    simp only [Scope.lowerPat] at h
    obtain ⟨_, _, -, h⟩ := bind_ok h
    cases h
    simp only [Pattern.bindings, Pat.names, List.map]
  | .range _ _ _ _, _, _, _, h => by
    simp only [Scope.lowerPat] at h
    obtain ⟨_, _, -, h⟩ := bind_ok h
    obtain ⟨_, _, -, h⟩ := bind_ok h
    cases h
    simp only [Pattern.bindings, Pat.names, List.map]
  | .paren _ p, _, _, _, h => by
    simp only [Scope.lowerPat] at h
    simpa only [Pat.names] using names_lowerPat p _ _ _ h
  | .other _ _, _, _, _, h => by
    simp only [Scope.lowerPat] at h
    cases h

theorem names_lowerPats : ∀ (ps : List Pat) (c : Context) (qs : List Pattern) (c' : Context),
    s.lowerPats ps c = (.ok qs, c') →
      (Pattern.bindingsOfAll qs).map Variable.name = Pat.namesOfAll ps
  | [], _, _, _, h => by
    simp only [Scope.lowerPats] at h
    cases h
    rfl
  | p :: ps, _, _, _, h => by
    simp only [Scope.lowerPats] at h
    obtain ⟨q, _, hq, h⟩ := bind_ok h
    obtain ⟨qs, _, hqs, h⟩ := bind_ok h
    cases h
    rw [Pattern.bindingsOfAll, Pat.namesOfAll, List.map_append, names_lowerPat p _ _ _ hq,
      names_lowerPats ps _ _ _ hqs]

theorem names_lowerFieldPats : ∀ (fields : List FieldPat) (c : Context)
    (qs : List FieldPattern) (c' : Context), s.lowerFieldPats fields c = (.ok qs, c') →
      (Pattern.bindingsOfFields qs).map Variable.name = Pat.namesOfFields fields
  | [], _, _, _, h => by
    simp only [Scope.lowerFieldPats] at h
    cases h
    rfl
  | .mk _ p :: fields, _, _, _, h => by
    simp only [Scope.lowerFieldPats] at h
    obtain ⟨q, _, hq, h⟩ := bind_ok h
    obtain ⟨qs, _, hqs, h⟩ := bind_ok h
    cases h
    rw [Pattern.bindingsOfFields, Pat.namesOfFields, List.map_append, names_lowerPat p _ _ _ hq,
      names_lowerFieldPats fields _ _ _ hqs]

end

mutual

/-- **Lowering an expression mirrors itself over its scoping.** -/
theorem mirrors_lowerExpr : ∀ e : Expr,
    Mirrors stem J e.scoping (s.lowerExpr e) (s.lowerExpr e)
  | .literal pos lit => by
    exact (blind_lowerLit s pos lit).mirrors
  | .path pos p => by
    exact mirrors_lowerPath s p pos
  | .binary _ _ l r | .compound _ _ l r | .assign _ l r => by
    exact (mirrors_lowerExpr l).seq fun _ => (mirrors_lowerExpr r).then_blind fun _ => .pure _
  | .unary _ _ e | .tupleField _ e _ | .field _ e _ => by
    exact (mirrors_lowerExpr e).then_blind fun _ => .read (fun _ _ => rfl) fun _ => .pure _
  | .borrow _ _ e => by
    exact (mirrors_lowerExpr e).then_blind fun _ => (Blind.onArena _).bind fun _ => .pure _
  | .cast _ e _ => by
    exact (mirrors_lowerExpr e).then_blind fun _ => (Blind.onArena _).bind fun _ =>
      .read (fun _ _ => rfl) fun _ => .pure _
  | .range _ start stop _ => by
    exact (mirrors_lowerOption start).seq fun _ =>
      (mirrors_lowerOption stop).then_blind fun _ => .pure _
  | .test _ p e => by
    exact (mirrors_lowerExpr e).seq fun scrutinee =>
      (mirrors_lowerPat s p).seq_of (names_lowerPat s p) fun _ hq =>
        (mirrors_bindPattern hq scrutinee.type).then_blind fun _ => .pure _
  | .index _ b i => by
    exact (mirrors_lowerExpr b).seq fun _ => (mirrors_lowerExpr i).then_blind fun _ =>
      .read (fun _ _ => rfl) fun _ => .pure _
  | .methodCall _ receiver _ args => by
    exact (mirrors_lowerExpr receiver).seq fun _ =>
      (mirrors_lowerAll args).then_blind fun _ => .pure _
  | .call _ callee args => by
    simp only [Scope.lowerExpr, Expr.scoping]
    split
    · split
      · exact .throw _ _
      · exact (mirrors_lowerAll args).then_blind fun _ => .read (fun _ _ => rfl) fun _ => .pure _
    · exact .throw _ _
  | .structLit pos p fields _ => by
    simp only [Scope.lowerExpr, Expr.scoping]
    split
    · exact .throw _ _
    split
    · exact .throw _ _
    refine (mirrors_lowerInits fields).then_blind fun supplied => .read (fun _ _ => rfl) fun c => ?_
    cases s.structTerm c.arena p supplied pos with
    | ok t => exact .pure t
    | error e => exact .throw e
  | .tuple _ es => by
    simp only [Scope.lowerExpr, Expr.scoping]
    split
    · rename_i hes
      rw [List.isEmpty_iff.1 hes]
      exact (Blind.pure _).mirrors
    · exact (mirrors_lowerAll es).then_blind fun _ => (Blind.onArena _).bind fun _ => .pure _
  | .array _ es => by
    exact (mirrors_lowerAll es).then_blind fun _ => (Blind.onArena _).bind fun _ => .pure _
  | .arrayRepeat _ e length => by
    cases length with
    | none => exact .throw _ _
    | some n =>
      exact (mirrors_lowerExpr e).then_blind fun _ => (Blind.onArena _).bind fun _ => .pure _
  | .paren _ e => by
    exact mirrors_lowerExpr e
  | .macroCall _ _ _ _ => by
    exact (Blind.pure _).mirrors
  | .block _ _ _ | .unsafeBlock _ _ | .branch _ _ _ | .matchOn _ _ _ | .whileLoop _ _ _ _
  | .loop _ _ _ | .forLoop _ _ _ _ _ | .ret _ _ | .leave _ _ _ | .next _ _ | .other _ _ _
  | .verbatim _ _ => by
    exact .throw _ _

theorem mirrors_lowerOption : ∀ e : Option Expr,
    Mirrors stem J (Expr.scopingOfOption e) (s.lowerOption e) (s.lowerOption e)
  | none => (Blind.pure _).mirrors
  | some e => by
    exact (mirrors_lowerExpr e).map _

theorem mirrors_lowerAll : ∀ es : List Expr,
    Mirrors stem J (Expr.scopingOfAll es) (s.lowerAll es) (s.lowerAll es)
  | [] => (Blind.pure _).mirrors
  | e :: es => by
    exact (mirrors_lowerExpr e).seq fun _ => (mirrors_lowerAll es).then_blind fun _ => .pure _

theorem mirrors_lowerInits : ∀ fields : List FieldInit,
    Mirrors stem J (FieldInit.scopingOfAll fields) (s.lowerInits fields) (s.lowerInits fields)
  | [] => (Blind.pure _).mirrors
  | .mk _ e :: fields => by
    exact (mirrors_lowerExpr e).seq fun _ => (mirrors_lowerInits fields).then_blind fun _ => .pure _

end

end Terms

end RustFlow
