/-
# Lowering preserves every relation that its primitives preserve

Many facts about lowering say the same of each construct: it only adds to the graph, it
keeps terms well typed, it does the same in two arenas that correspond, it differs in a
strict and a lenient scope by missing names only.  A `Judgement` is such a fact: what it
says of two computations, and how it relates the types, terms, patterns and nodes that they
hand on.  It is `Sound` if it has a clause for each primitive action of lowering and
for each term that lowering makes up.

The combinators of fragments are put together from those actions, and so a sound judgement
holds of every construct, by one induction over the syntax (`Sound.lowerFlow`,
`Sound.lowerBlock`, `Sound.lowerStmt`).  A judgement on one computation ignores the second.
-/

import Mathlib.Data.Option.Basic
import RustFlow.Lowering.Body

namespace RustFlow

open Ast

namespace Body

/-- A property of two computations that lower the same syntax. -/
structure Judgement where
  /-- The settings that the computations run in. -/
  left : Setting
  right : Setting
  /-- What is known where computations start. -/
  World : Type
  /-- What is known afterwards. -/
  Later : World → World → Prop
  /-- The states in which that is known. -/
  At : World → Body → Body → Prop
  /-- Whether the computations have the property, with results so related where they end. -/
  Holds : {α : Type} → World → (World → α → α → Prop) → Attempt Body α → Attempt Body α → Prop
  Types : World → TypeId → TypeId → Prop
  Terms : World → Term → Term → Prop
  Patterns : World → Pattern → Pattern → Prop
  /-- The texts and the types of two ascriptions. -/
  Ascribed : World → Option String → Option TypeId → Option String → Option TypeId → Prop
  /-- The nodes that edges may leave. -/
  Source : World → NodeId → Prop
  /-- The nodes that edges may lead to. -/
  Target : World → NodeId → Prop
  /-- Whether nodes may return values. -/
  Returns : Prop

namespace Judgement

variable (J : Judgement) (w : J.World)

/-- Computations whose results do not matter. -/
def Runs {α : Type} (m m' : Attempt Body α) : Prop := J.Holds w (fun _ _ _ => True) m m'

/-- The same node, which edges may leave. -/
def Nodes (n n' : NodeId) : Prop := n = n' ∧ J.Source w n

/-- The same fragment, which edges may lead to and from. -/
structure Fragments (f f' : Fragment) : Prop where
  same : f = f'
  entry : J.Target w f.entry
  exit : ∀ n, f.exit = some n → J.Source w n

/-- The same ends of a chain of guards. -/
structure Chains (g g' : Guards) : Prop where
  same : g = g'
  first : J.Source w g.first
  last : J.Source w g.last

/-- Statements of related terms that control goes on from. -/
inductive Statements : Statement → Statement → Prop where
  | ofTerm {t t' : Term} : J.Terms w t t' → Statements (.ofTerm t) (.ofTerm t')
  | noOp (pos : Position) : Statements (.noOp pos) (.noOp pos)
  | written {o o' : Option Term} (pos : Position) : Option.Rel (J.Terms w) o o' →
      Statements ⟨.writtenReturn o, pos⟩ ⟨.writtenReturn o', pos⟩

/-- Sinks for related terms. -/
inductive Sinks : Sink → Sink → Prop where
  | discard : Sinks .discard .discard
  | returned : J.Returns → Sinks .returned .returned
  | assigned {t t' : Term} : J.Terms w t t' → Sinks (.assigned t) (.assigned t')

/-- A judgement with a clause for every primitive of lowering. -/
structure Sound : Prop where
  trans : ∀ {w x y}, J.Later w x → J.Later x y → J.Later w y
  types_later : ∀ {w x s t}, J.Later w x → J.Types w s t → J.Types x s t
  terms_later : ∀ {w x t u}, J.Later w x → J.Terms w t u → J.Terms x t u
  patterns_later : ∀ {w x p q}, J.Later w x → J.Patterns w p q → J.Patterns x p q
  ascribed_later : ∀ {w x text o text' o'}, J.Later w x → J.Ascribed w text o text' o' →
    J.Ascribed x text o text' o'
  source_later : ∀ {w x n}, J.Later w x → J.Source w n → J.Source x n
  target_later : ∀ {w x n}, J.Later w x → J.Target w n → J.Target x n
  target : ∀ {w n}, J.Source w n → J.Target w n
  returnsUnit : J.left.returnsUnit = J.right.returnsUnit
  returns : J.left.returnsUnit = false → J.Returns
  incoming : ∀ {w b b'} (n : NodeId), J.At w b b' → b.graph.incoming n = b'.graph.incoming n
  -- types, patterns and terms
  unknown : ∀ w, J.Types w .unknown .unknown
  type : ∀ {w t u}, J.Terms w t u → J.Types w t.type u.type
  ascription : ∀ {w text o text' o' s t}, J.Ascribed w text o text' o' → J.Types w s t →
    J.Types w (o.getD s) (o'.getD t)
  unascribed : ∀ w, J.Ascribed w none none none none
  binding : ∀ w v, J.Patterns w (.binding v) (.binding v)
  shape : ∀ {w p q}, J.Patterns w p q → ∀ v, p = .binding v ↔ q = .binding v
  var : ∀ {w s t} v pos, J.Types w s t → J.Terms w (.mk (.var v) s pos) (.mk (.var v) t pos)
  assign : ∀ {w t t' u u'}, J.Terms w t t' → J.Terms w u u' →
    J.Terms w (.mk (.assign t u) .unit u.pos) (.mk (.assign t' u') .unit u'.pos)
  declare : ∀ {w p q text o text' o' v v'} pos, J.Patterns w p q →
    J.Ascribed w text o text' o' → Option.Rel (J.Terms w) v v' →
    J.Terms w (.mk (.declare p text v) (o.getD ((v.map Term.type).getD .unknown)) pos)
      (.mk (.declare q text' v') (o'.getD ((v'.map Term.type).getD .unknown)) pos)
  nextStep : ∀ {w b b' p q} iterator pos, J.At w b b' → J.Patterns w p q →
    J.Terms w (nextStep b.context iterator p pos) (nextStep b'.context iterator q pos)
  stepGuard : ∀ {w p q} pos, J.Patterns w p q →
    J.Terms w (.binary .ne (.ofPattern p pos) (.mk .exhausted .unknown pos) pos)
      (.binary .ne (.ofPattern q pos) (.mk .exhausted .unknown pos) pos)
  -- sequences
  pure : ∀ {α w v} {V : J.World → α → α → Prop}, V w v v → J.Holds w V (pure v) (pure v)
  bind : ∀ {α β w} {V : J.World → α → α → Prop} {W : J.World → β → β → Prop}
    {m m' : Attempt Body α} {f f' : α → Attempt Body β}, J.Holds w V m m' →
    (∀ x v v', J.Later w x → V x v v' → J.Holds x W (f v) (f' v')) →
    J.Holds w W (m >>= f) (m' >>= f')
  get : ∀ {α w} {V : J.World → α → α → Prop} {f f' : Body → Attempt Body α},
    (∀ x b b', J.Later w x → J.At x b b' → J.Holds x V (f b) (f' b')) →
    J.Holds w V (get >>= f) (get >>= f')
  refuse : ∀ {α w} {V : J.World → α → α → Prop} what pos,
    J.Holds w V (J.left.scope.refuse what pos) (J.right.scope.refuse what pos)
  -- actions on the context
  lowerExpr : ∀ {w} e, J.Holds w J.Terms (onContext (J.left.scope.lowerExpr e))
    (onContext (J.right.scope.lowerExpr e))
  lowerPat : ∀ {w} p, J.Holds w J.Patterns (onContext (J.left.scope.lowerPat p))
    (onContext (J.right.scope.lowerPat p))
  armTest : ∀ {w t t'} pat guard, J.Terms w t t' →
    J.Holds w (fun x r r' => J.Terms x r.1 r'.1 ∧ r.2 = r'.2)
      (onContext (armTest J.left t pat guard)) (onContext (armTest J.right t' pat guard))
  letHead : ∀ {α w} {V : J.World → α → α → Prop} pat ascription
    {f f' : Option TypeId → Pattern → Body → Attempt Body α},
    (∀ x b b' o o' p p', J.Later w x → J.At x b b' → J.Patterns x p p' →
      J.Ascribed x (ascriptionText b.context.arena ascription o) o
        (ascriptionText b'.context.arena ascription o') o' → J.Holds x V (f o p b) (f' o' p' b')) →
    J.Holds w V
      (do
        let o ← onContext (resolveAscription J.left ascription)
        let p ← onContext (J.left.scope.lowerPat pat)
        let b ← (MonadState.get : Attempt Body Body)
        f o p b)
      (do
        let o ← onContext (resolveAscription J.right ascription)
        let p ← onContext (J.right.scope.lowerPat pat)
        let b ← (MonadState.get : Attempt Body Body)
        f' o p b)
  bindVariable : ∀ {w s t} v, J.Types w s t → J.Runs w (onContext (modify fun c => c.bind v s))
    (onContext (modify fun c => c.bind v t))
  bindPattern : ∀ {w p q s t}, J.Patterns w p q → J.Types w s t →
    J.Runs w (onContext (modify fun c => c.bindPattern p s))
      (onContext (modify fun c => c.bindPattern q t))
  freshName : ∀ {w}, J.Holds w (fun _ => Eq) (freshName J.left) (freshName J.right)
  -- actions on the graph and the loops
  add : ∀ {w s s'}, J.Statements w s s' → J.Holds w J.Nodes (add s) (add s')
  addValue : ∀ {w t t'}, J.Returns → J.Terms w t t' →
    J.Holds w (fun x n n' => n = n' ∧ J.Target x n) (Body.add ⟨.returnValue t, t.pos⟩)
      (Body.add ⟨.returnValue t', t'.pos⟩)
  edge : ∀ {w n m} kind, J.Source w n → J.Target w m → J.Runs w (edge n m kind) (edge n m kind)
  inLoop : ∀ {w} label {body body' : Attempt Body Fragment},
    (∀ x, J.Holds x J.Fragments body body') →
    J.Holds w (fun x r r' => J.Fragments x r.1 r'.1 ∧ r.2 = r'.2 ∧
      ∀ n ∈ r.2.breaks ++ r.2.continues, J.Source x n) (inLoop label body) (inLoop label body')
  jump : ∀ {w} kind label pos, J.Holds w J.Fragments (jump J.left.scope kind label pos)
    (jump J.right.scope kind label pos)

namespace Sound

variable {J} {w} {x : J.World} (hJ : J.Sound) {α : Type} {V : J.World → α → α → Prop}
  {body body' : Attempt Body Fragment} {k k' : Sink} {s s' : Statement} {t t' : Term}
  {n m : NodeId} {f f' : Fragment}

include hJ

/-! ### What stays known -/

theorem fragments_later (h : J.Later w x) (hf : J.Fragments w f f') : J.Fragments x f f' :=
  ⟨hf.same, hJ.target_later h hf.entry, fun n hn => hJ.source_later h (hf.exit n hn)⟩

theorem sinks_later (h : J.Later w x) (hk : J.Sinks w k k') : J.Sinks x k k' := by
  cases hk with
  | discard => exact .discard
  | returned hr => exact .returned hr
  | assigned ht => exact .assigned (hJ.terms_later h ht)

omit hJ in
theorem sinks_eq (hk : J.Sinks w k k') : k.isDiscard = k'.isDiscard ∧ k.isReturned = k'.isReturned ∧
    k.isAssigned = k'.isAssigned := by
  cases hk <;> exact ⟨rfl, rfl, rfl⟩

theorem fragments_node (hn : J.Source w n) : J.Fragments w ⟨n, some n⟩ ⟨n, some n⟩ :=
  ⟨rfl, hJ.target hn, fun _ h => Option.some.inj h ▸ hn⟩

theorem optional {act act' : Attempt Body Fragment} (h : J.Holds w J.Fragments act act') :
    J.Holds w (fun x => Option.Rel (J.Fragments x)) (some <$> act) (some <$> act') := by
  rw [← bind_pure_comp, ← bind_pure_comp]
  refine hJ.bind h fun x f f' _ hf => ?_
  obtain rfl := hf.same
  exact hJ.pure (.some hf)

/-! ### Nodes and edges -/

theorem connect {exit : Option NodeId} (hexit : ∀ n, exit = some n → J.Source w n)
    (hm : J.Target w m) : J.Runs w (connect exit m) (connect exit m) := by
  cases exit with
  | none => exact hJ.pure trivial
  | some n => exact hJ.edge _ (hexit n rfl) hm

theorem single (hs : J.Statements w s s') : J.Holds w J.Fragments (single s) (single s') := by
  refine hJ.bind (hJ.add hs) fun x n n' _ hn => ?_
  obtain ⟨rfl, hn⟩ := hn
  exact hJ.pure (hJ.fragments_node hn)

theorem chain {previous : Option Fragment} (hp : ∀ p, previous = some p → J.Fragments w p p)
    (hf : J.Fragments w f f') : J.Holds w J.Fragments (chain previous f) (chain previous f') := by
  obtain rfl := hf.same
  unfold Body.chain
  cases previous with
  | none => exact hJ.pure hf
  | some p =>
    have hp := hp p rfl
    dsimp only
    split
    · rename_i n hn
      refine hJ.bind (hJ.edge _ (hp.exit n hn) hf.entry) fun x _ _ hx _ => ?_
      exact hJ.pure ⟨rfl, hJ.target_later hx hp.entry, (hJ.fragments_later hx hf).exit⟩
    · exact hJ.pure hp

theorem sendTo (hk : J.Sinks w k k') (ht : J.Terms w t t') :
    J.Holds w J.Fragments (sendTo k t) (sendTo k' t') := by
  cases hk with
  | discard => exact hJ.single (.ofTerm ht)
  | returned hr =>
    refine hJ.bind (hJ.addValue hr ht) fun x n n' _ hn => ?_
    obtain ⟨rfl, hn⟩ := hn
    exact hJ.pure ⟨rfl, hn, fun _ h => by cases h⟩
  | assigned htarget => exact hJ.single (.ofTerm (hJ.assign htarget ht))

/-! ### Branches -/

theorem taken (kind : EdgeKind) {v : α} (hn : J.Source w n) (hm : J.Target w m)
    (hbody : J.Holds w J.Fragments body body') (hv : ∀ x, J.Later w x → V x v v) :
    J.Holds w V
      (do
        let taken ← body
        Body.edge n taken.entry kind
        Body.connect taken.exit m
        return v)
      (do
        let taken ← body'
        Body.edge n taken.entry kind
        Body.connect taken.exit m
        return v) := by
  refine hJ.bind hbody fun x f f' hx hf => ?_
  obtain rfl := hf.same
  refine hJ.bind (hJ.edge _ (hJ.source_later hx hn) hf.entry) fun y _ _ hy _ => ?_
  have hxy := hJ.trans hx hy
  refine hJ.bind (hJ.connect (hJ.fragments_later hy hf).exit (hJ.target_later hxy hm))
    fun z _ _ hz _ => ?_
  exact hJ.pure (hv z (hJ.trans hxy hz))

theorem guarded {pending : Option NodeId} (hm : J.Target w m)
    (hp : ∀ n, pending = some n → J.Source w n) (ht : J.Terms w t t')
    (hbody : ∀ x, J.Later w x → J.Holds x J.Fragments body body') :
    J.Holds w J.Nodes (guarded m pending t body) (guarded m pending t' body') := by
  refine hJ.bind (hJ.add (.ofTerm ht)) fun x n n' hx hn => ?_
  obtain ⟨rfl, hn⟩ := hn
  cases pending with
  | none =>
    exact hJ.taken _ hn (hJ.target_later hx hm) (hbody x hx) fun y hy => ⟨rfl, hJ.source_later hy hn⟩
  | some p =>
    refine hJ.bind (hJ.edge _ (hJ.source_later hx (hp p rfl)) (hJ.target hn)) fun y _ _ hy _ => ?_
    have hxy := hJ.trans hx hy
    have hn := hJ.source_later hy hn
    exact hJ.taken _ hn (hJ.target_later hxy hm) (hbody y hxy) fun z hz =>
      ⟨rfl, hJ.source_later hz hn⟩

theorem ifChain (pos : Position) {clauses clauses' : NodeId → Attempt Body (Option Guards)}
    (hclauses : ∀ x n, J.Later w x → J.Target x n →
      J.Holds x (fun y => Option.Rel (J.Chains y)) (clauses n) (clauses' n))
    {otherwise otherwise' : Option (Attempt Body Fragment)}
    (hotherwise : Option.Rel (fun m m' => ∀ x, J.Later w x → J.Holds x J.Fragments m m')
      otherwise otherwise') :
    J.Holds w J.Fragments (ifChain pos clauses otherwise) (ifChain pos clauses' otherwise') := by
  refine hJ.bind (hJ.add (.noOp pos)) fun x c c' hx hc => ?_
  obtain ⟨rfl, hc⟩ := hc
  refine hJ.bind (hclauses x c hx (hJ.target hc)) fun y g g' hy hg => ?_
  have hc := hJ.source_later hy hc
  cases hg with
  | none => exact hJ.pure (hJ.fragments_node hc)
  | @some g _ hg =>
    obtain ⟨rfl, hfirst, hlast⟩ := hg
    have hdone (z : J.World) (hz : J.Later y z) : J.Fragments z ⟨g.first, some c⟩ ⟨g.first, some c⟩ :=
      ⟨rfl, hJ.target_later hz (hJ.target hfirst), fun _ h => Option.some.inj h ▸ hJ.source_later hz hc⟩
    cases hotherwise with
    | none =>
      exact hJ.bind (hJ.edge _ hlast (hJ.target hc)) fun z _ _ hz _ => hJ.pure (hdone z hz)
    | some hbody => exact hJ.taken _ hlast (hJ.target hc) (hbody y (hJ.trans hx hy)) hdone

theorem reached (hn : J.Source w n) (hm : J.Source w m) :
    J.Holds w J.Fragments
      (do
        let b ← (MonadState.get : Attempt Body Body)
        let reached := !(b.graph.incoming m).isEmpty
        return (⟨n, if reached then some m else none⟩ : Fragment))
      (do
        let b ← (MonadState.get : Attempt Body Body)
        let reached := !(b.graph.incoming m).isEmpty
        return (⟨n, if reached then some m else none⟩ : Fragment)) := by
  refine hJ.get fun x b b' hx hb => ?_
  rw [hJ.incoming m hb]
  refine hJ.pure ⟨rfl, hJ.target_later hx (hJ.target hn), fun e he => ?_⟩
  simp only [Option.ite_none_right_eq_some] at he
  exact Option.some.inj he.2 ▸ hJ.source_later hx hm

theorem matchChain (pos : Position) (hk : J.Sinks w k k')
    {arms arms' : NodeId → Attempt Body (Option (Guards × Bool))}
    (harms : ∀ x n, J.Later w x → J.Target x n →
      J.Holds x (fun y => Option.Rel fun a a' => J.Chains y a.1 a'.1 ∧ a.2 = a'.2) (arms n) (arms' n)) :
    J.Holds w J.Fragments (matchChain pos k arms) (matchChain pos k' arms') := by
  unfold Body.matchChain
  rw [(sinks_eq hk).2.1]
  refine hJ.bind (hJ.add (.noOp pos)) fun x c c' hx hc => ?_
  obtain ⟨rfl, hc⟩ := hc
  refine hJ.bind (harms x c hx (hJ.target hc)) fun y a a' hy ha => ?_
  have hc := hJ.source_later hy hc
  cases ha with
  | none => exact hJ.pure (hJ.fragments_node hc)
  | @some a a' ha =>
    obtain ⟨g, exhaustive⟩ := a
    obtain ⟨g', exhaustive'⟩ := a'
    obtain ⟨⟨hg, hfirst, hlast⟩, hexhaustive⟩ := ha
    dsimp only at hg hexhaustive hfirst hlast
    obtain rfl := hg
    obtain rfl := hexhaustive
    dsimp only
    split
    · exact hJ.bind (hJ.edge _ hlast (hJ.target hc)) fun z _ _ hz _ =>
        hJ.reached (hJ.source_later hz hfirst) (hJ.source_later hz hc)
    · exact hJ.reached hfirst hc

/-! ### Loops -/

theorem edges {hops : List NodeId} (hhops : ∀ n ∈ hops, J.Source w n) (hm : J.Target w m) :
    J.Runs w (hops.forM fun hop => Body.edge hop m .sequential)
      (hops.forM fun hop => Body.edge hop m .sequential) := by
  induction hops generalizing w with
  | nil => exact hJ.pure trivial
  | cons hop hops ih =>
    obtain ⟨hhop, hhops⟩ := List.forall_mem_cons.1 hhops
    refine hJ.bind (hJ.edge _ hhop hm) fun x _ _ hx _ => ?_
    exact ih (fun n hn => hJ.source_later hx (hhops n hn)) (hJ.target_later hx hm)

theorem resolveJumps {frame : LoopFrame}
    (hhops : ∀ h ∈ frame.breaks ++ frame.continues, J.Source w h) (hn : J.Target w n)
    (hm : J.Target w m) : J.Runs w (resolveJumps frame n m) (resolveJumps frame n m) := by
  refine hJ.bind (hJ.edges (fun h hh => hhops h (List.mem_append_left _ hh)) hn)
    fun x _ _ hx _ => ?_
  exact hJ.edges (fun h hh => hJ.source_later hx (hhops h (List.mem_append_right _ hh)))
    (hJ.target_later hx hm)

theorem resolved {frame : LoopFrame} (hhops : ∀ h ∈ frame.breaks ++ frame.continues, J.Source w h)
    (hn : J.Target w n) (hm : J.Target w m) (hf : J.Fragments w f f) :
    J.Holds w J.Fragments (do Body.resolveJumps frame n m; return f)
      (do Body.resolveJumps frame n m; return f) :=
  hJ.bind (hJ.resolveJumps hhops hn hm) fun _ _ _ hx _ => hJ.pure (hJ.fragments_later hx hf)

theorem whileLoop (pos : Position) (label : Option String) (ht : J.Terms w t t')
    (hbody : ∀ x, J.Holds x J.Fragments body body') :
    J.Holds w J.Fragments (whileLoop pos label t body) (whileLoop pos label t' body') := by
  refine hJ.bind (hJ.add (.ofTerm ht)) fun x₁ guard _ _ hguard => ?_
  obtain ⟨rfl, hguard⟩ := hguard
  refine hJ.bind (hJ.add (.noOp pos)) fun x₂ c _ h₂ hc => ?_
  obtain ⟨rfl, hc⟩ := hc
  refine hJ.bind (hJ.inLoop label hbody) fun x₃ r r' h₃ hr => ?_
  obtain ⟨inner, frame⟩ := r
  obtain ⟨inner', frame'⟩ := r'
  obtain ⟨hinner, hframe, hhops⟩ := hr
  obtain rfl := hinner.same
  obtain rfl := hframe
  have hguard := hJ.source_later (hJ.trans h₂ h₃) hguard
  have hc := hJ.source_later h₃ hc
  refine hJ.bind (hJ.edge _ hguard hinner.entry) fun x₄ _ _ h₄ _ => ?_
  have hguard₄ := hJ.source_later h₄ hguard
  refine hJ.bind (hJ.connect (hJ.fragments_later h₄ hinner).exit (hJ.target hguard₄))
    fun x₅ _ _ h₅ _ => ?_
  replace h₅ := hJ.trans h₄ h₅
  refine hJ.bind (hJ.edge _ (hJ.source_later h₅ hguard) (hJ.target (hJ.source_later h₅ hc)))
    fun x₆ _ _ h₆ _ => ?_
  have h₃₆ := hJ.trans h₅ h₆
  have hguard := hJ.target (hJ.source_later h₃₆ hguard)
  have hc := hJ.source_later h₃₆ hc
  exact hJ.resolved (fun n hn => hJ.source_later h₃₆ (hhops n hn)) (hJ.target hc) hguard
    ⟨rfl, hguard, fun _ h => Option.some.inj h ▸ hc⟩

theorem plainLoop (pos : Position) (label : Option String)
    (hbody : ∀ x, J.Holds x J.Fragments body body') :
    J.Holds w J.Fragments (plainLoop pos label body) (plainLoop pos label body') := by
  refine hJ.bind (hJ.inLoop label hbody) fun x r r' _ hr => ?_
  obtain ⟨inner, frame⟩ := r
  obtain ⟨inner', frame'⟩ := r'
  obtain ⟨hinner, hframe, hhops⟩ := hr
  obtain rfl := hinner.same
  obtain rfl := hframe
  refine hJ.bind (hJ.connect hinner.exit hinner.entry) fun y _ _ hy _ => ?_
  replace hinner := hJ.fragments_later hy hinner
  replace hhops := fun n hn => hJ.source_later hy (hhops n hn)
  split
  · exact hJ.resolved hhops hinner.entry hinner.entry hinner
  · refine hJ.bind (hJ.add (.noOp pos)) fun z c _ hz hc => ?_
    obtain ⟨rfl, hc⟩ := hc
    have hentry := hJ.target_later hz hinner.entry
    exact hJ.resolved (fun n hn => hJ.source_later hz (hhops n hn)) (hJ.target hc) hentry
      ⟨rfl, hentry, fun _ h => Option.some.inj h ▸ hc⟩

theorem step {β : Type} {W : J.World → β → β → Prop} {next next' : NodeId → Attempt Body β}
    (iterator : String) {p p' : Pattern} (hp : J.Patterns w p p') (pos : Position)
    (hnext : ∀ x n, J.Later w x → J.Source x n → J.Holds x W (next n) (next' n)) :
    J.Holds w W
      (do
        let b ← (MonadState.get : Attempt Body Body)
        let n ← Body.add (.ofTerm (Body.nextStep b.context iterator p pos))
        next n)
      (do
        let b ← (MonadState.get : Attempt Body Body)
        let n ← Body.add (.ofTerm (Body.nextStep b.context iterator p' pos))
        next' n) := by
  refine hJ.get fun x b b' hx hb => ?_
  have hterm := hJ.nextStep iterator pos hb (hJ.patterns_later hx hp)
  refine hJ.bind (hJ.add (.ofTerm hterm)) fun y n n' hy hn => ?_
  obtain ⟨rfl, hn⟩ := hn
  exact hnext y n (hJ.trans hx hy) hn

theorem forLoop (pos : Position) (label : Option String) (pat : Pat) (iterable : Expr)
    (hbody : ∀ x, J.Holds x J.Fragments body body') :
    J.Holds w J.Fragments (forLoop J.left pos label pat iterable body)
      (forLoop J.right pos label pat iterable body') := by
  refine hJ.bind hJ.freshName fun x₁ iterator _ _ hname => ?_
  obtain rfl := hname
  refine hJ.bind (hJ.lowerExpr iterable) fun x₂ source source' _ hsource => ?_
  have hdeclare := hJ.declare pos (hJ.binding x₂ ⟨iterator, true⟩) (hJ.unascribed x₂) (.some hsource)
  refine hJ.bind (hJ.add (.ofTerm hdeclare)) fun x₃ init _ h₃ hinit => ?_
  obtain ⟨rfl, hinit⟩ := hinit
  refine hJ.bind (hJ.bindVariable _ (hJ.types_later h₃ (hJ.type hsource))) fun x₄ _ _ h₄ _ => ?_
  refine hJ.bind (hJ.lowerPat pat) fun x₅ p p' h₅ hp => ?_
  refine hJ.bind (hJ.bindPattern hp (hJ.unknown x₅)) fun x₆ _ _ h₆ _ => ?_
  replace hp := hJ.patterns_later h₆ hp
  replace hinit := hJ.source_later (hJ.trans (hJ.trans h₄ h₅) h₆) hinit
  refine hJ.step iterator hp pat.pos fun x₇ first h₇ hfirst => ?_
  replace hinit := hJ.source_later h₇ hinit
  refine hJ.bind (hJ.edge _ hinit (hJ.target hfirst)) fun x₈ _ _ h₈ _ => ?_
  replace hp := hJ.patterns_later (hJ.trans h₇ h₈) hp
  refine hJ.bind (hJ.add (.ofTerm (hJ.stepGuard pat.pos hp))) fun x₉ guard _ h₉ hguard => ?_
  obtain ⟨rfl, hguard⟩ := hguard
  replace hfirst := hJ.source_later (hJ.trans h₈ h₉) hfirst
  refine hJ.bind (hJ.edge _ hfirst (hJ.target hguard)) fun y₁ _ _ k₁ _ => ?_
  refine hJ.bind (hJ.add (.noOp pos)) fun y₂ c _ k₂ hc => ?_
  obtain ⟨rfl, hc⟩ := hc
  refine hJ.bind (hJ.inLoop label hbody) fun y₃ r r' k₃ hr => ?_
  obtain ⟨inner, frame⟩ := r
  obtain ⟨inner', frame'⟩ := r'
  obtain ⟨hinner, hframe, hhops⟩ := hr
  obtain rfl := hinner.same
  obtain rfl := hframe
  have hloop := hJ.trans (hJ.trans k₁ k₂) k₃
  replace hinit := hJ.source_later (hJ.trans (hJ.trans h₈ h₉) hloop) hinit
  replace hguard := hJ.source_later hloop hguard
  replace hc := hJ.source_later k₃ hc
  replace hp := hJ.patterns_later (hJ.trans h₉ hloop) hp
  refine hJ.step iterator hp pat.pos fun y₄ step k₄ hstep => ?_
  replace hguard := hJ.source_later k₄ hguard
  refine hJ.bind (hJ.edge _ hguard (hJ.target_later k₄ hinner.entry)) fun y₅ _ _ k₅ _ => ?_
  replace hguard := hJ.source_later k₅ hguard
  have k₄₅ := hJ.trans k₄ k₅
  refine hJ.bind (hJ.edge _ hguard (hJ.target (hJ.source_later k₄₅ hc))) fun y₆ _ _ k₆ _ => ?_
  have k₄₆ := hJ.trans k₄₅ k₆
  have hstep₆ := hJ.source_later (hJ.trans k₅ k₆) hstep
  refine hJ.bind (hJ.connect (hJ.fragments_later k₄₆ hinner).exit (hJ.target hstep₆))
    fun y₇ _ _ k₇ _ => ?_
  replace hguard := hJ.source_later (hJ.trans k₆ k₇) hguard
  replace hstep := hJ.source_later k₇ hstep₆
  refine hJ.bind (hJ.edge _ hstep (hJ.target hguard)) fun y₈ _ _ k₈ _ => ?_
  have hend := hJ.trans (hJ.trans k₄₆ k₇) k₈
  have hc := hJ.source_later hend hc
  exact hJ.resolved (fun n hn => hJ.source_later hend (hhops n hn)) (hJ.target hc)
    (hJ.target (hJ.source_later k₈ hstep))
    ⟨rfl, hJ.target (hJ.source_later hend hinit), fun _ h => Option.some.inj h ▸ hc⟩

/-! ### Statements -/

theorem plain (hk : J.Sinks w k k') (e : Expr) :
    J.Holds w J.Fragments (plain J.left k e) (plain J.right k' e) :=
  hJ.bind (hJ.lowerExpr e) fun _ _ _ hx hv => hJ.sendTo (hJ.sinks_later hx hk) hv

section Lets

variable {p p' : Pattern} {text text' : Option String} {o o' : Option TypeId}

theorem declaration (pos : Position) (hp : J.Patterns w p p') (ho : J.Ascribed w text o text' o') :
    J.Holds w J.Fragments (Body.declare p text (o.getD .unknown) pos)
      (Body.declare p' text' (o'.getD .unknown) pos) :=
  hJ.single (.ofTerm (hJ.declare pos hp ho .none))

theorem letPlain (pos : Position) (hp : J.Patterns w p p') (ho : J.Ascribed w text o text' o')
    (init : Expr) : J.Holds w J.Fragments (letPlain J.left pos p text o init)
      (letPlain J.right pos p' text' o' init) := by
  refine hJ.bind (hJ.lowerExpr init) fun x v v' hx hv => ?_
  replace hp := hJ.patterns_later hx hp
  replace ho := hJ.ascribed_later hx ho
  refine hJ.bind (hJ.bindPattern hp (hJ.ascription ho (hJ.type hv))) fun y _ _ hy _ => ?_
  exact hJ.single (.ofTerm (hJ.declare pos (hJ.patterns_later hy hp) (hJ.ascribed_later hy ho)
    (.some (hJ.terms_later hy hv))))

theorem letFlow (pos : Position) (hp : J.Patterns w p p') (ho : J.Ascribed w text o text' o')
    {flow flow' : Sink → Attempt Body Fragment}
    (hflow : ∀ x k k', J.Sinks x k k' → J.Holds x J.Fragments (flow k) (flow' k')) :
    J.Holds w J.Fragments (letFlow J.left pos p text o flow)
      (letFlow J.right pos p' text' o' flow') := by
  by_cases hv : ∃ v, p = .binding v
  · obtain ⟨v, rfl⟩ := hv
    obtain rfl := (hJ.shape hp v).1 rfl
    refine hJ.bind (hJ.declaration pos hp ho) fun x d d' hx hd => ?_
    obtain rfl := hd.same
    have htype := hJ.types_later hx (hJ.ascription ho (hJ.unknown w))
    refine hJ.bind (hflow x _ _ (.assigned (hJ.var v pos htype))) fun y f f' hy hf => ?_
    refine hJ.bind (hJ.bindVariable v (hJ.types_later hy htype)) fun z _ _ hz _ => ?_
    refine hJ.chain (fun p hp => ?_) (hJ.fragments_later hz hf)
    exact Option.some.inj hp ▸ hJ.fragments_later (hJ.trans hy hz) hd
  · have hrefuse : ∀ {q : Pattern} {set : Setting} {text : Option String} {o : Option TypeId}
        {flow : Sink → Attempt Body Fragment}, (∀ v, q ≠ .binding v) →
        Body.letFlow set pos q text o flow = set.scope.refuse .destructuringControl pos := by
      intro q set text o flow hq
      unfold Body.letFlow
      split
      · exact absurd rfl (hq _)
      · rfl
    rw [hrefuse fun v h => hv ⟨v, h⟩, hrefuse fun v h => hv ⟨v, (hJ.shape hp v).2 h⟩]
    exact hJ.refuse _ _

theorem returnFlow (pos : Position) {flow flow' : Sink → Attempt Body Fragment}
    (hflow : ∀ x k k', J.Sinks x k k' → J.Holds x J.Fragments (flow k) (flow' k')) :
    J.Holds w J.Fragments (returnFlow J.left pos flow) (returnFlow J.right pos flow') := by
  unfold Body.returnFlow
  rw [← hJ.returnsUnit]
  split
  · refine hJ.bind (hflow w _ _ .discard) fun x f f' hx hf => ?_
    obtain rfl := hf.same
    refine hJ.bind (hJ.single (.written pos .none)) fun y d d' hy hd => ?_
    exact hJ.chain (fun p hp => Option.some.inj hp ▸ hJ.fragments_later hy hf) hd
  · rename_i hunit
    exact hflow w _ _ (.returned (hJ.returns (by simpa using hunit)))

end Lets

/-! ### Every construct -/

omit hJ in
theorem sinks_ite {c : Prop} [Decidable c] {l l' : Sink} (hk : J.Sinks w k k') (hl : J.Sinks w l l') :
    J.Sinks w (if c then k else l) (if c then k' else l') := by
  split
  · exact hk
  · exact hl

mutual

/-- **A sound judgement holds of every expression,** into related sinks. -/
theorem lowerFlow (e : Expr) {w : J.World} {k k' : Sink} (hk : J.Sinks w k k') :
    J.Holds w J.Fragments (lowerFlow J.left k e) (lowerFlow J.right k' e) := by
  cases e with
  | branch pos clauses otherwise =>
    refine hJ.ifChain pos (fun x n hx hn => ?_) (lowerOtherwise otherwise hk)
    exact lowerClauses clauses (hJ.sinks_later hx hk) hn fun _ h => by cases h
  | matchOn pos scrutinee arms =>
    refine hJ.bind (hJ.lowerExpr scrutinee) fun x v v' hx hv => ?_
    replace hk := hJ.sinks_later hx hk
    refine hJ.matchChain pos hk fun y n hy hn => ?_
    exact lowerArms arms (hJ.sinks_later hy hk) (hJ.terms_later hy hv) hn fun _ h => by cases h
  | whileLoop pos label condition body =>
    simp only [Body.lowerFlow, (sinks_eq hk).2.2]
    split
    · exact hJ.refuse _ _
    · refine hJ.bind (hJ.lowerExpr condition) fun x v v' _ hv => ?_
      exact hJ.whileLoop pos label hv fun y => lowerBlock body .discard
  | loop pos label body =>
    simp only [Body.lowerFlow, (sinks_eq hk).2.2]
    split
    · exact hJ.refuse _ _
    · exact hJ.plainLoop pos label fun y => lowerBlock body .discard
  | forLoop pos label pat iterable body =>
    simp only [Body.lowerFlow, (sinks_eq hk).2.2]
    split
    · exact hJ.refuse _ _
    · exact hJ.forLoop pos label pat iterable fun y => lowerBlock body .discard
  | block pos label body =>
    cases label with
    | some label =>
      simp only [Body.lowerFlow, (sinks_eq hk).1]
      exact hJ.refuse _ _
    | none => exact lowerBlock body hk
  | unsafeBlock pos body => exact lowerBlock body hk
  | ret pos value =>
    cases value with
    | none => exact hJ.single (.written pos .none)
    | some e =>
      simp only [Body.lowerFlow]
      split
      · exact hJ.returnFlow pos fun x k k' hk => lowerFlow e hk
      · exact hJ.bind (hJ.lowerExpr e) fun x v v' _ hv => hJ.single (.written pos (.some hv))
  | leave pos label value =>
    simp only [Body.lowerFlow]
    split
    · exact hJ.refuse _ _
    · exact hJ.jump .leave label pos
  | next pos label => exact hJ.jump .next label pos
  | assign pos target value =>
    simp only [Body.lowerFlow, (sinks_eq hk).1]
    split
    · exact hJ.bind (hJ.lowerExpr target) fun x v v' _ hv => lowerFlow value (.assigned hv)
    · exact hJ.plain hk _
  | _ => exact hJ.plain hk _

/-- **A sound judgement holds of every block.** -/
theorem lowerBlock (body : Block) {w : J.World} {k k' : Sink} (hk : J.Sinks w k k') :
    J.Holds w J.Fragments (lowerBlock J.left k body) (lowerBlock J.right k' body) := by
  obtain ⟨pos, stmts⟩ := body
  have hnone (p : Fragment) (h : none = some p) : J.Fragments w p p := by cases h
  refine hJ.bind (lowerStmts stmts hk hnone) fun x f f' _ hf => ?_
  cases hf with
  | none => exact hJ.single (.noOp pos)
  | some hf =>
    obtain rfl := hf.same
    exact hJ.pure hf

theorem lowerStmts (stmts : List Stmt) {w : J.World} {k k' : Sink} (hk : J.Sinks w k k')
    {current : Option Fragment} (hc : ∀ p, current = some p → J.Fragments w p p) :
    J.Holds w (fun x => Option.Rel (J.Fragments x)) (lowerStmts J.left k current stmts)
      (lowerStmts J.right k' current stmts) := by
  cases stmts with
  | nil =>
    refine hJ.pure ?_
    cases current with
    | none => exact .none
    | some p => exact .some (hc p rfl)
  | cons s rest =>
    refine hJ.bind (lowerStmt s (sinks_ite hk .discard)) fun x f f' hx hf => ?_
    replace hk := hJ.sinks_later hx hk
    replace hc := fun p hp => hJ.fragments_later hx (hc p hp)
    cases hf with
    | none => exact lowerStmts rest hk hc
    | some hf =>
      refine hJ.bind (hJ.chain hc hf) fun y j j' hy hj => ?_
      obtain rfl := hj.same
      exact lowerStmts rest (hJ.sinks_later hy hk) fun _ h => Option.some.inj h ▸ hj

/-- **A sound judgement holds of every statement.** -/
theorem lowerStmt (s : Stmt) {w : J.World} {k k' : Sink} (hk : J.Sinks w k k') :
    J.Holds w (fun x => Option.Rel (J.Fragments x)) (lowerStmt J.left k s) (lowerStmt J.right k' s) := by
  cases s with
  | bind pos pat ascription init diverges =>
    cases init with
    | none =>
      refine hJ.letHead pat ascription fun x b b' o o' p p' _ _ hp ho => ?_
      refine hJ.bind (hJ.bindPattern hp (hJ.ascription ho (hJ.unknown x))) fun y _ _ hy _ => ?_
      exact hJ.optional (hJ.declaration pos (hJ.patterns_later hy hp) (hJ.ascribed_later hy ho))
    | some e =>
      simp only [Body.lowerStmt]
      refine hJ.letHead pat ascription fun x b b' o o' p p' _ _ hp ho => ?_
      split
      · exact hJ.refuse _ _
      · split
        · exact hJ.optional (hJ.letFlow pos hp ho fun x k k' hk => lowerFlow e hk)
        · exact hJ.optional (hJ.letPlain pos hp ho e)
  | expr e semi => exact hJ.optional (lowerFlow e (sinks_ite .discard hk))
  | useDecl => exact hJ.pure .none
  | item pos => exact hJ.refuse _ _

theorem lowerClauses (clauses : List Clause) {w : J.World} {k k' : Sink} (hk : J.Sinks w k k')
    {c : NodeId} (hc : J.Target w c) {pending : Option NodeId}
    (hp : ∀ n, pending = some n → J.Source w n) :
    J.Holds w (fun x => Option.Rel (J.Chains x)) (lowerClauses J.left k c pending clauses)
      (lowerClauses J.right k' c pending clauses) := by
  cases clauses with
  | nil => exact hJ.pure .none
  | cons clause rest =>
    obtain ⟨condition, body⟩ := clause
    refine hJ.bind (hJ.lowerExpr condition) fun x v v' hx hv => ?_
    replace hk := hJ.sinks_later hx hk
    replace hc := hJ.target_later hx hc
    refine hJ.bind (hJ.guarded hc (fun n hn => hJ.source_later hx (hp n hn)) hv fun y hy =>
      lowerBlock body (hJ.sinks_later hy hk)) fun y guard _ hy hguard => ?_
    obtain ⟨rfl, hguard⟩ := hguard
    refine hJ.bind (lowerClauses rest (hJ.sinks_later hy hk) (hJ.target_later hy hc) fun n hn =>
      Option.some.inj hn ▸ hguard) fun z others others' hz ho => ?_
    replace hguard := hJ.source_later hz hguard
    cases ho with
    | none => exact hJ.pure (.some ⟨rfl, hguard, hguard⟩)
    | some ho =>
      obtain rfl := ho.same
      exact hJ.pure (.some ⟨rfl, hguard, ho.last⟩)

theorem lowerOtherwise (otherwise : Option Block) {w : J.World} {k k' : Sink}
    (hk : J.Sinks w k k') :
    Option.Rel (fun m m' => ∀ x, J.Later w x → J.Holds x J.Fragments m m')
      (lowerOtherwise J.left k otherwise) (lowerOtherwise J.right k' otherwise) := by
  cases otherwise with
  | none => exact .none
  | some body => exact .some fun x hx => lowerBlock body (hJ.sinks_later hx hk)

theorem lowerArms (arms : List Arm) {w : J.World} {k k' : Sink} (hk : J.Sinks w k k')
    {t t' : Term} (ht : J.Terms w t t') {c : NodeId} (hc : J.Target w c) {pending : Option NodeId}
    (hp : ∀ n, pending = some n → J.Source w n) :
    J.Holds w (fun x => Option.Rel fun a a' => J.Chains x a.1 a'.1 ∧ a.2 = a'.2)
      (lowerArms J.left k c t pending arms) (lowerArms J.right k' c t' pending arms) := by
  cases arms with
  | nil => exact hJ.pure .none
  | cons arm rest =>
    obtain ⟨pat, extra, body⟩ := arm
    refine hJ.bind (hJ.armTest pat extra ht) fun x r r' hx hr => ?_
    obtain ⟨test, exhaustive⟩ := r
    obtain ⟨test', exhaustive'⟩ := r'
    obtain ⟨htest, hexhaustive⟩ := hr
    obtain rfl : exhaustive = exhaustive' := hexhaustive
    replace hk := hJ.sinks_later hx hk
    replace hc := hJ.target_later hx hc
    refine hJ.bind (hJ.guarded hc (fun n hn => hJ.source_later hx (hp n hn)) htest fun y hy =>
      lowerFlow body (hJ.sinks_later hy hk)) fun y guard _ hy hguard => ?_
    obtain ⟨rfl, hguard⟩ := hguard
    refine hJ.bind (lowerArms rest (hJ.sinks_later hy hk) (hJ.terms_later (hJ.trans hx hy) ht)
      (hJ.target_later hy hc) fun n hn => Option.some.inj hn ▸ hguard) fun z others others' hz ho => ?_
    replace hguard := hJ.source_later hz hguard
    cases ho with
    | none => exact hJ.pure (.some ⟨⟨rfl, hguard, hguard⟩, rfl⟩)
    | @some a a' ho =>
      obtain ⟨g, last⟩ := a
      obtain ⟨g', last'⟩ := a'
      obtain ⟨hg, hlast⟩ := ho
      obtain rfl : g = g' := hg.same
      obtain rfl : last = last' := hlast
      exact hJ.pure (.some ⟨⟨rfl, hguard, hg.last⟩, rfl⟩)

end

/-- **A sound judgement holds of every body.** -/
theorem lower (body : Block) : J.Holds w J.Fragments (lower J.left body) (lower J.right body) := by
  unfold Body.lower
  rw [← hJ.returnsUnit]
  refine hJ.lowerBlock body ?_
  split
  · exact .discard
  · rename_i hunit
    exact .returned (hJ.returns (by simpa using hunit))

end Sound
end Judgement
end Body
end RustFlow
