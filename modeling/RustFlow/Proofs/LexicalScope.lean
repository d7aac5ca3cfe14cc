/-
# Lexical scope

Lowering keeps the local variables of a body in one list, and no binding is ever
taken back.  `scopedFlow` and its companions lower a body the same way, except that
every scope ends: after a block, a clause, an arm or a loop the variables are those
before it.

**A body that keeps to its scopes** mentions no name where a scope that bound it has
ended and no later binding stands for it.  Such a body is lowered as if scopes ended:
same outcome, same graph, same types.  So each variable in the graph has the type and
the mutability of the binding that lexical scope gives it.  In any other body a
binding of an inner scope may be taken for an outer one, as `leakingBody` shows.
-/

import RustFlow.Proofs.Growth
import RustFlow.Proofs.Mirroring

namespace RustFlow

open Attempt Ast

namespace Body

/-! ### Lowering with scopes that end -/

/-- Runs an action in a scope of its own: the variables it binds are gone afterwards. -/
def inScope {α : Type} (m : Attempt Body α) : Attempt Body α := fun b =>
  let (out, after) := m b
  (out, { after with context := { after.context with locals := b.context.locals } })

mutual

/-- Lowers an expression whose value goes to a sink; its scopes end. -/
def scopedFlow (set : Setting) (sink : Sink) : Expr → Attempt Body Fragment
  | .branch pos clauses otherwise =>
    ifChain pos (fun convergence => scopedClauses set sink convergence none clauses)
      (scopedOtherwise set sink otherwise)
  | .matchOn pos scrutinee arms => do
    let value ← onContext (set.scope.lowerExpr scrutinee)
    matchChain pos sink fun convergence => scopedArms set sink convergence value none arms
  | .whileLoop pos label condition body =>
    if sink.isAssigned then set.scope.refuse .loopValue pos
    else inScope do
      let guard ← onContext (set.scope.lowerExpr condition)
      whileLoop pos label guard (scopedBlock set .discard body)
  | .loop pos label body =>
    if sink.isAssigned then set.scope.refuse .loopValue pos
    else plainLoop pos label (scopedBlock set .discard body)
  | .forLoop pos label pat iterable body =>
    if sink.isAssigned then set.scope.refuse .loopValue pos
    else inScope (forLoop set pos label pat iterable (scopedBlock set .discard body))
  | .block pos label body =>
    match label with
    | some _ => set.scope.refuse (if sink.isDiscard then .labeledBlock else .blockValue) pos
    | none => scopedBlock set sink body
  | .unsafeBlock _ body => scopedBlock set sink body
  | .ret pos none => single ⟨.writtenReturn none, pos⟩
  | .ret pos (some e) =>
    if e.isControlFlow then returnFlow set pos fun sink => scopedFlow set sink e
    else do
      let value ← onContext (set.scope.lowerExpr e)
      single ⟨.writtenReturn (some value), pos⟩
  | .leave pos label value =>
    if value.isSome then set.scope.refuse .breakValue pos
    else jump set.scope .leave label pos
  | .next pos label => jump set.scope .next label pos
  | .assign pos target value =>
    if sink.isDiscard && value.isControlFlow then do
      let t ← onContext (set.scope.lowerExpr target)
      scopedFlow set (.assigned t) value
    else plain set sink (.assign pos target value)
  | e => plain set sink e

/-- Lowers a block in a scope of its own. -/
def scopedBlock (set : Setting) (sink : Sink) : Block → Attempt Body Fragment
  | .mk pos stmts => inScope do
    match ← scopedStmts set sink none stmts with
    | some fragment => return fragment
    | none => single (.noOp pos)

def scopedStmts (set : Setting) (sink : Sink) :
    Option Fragment → List Stmt → Attempt Body (Option Fragment)
  | current, [] => return current
  | current, s :: rest => do
    match ← scopedStmt set (if rest.isEmpty then sink else .discard) s with
    | some fragment =>
      let joined ← chain current fragment
      scopedStmts set sink (some joined) rest
    | none => scopedStmts set sink current rest

/-- Lowers a statement.  What a `let` binds stays until the block ends. -/
def scopedStmt (set : Setting) (sink : Sink) : Stmt → Attempt Body (Option Fragment)
  | .bind pos pat ascription init diverges => do
    let declared ← onContext (resolveAscription set ascription)
    let p ← onContext (set.scope.lowerPat pat)
    let text := ascriptionText (← get).context.arena ascription declared
    match init with
    | none =>
      let type := declared.getD .unknown
      onContext (modify fun c => c.bindPattern p type)
      some <$> declare p text type pos
    | some e =>
      if diverges then set.scope.refuse .letElse pos
      else if e.isControlFlow then
        some <$> letFlow set pos p text declared fun sink => scopedFlow set sink e
      else some <$> letPlain set pos p text declared e
  | .expr e semi => some <$> scopedFlow set (if semi then .discard else sink) e
  | .useDecl => return none
  | .item pos => set.scope.refuse .nestedItem pos

/-- Lowers the clauses of an `if` chain, each in a scope of its own. -/
def scopedClauses (set : Setting) (sink : Sink) (convergence : NodeId) :
    Option NodeId → List Clause → Attempt Body (Option Guards)
  | _, [] => return none
  | pending, .mk condition body :: rest => do
    let guard ← inScope do
      let test ← onContext (set.scope.lowerExpr condition)
      guarded convergence pending test (scopedBlock set sink body)
    let others ← scopedClauses set sink convergence (some guard) rest
    return some ⟨guard, (others.map Guards.last).getD guard⟩

def scopedOtherwise (set : Setting) (sink : Sink) :
    Option Block → Option (Attempt Body Fragment)
  | none => none
  | some body => some (scopedBlock set sink body)

/-- Lowers the arms of a `match`, each in a scope of its own. -/
def scopedArms (set : Setting) (sink : Sink) (convergence : NodeId) (scrutinee : Term) :
    Option NodeId → List Arm → Attempt Body (Option (Guards × Bool))
  | _, [] => return none
  | pending, .mk pat extra body :: rest => do
    let (guard, exhaustive) ← inScope do
      let (test, exhaustive) ← onContext (armTest set scrutinee pat extra)
      let guard ← guarded convergence pending test (scopedFlow set sink body)
      return (guard, exhaustive)
    let others ← scopedArms set sink convergence scrutinee (some guard) rest
    return some
      (match others with
        | some (guards, last) => (⟨guard, guards.last⟩, last)
        | none => (⟨guard, guard⟩, exhaustive))

end

end Body

/-- Lowers a body whose scopes end, without closing its exits. -/
def Cfg.scopedBody (config : Config) (scope : Scope) (sig : Signature) (body : Block)
    (arena : Arena) : Except Error Fragment × Body :=
  Body.scopedBlock ⟨scope, config.freshStem, sig.returnsUnit⟩
    (if sig.returnsUnit then .discard else .returned) body (.start (sig.context arena))

/-! ### The rules for bodies -/

section Rules

open Localized

variable {α β : Type} {stem : String} {J : Nat → Prop} {X Y A B : List String} {b d : Body}
  {k : Scoping} {n : Nat}

theorem Near.context (h : Near stem J X b d) : Near stem J X b.context d.context :=
  ⟨congrArg Body.context h.rest, h.lookup, fun _ hk => hk.elim, h.plain⟩

theorem Near.frame_eq (h : Near stem J X b d) :
    d.graph = b.graph ∧ d.loops = b.loops ∧ d.fresh = b.fresh := by
  rw [h.rest]
  exact ⟨rfl, rfl, rfl⟩

theorem Mirrors.onContext {m m' : Attempt Context α} (h : Mirrors stem J k m m') :
    Mirrors stem J k (Body.onContext m) (Body.onContext m') := by
  constructor
  · intro havoids b v b' hrun
    obtain ⟨c, hc, rfl⟩ := zoom_ok hrun
    exact ⟨fun _ hk => hk, fun name hname _ => (h.frames havoids hc).lookup name hname fun _ hk =>
      hk.elim, .of_graph rfl rfl⟩
  intro X Y b d hstale havoids hbd
  obtain ⟨houtcome, hrest, hkept⟩ := h.mirrored hstale havoids hbd.context
  obtain ⟨hgraph, hloops, hfresh⟩ := hbd.frame_eq
  have hrest : ({ d with context := (m' d.context).2 } : Body) =
      withLocals (locals (m' d.context).2) { b with context := (m b.context).2 } := by
    rw [hgraph, hloops, hfresh]
    exact congrArg (Body.mk · b.graph b.loops b.fresh) hrest
  exact ⟨houtcome, hrest, fun v hv =>
    ⟨hrest, (hkept v hv).lookup, hbd.pending, (hkept v hv).plain⟩⟩

theorem Blind.onContext {m : Attempt Context α} (h : Blind m) : Blind (Body.onContext m) := by
  refine ⟨fun l b => ?_, fun _ _ hk => hk, fun _ _ => .of_graph rfl rfl⟩
  have hrun := h.run l b.context
  rw [Body.onContext, zoom_run, zoom_run]
  show ((m (withLocals l b.context)).1, _) = _
  rw [hrun]
  exact congrArg (fun c => (_, Body.mk c b.graph b.loops b.fresh)) (congrArg Prod.snd hrun)

theorem Near.plain_scope (h : Near stem J X b d) (havoids : k.Avoids stem) :
    ∀ name ∈ X ++ k.bound, ∀ i, name ≠ iteratorName stem i := by
  intro name hname
  rcases List.mem_append.1 hname with hname | hname
  · exact h.plain name hname
  · exact havoids name (Scoping.mem_words_of_mem_bound hname)

/-- **What a scope bound is stale after it.** -/
theorem Mirrors.scope {m m' : Attempt Body α} (h : Mirrors stem J k m m') :
    Mirrors stem J (.scope k) m (Body.inScope m') := by
  refine ⟨h.frames, fun X Y b d hstale havoids hbd => ?_⟩
  obtain ⟨Z, hZ, rfl⟩ := Option.map_eq_some_iff.1 hstale
  obtain ⟨houtcome, hrest, hkept⟩ := h.mirrored hZ havoids hbd
  have hrest : withLocals (locals d) (m' d).2 = withLocals (locals d) (m b).2 := by
    rw [hrest, with_with]
  refine ⟨houtcome, hrest, fun v hv => ?_⟩
  have hframed := h.frames havoids (Prod.ext hv rfl)
  refine ⟨hrest, fun name hname hJ => ?_, (hkept v hv).pending, hbd.plain_scope havoids⟩
  -- the right side has the variables from before the scope, and the left side differs
  -- from those at names that the scope bound
  rw [List.mem_append, not_or] at hname
  rw [hframed.lookup name hname.2 fun k hk => hJ k (hbd.pending k hk)]
  exact hbd.lookup name hname.1 hJ

theorem Mirrors.skip (v : α) :
    Mirrors stem J (.scope k) (pure v : Attempt Body α) (pure v) := by
  refine ⟨(Blind.pure v).frames _, fun X Y b d hstale havoids hbd => ?_⟩
  obtain ⟨_, -, rfl⟩ := Option.map_eq_some_iff.1 hstale
  refine ⟨rfl, hbd.rest, fun _ _ => ⟨hbd.rest, fun name hname hJ => ?_, hbd.pending,
    hbd.plain_scope havoids⟩⟩
  exact hbd.lookup name (fun hX => hname (List.mem_append_left _ hX)) hJ

theorem rest_loops (h : d = withLocals (locals d) b) (f : List LoopFrame → List LoopFrame) :
    ({ d with loops := f d.loops } : Body) = withLocals (locals d) { b with loops := f b.loops } := by
  rw [h]
  rfl

theorem inLoop_ok {label : Option String} {m : Attempt Body Fragment} {r : Fragment × LoopFrame}
    (h : Body.inLoop label m b = (.ok r, d)) :
    ∃ d', m { b with loops := .ofLabel label :: b.loops } = (.ok r.1, d') ∧
      d = { d' with loops := d'.loops.tail } := by
  obtain ⟨hout, hstate⟩ := Prod.mk.inj h
  replace hout : Except.map _ (m { b with loops := .ofLabel label :: b.loops }).1 = .ok r := hout
  refine ⟨_, Prod.ext ?_ rfl, hstate.symm⟩
  cases hm : (m { b with loops := .ofLabel label :: b.loops }).1 with
  | error e =>
    rw [hm] at hout
    cases hout
  | ok fragment =>
    rw [hm] at hout
    exact congrArg (Except.ok ∘ Prod.fst) (Except.ok.inj hout)

theorem Frames.inLoop {m : Attempt Body Fragment} (h : Frames stem k m) (label : Option String) :
    Frames stem k (Body.inLoop label m) := by
  intro havoids b r b' hrun
  obtain ⟨d, hd, rfl⟩ := inLoop_ok hrun
  have hframed := h havoids hd
  exact ⟨hframed.pending, hframed.lookup, hframed.since⟩

theorem Mirrors.inLoop (label : Option String) {m m' : Attempt Body Fragment}
    (h : Mirrors stem J k m m') :
    Mirrors stem J k (Body.inLoop label m) (Body.inLoop label m') := by
  refine ⟨h.frames.inLoop label, fun X Y b d hstale havoids hbd => ?_⟩
  have hentered : Near stem J X { b with loops := .ofLabel label :: b.loops }
      { d with loops := .ofLabel label :: d.loops } :=
    ⟨rest_loops hbd.rest _, hbd.lookup, hbd.pending, hbd.plain⟩
  obtain ⟨houtcome, hrest, hkept⟩ := h.mirrored hstale havoids hentered
  have hloops := congrArg Body.loops hrest
  refine ⟨?_, rest_loops hrest List.tail, fun v hv => ?_⟩
  · show Except.map _ _ = Except.map _ _
    rw [houtcome, hloops]
    rfl
  · obtain ⟨_, hm, -⟩ := inLoop_ok (Prod.ext hv rfl)
    have hnear := hkept v.1 (congrArg Prod.fst hm)
    exact ⟨rest_loops hrest List.tail, hnear.lookup, hnear.pending, hnear.plain⟩

/-! ### Iterators

The iterator of a loop is bound under a name that no scoping mentions.  While the loop
is lowered both sides know it; afterwards it is among those in which they may
differ. -/

/-- The iterators that may differ while number `n` is known. -/
def without (J : Nat → Prop) (n : Nat) : Nat → Prop := fun k => J k ∧ k ≠ n

theorem fronted_iterator (stem : String) (n : Nat) (type : TypeId) :
    Locals.Fronted [iteratorName stem n] (Locals.bind · ⟨iteratorName stem n, true⟩ type) :=
  ⟨[(_, ⟨type, true⟩)], rfl, fun _ => rfl⟩

/-- An iterator is bound on both sides, and known in what follows. -/
theorem Mirrored.bind_iterator (hbd : Near stem J X b d) (hn : ∀ k, pending b k → k ≠ n)
    (type : TypeId) {m m' : Attempt Body α}
    (h : ∀ b d, Near stem (without J n) X b d → Mirrored stem (without J n) Y (m b) (m' d)) :
    Mirrored stem J Y
      ((Body.onContext (modify fun c => c.bind ⟨iteratorName stem n, true⟩ type) >>= fun _ => m) b)
      ((Body.onContext (modify fun c => c.bind ⟨iteratorName stem n, true⟩ type) >>= fun _ => m') d) := by
  let b₁ : Body := { b with context := b.context.bind ⟨iteratorName stem n, true⟩ type }
  let d₁ : Body := { d with context := d.context.bind ⟨iteratorName stem n, true⟩ type }
  have hrest : d₁ = withLocals (locals d₁) b₁ := by
    obtain ⟨hgraph, hloops, hfresh⟩ := hbd.frame_eq
    show Body.mk ⟨d.context.arena, _⟩ d.graph d.loops d.fresh = _
    rw [hgraph, hloops, hfresh, hbd.context.arena_eq]
    rfl
  have hnear : Near stem (without J n) X b₁ d₁ := by
    refine ⟨hrest, fun name hname hJ => ?_, fun k hk => ⟨hbd.pending k hk, hn k hk⟩, hbd.plain⟩
    refine hbd.context.lookup_fronted (fronted_iterator stem n type) fun hother =>
      ⟨hname, fun k hk hiter => ?_⟩
    by_cases hkn : k = n
    · exact hother (List.mem_singleton.2 (hkn ▸ hiter))
    · exact hJ k ⟨hk, hkn⟩ hiter
  obtain ⟨houtcome, hrest, hkept⟩ := h b₁ d₁ hnear
  exact ⟨houtcome, hrest, fun v hv => (hkept v hv).weaken fun _ hk => hk.1⟩

theorem Near.nextStep_eq (h : Near stem J X b d) (hn : ¬ J n) (p : Pattern) (pos : Position) :
    Body.nextStep d.context (iteratorName stem n) p pos =
      Body.nextStep b.context (iteratorName stem n) p pos := by
  have hX : iteratorName stem n ∉ X := fun hmem => h.plain _ hmem n rfl
  have hJ : ∀ i, J i → iteratorName stem n ≠ iteratorName stem i := fun i hi heq =>
    hn (iteratorName_inj heq ▸ hi)
  unfold Body.nextStep
  rw [h.context.mention_eq hX hJ, h.context.localType_eq hX hJ]

/-- Iterator number `n` is known: it is a mutable variable of this type. -/
structure Body.Knows (stem : String) (n : Nat) (type : TypeId) (b : Body) : Prop where
  vacant : b.graph.vacant = []
  named : n < b.fresh
  found : b.context.local? (iteratorName stem n) = some ⟨type, true⟩

/-- An iterator stays known while no variable is bound under its name. -/
theorem Frames.knows {m : Attempt Body α} {f : α → Attempt Body β} {r : β} {type : TypeId}
    (h : Frames stem k m) (havoids : k.Avoids stem) (hrun : (m >>= f) b = (.ok r, d))
    (hb : b.Knows stem n type) : ∃ v b', m b = (.ok v, b') ∧ b'.Knows stem n type ∧
      b.graph.Retained b'.graph ∧ f v b' = (.ok r, d) := by
  obtain ⟨v, b', hv, hrun⟩ := bind_ok hrun
  have hframed := h havoids hv
  have hg := (hframed.since hb.vacant).1
  have hbound : ∀ name ∈ k.bound, ∀ i, name ≠ iteratorName stem i := fun name hname =>
    havoids name (Scoping.mem_words_of_mem_bound hname)
  refine ⟨v, b', hv, ⟨hg.vacant, ?_, ?_⟩, hg, hrun⟩
  · exact Nat.lt_of_lt_of_le hb.named (hframed.pending _ (Nat.le_refl _))
  · exact (hframed.lookup_iterator hbound (Nat.not_le.2 hb.named)).trans hb.found

theorem Blind.knows {m : Attempt Body α} {f : α → Attempt Body β} {r : β} {type : TypeId}
    (h : Blind m) (hrun : (m >>= f) b = (.ok r, d)) (hb : b.Knows stem n type) :
    ∃ v b', m b = (.ok v, b') ∧ b'.Knows stem n type ∧ b.graph.Retained b'.graph ∧
      f v b' = (.ok r, d) :=
  (h.frames .nothing).knows (fun _ hname => absurd hname List.not_mem_nil) hrun hb

end Rules

namespace Body

section Blindness

variable (s : Statement) (source target : NodeId) (kind : EdgeKind)

theorem blind_add : Blind (add s) := by
  refine ⟨fun _ _ => rfl, fun _ _ h => h, fun stem b => .of_fresh rfl fun hv => ?_⟩
  rw [add_run hv]
  exact ⟨List.prefix_append _ _, List.Subset.refl _, hv⟩

theorem blind_edge : Blind (edge source target kind) :=
  ⟨fun _ _ => rfl, fun _ _ h => h, fun _ _ => .of_fresh rfl fun hv =>
    ⟨List.prefix_rfl, List.subset_cons_self _ _, hv⟩⟩

theorem blind_connect (exit : Option NodeId) : Blind (connect exit target) := by
  cases exit with
  | none => exact .pure _
  | some n => exact blind_edge n target .sequential

theorem blind_single : Blind (single s) := (blind_add s).bind fun _ => .pure _

theorem blind_chain (previous : Option Fragment) (next : Fragment) :
    Blind (chain previous next) := by
  unfold chain
  cases previous with
  | none => exact .pure _
  | some p =>
    dsimp only
    cases p.exit with
    | none => exact .pure _
    | some n => exact (blind_edge n next.entry .sequential).bind fun _ => .pure _

theorem blind_sendTo (sink : Sink) (t : Term) : Blind (sendTo sink t) := by
  cases sink with
  | discard => exact blind_single _
  | returned => exact (blind_add _).bind fun _ => .pure _
  | assigned target => exact blind_single _

theorem blind_edges (hops : List NodeId) :
    Blind (hops.forM fun hop => edge hop target .sequential) := by
  induction hops with
  | nil => exact .pure _
  | cons hop hops ih => exact (blind_edge hop target .sequential).bind fun _ => ih

theorem blind_resolveJumps (frame : LoopFrame) (leaveTarget nextTarget : NodeId) :
    Blind (resolveJumps frame leaveTarget nextTarget) :=
  (blind_edges leaveTarget frame.breaks).bind fun _ => blind_edges nextTarget frame.continues

theorem blind_jump (scope : Scope) (jump : Jump) (label : Option String) (pos : Position) :
    Blind (Body.jump scope jump label pos) := by
  refine .read (fun _ _ => rfl) fun b => ?_
  cases targetLoop b.loops label with
  | none => exact .throw _
  | some i =>
    refine (blind_add _).bind fun hop => Blind.bind ?_ fun _ => .pure _
    exact ⟨fun _ _ => rfl, fun _ _ h => h, fun _ _ => .of_graph rfl rfl⟩

theorem blind_resolveAscription (set : Setting) (ascription : Option TypeAnn) :
    Blind (resolveAscription set ascription) := by
  cases ascription with
  | none => exact .pure _
  | some t => exact (Blind.onArena _).map _

end Blindness

section Combinators

variable {stem : String} {J : Nat → Prop} {k l : Scoping} {body body' : Attempt Body Fragment}

theorem mirrors_guarded (convergence : NodeId) (pending : Option NodeId) (t : Term)
    (hbody : Mirrors stem J k body body') :
    Mirrors stem J k (guarded convergence pending t body) (guarded convergence pending t body') := by
  refine .after_blind (blind_add _) fun guard => ?_
  have htaken := hbody.then_blind fun taken => (blind_edge guard taken.entry .whenTrue).bind fun _ =>
    (blind_connect convergence taken.exit).bind fun _ => Blind.pure guard
  cases pending with
  | none => exact htaken
  | some previous => exact .after_blind (blind_edge previous guard .whenFalse) fun _ => htaken

/-- The last block is not entered if there are no clauses. -/
theorem mirrors_ifChain (pos : Position) {clauses clauses' : NodeId → Attempt Body (Option Guards)}
    (hclauses : ∀ n, Mirrors stem J k (clauses n) (clauses' n))
    {otherwise otherwise' : Option (Attempt Body Fragment)}
    (hotherwise : Option.Rel (Mirrors stem J l) otherwise otherwise')
    (hskip : ∀ v : Fragment, Mirrors stem J l (pure v : Attempt Body Fragment) (pure v)) :
    Mirrors stem J (.seq k l) (ifChain pos clauses otherwise) (ifChain pos clauses' otherwise') := by
  refine .after_blind (blind_add _) fun convergence => (hclauses convergence).seq fun guards => ?_
  cases guards with
  | none => exact hskip _
  | some guards =>
    cases hotherwise with
    | none => exact .after_blind (blind_edge guards.last convergence .whenFalse) fun _ => hskip _
    | some hbody =>
      exact hbody.then_blind fun taken => (blind_edge guards.last taken.entry .whenFalse).bind
        fun _ => (blind_connect convergence taken.exit).bind fun _ => .pure _

theorem mirrors_matchChain (pos : Position) (sink : Sink)
    {arms arms' : NodeId → Attempt Body (Option (Guards × Bool))}
    (harms : ∀ n, Mirrors stem J k (arms n) (arms' n)) :
    Mirrors stem J k (matchChain pos sink arms) (matchChain pos sink arms') := by
  refine .after_blind (blind_add _) fun convergence => (harms convergence).then_blind fun guards => ?_
  cases guards with
  | none => exact .pure _
  | some guards =>
    obtain ⟨guards, exhaustive⟩ := guards
    dsimp only
    have hreached : Blind (do
        let b ← (get : Attempt Body Body)
        let reached := !(b.graph.incoming convergence).isEmpty
        return (⟨guards.first, if reached then some convergence else none⟩ : Fragment)) :=
      .read (fun _ _ => rfl) fun _ => .pure _
    split
    · exact (blind_edge guards.last convergence .whenFalse).bind fun _ => hreached
    · exact hreached

theorem mirrors_whileLoop (pos : Position) (label : Option String) (t : Term)
    (hbody : Mirrors stem J k body body') :
    Mirrors stem J k (whileLoop pos label t body) (whileLoop pos label t body') := by
  refine .after_blind (blind_add _) fun guard => .after_blind (blind_add _) fun convergence => ?_
  refine (hbody.inLoop label).then_blind fun ⟨inner, frame⟩ => ?_
  exact (blind_edge guard inner.entry .whenTrue).bind fun _ => (blind_connect guard inner.exit).bind
    fun _ => (blind_edge guard convergence .whenFalse).bind fun _ =>
      (blind_resolveJumps frame convergence guard).bind fun _ => .pure _

theorem mirrors_plainLoop (pos : Position) (label : Option String)
    (hbody : Mirrors stem J k body body') :
    Mirrors stem J k (plainLoop pos label body) (plainLoop pos label body') := by
  refine (hbody.inLoop label).then_blind fun ⟨inner, frame⟩ => ?_
  refine (blind_connect inner.entry inner.exit).bind fun _ => ?_
  split
  · exact (blind_resolveJumps frame inner.entry inner.entry).bind fun _ => .pure _
  · exact (blind_add _).bind fun convergence =>
      (blind_resolveJumps frame convergence inner.entry).bind fun _ => .pure _

theorem names_onContext (scope : Scope) (pat : Pat) (b : Body) (p : Pattern) (b' : Body)
    (h : onContext (scope.lowerPat pat) b = (.ok p, b')) :
    p.bindings.map Variable.name = pat.names := by
  obtain ⟨_, hp, -⟩ := zoom_ok h
  exact names_lowerPat scope pat _ _ _ hp

/-- A `for` loop once its iterator is bound. -/
def forSteps (set : Setting) (pos : Position) (label : Option String) (pat : Pat)
    (iterator : String) (init : NodeId) (body : Attempt Body Fragment) : Attempt Body Fragment := do
  let p ← onContext (set.scope.lowerPat pat)
  onContext (modify fun c => c.bindPattern p .unknown)
  let first ← add (.ofTerm (nextStep (← get).context iterator p pat.pos))
  edge init first .sequential
  let exhausted := Term.mk .exhausted .unknown pat.pos
  let guard ← add (.ofTerm (.binary .ne (.ofPattern p pat.pos) exhausted pat.pos))
  edge first guard .sequential
  let convergence ← add (.noOp pos)
  let (inner, frame) ← inLoop label body
  let step ← add (.ofTerm (nextStep (← get).context iterator p pat.pos))
  edge guard inner.entry .whenTrue
  edge guard convergence .whenFalse
  connect inner.exit step
  edge step guard .sequential
  resolveJumps frame convergence step
  return ⟨init, some convergence⟩

theorem forLoop_eq (set : Setting) (pos : Position) (label : Option String) (pat : Pat)
    (iterable : Expr) (body : Attempt Body Fragment) :
    forLoop set pos label pat iterable body = (do
      let iterator ← freshName set
      let source ← onContext (set.scope.lowerExpr iterable)
      let init ← add (.ofTerm (.mk (.declare (.binding ⟨iterator, true⟩) none (some source))
        source.type pos))
      onContext (modify fun c => c.bind ⟨iterator, true⟩ source.type)
      forSteps set pos label pat iterator init body) := rfl

section ForLoops

variable {set : Setting} {pos : Position} {label : Option String} {pat : Pat} {n : Nat}
  {init : NodeId} {b b' : Body} {fragment : Fragment}

/-- **A loop knows its iterator from the first step to the last.** -/
theorem mirrors_forSteps (hn : ¬ J n) (hbody : Mirrors set.freshStem J k body body') :
    Mirrors set.freshStem J (.seq pat.scoping (.seq (.bind pat.names) k))
      (forSteps set pos label pat (iteratorName set.freshStem n) init body)
      (forSteps set pos label pat (iteratorName set.freshStem n) init body') := by
  refine (mirrors_lowerPat set.scope pat).onContext.seq_of (names_onContext set.scope pat)
    fun p hp => ?_
  refine (mirrors_bindPattern hp .unknown).onContext.seq fun _ => ?_
  refine .get (fun _ _ _ hxy => by rw [hxy.nextStep_eq hn]) fun _ => ?_
  refine .after_blind (blind_add _) fun first => ?_
  refine .after_blind (blind_edge init first .sequential) fun _ => ?_
  refine .after_blind (blind_add _) fun guard => ?_
  refine .after_blind (blind_edge first guard .sequential) fun _ => ?_
  refine .after_blind (blind_add _) fun convergence => .seq_nothing ?_
  refine (hbody.inLoop label).seq fun ⟨inner, frame⟩ => ?_
  refine .get (fun _ _ _ hxy => by rw [hxy.nextStep_eq hn]) fun _ => ?_
  refine .after_blind (blind_add _) fun step => ?_
  refine .after_blind (blind_edge guard inner.entry .whenTrue) fun _ => ?_
  refine .after_blind (blind_edge guard convergence .whenFalse) fun _ => ?_
  refine .after_blind (blind_connect step inner.exit) fun _ => ?_
  refine .after_blind (blind_edge step guard .sequential) fun _ => ?_
  exact ((blind_resolveJumps frame convergence step).bind fun _ => .pure _).mirrors

theorem Knows.step_eq {type : TypeId} (h : Knows stem n type b) (p : Pattern) (pos : Position) :
    Statement.ofTerm (nextStep b.context (iteratorName stem n) p pos) =
      .step ⟨iteratorName stem n, true⟩ type p pos := by
  simp only [nextStep, Context.mention, Context.localType, h.found]
  rfl

theorem mem_edge {u v : NodeId} {kind : EdgeKind} {r : Except Error Unit}
    (h : edge u v kind b = (r, b')) : ⟨u, v, kind⟩ ∈ b'.graph.edges := by
  cases h
  exact List.mem_cons_self

theorem node?_add {s : Statement} {x : NodeId} (h : add s b = (.ok x, b'))
    (hv : b.graph.vacant = []) : x = b.size ∧ b'.graph.node? x = some s := by
  rw [add_run hv] at h
  cases h
  exact ⟨rfl, node?_append rfl⟩

/-- **Both steps of a loop are one statement**, as its iterator is known at both. -/
theorem iterated_forSteps (hbody : Frames set.freshStem k body)
    (havoids : (Scoping.seq pat.scoping (.seq (.bind pat.names) k)).Avoids set.freshStem)
    {source : Term} (hb : Knows set.freshStem n source.type b)
    (hinit : b.graph.node? init = some (.ofTerm (.mk (.declare
      (.binding ⟨iteratorName set.freshStem n, true⟩) none (some source)) source.type pos)))
    (h : forSteps set pos label pat (iteratorName set.freshStem n) init body b =
      (.ok fragment, b')) :
    b'.graph.Iterated (iteratorName set.freshStem n) fragment.entry := by
  obtain ⟨p, b₁, hp, k₁, g₁, h⟩ :=
    (mirrors_lowerPat (J := fun _ => True) set.scope pat).onContext.frames.knows havoids.fst h hb
  obtain ⟨_, b₂, -, k₂, g₂, h⟩ := (mirrors_bindPattern (J := fun _ => True)
    (names_onContext set.scope pat _ _ _ hp) .unknown).onContext.frames.knows havoids.snd.fst h k₁
  obtain ⟨_, _, hget, h⟩ := bind_ok h
  cases hget
  obtain ⟨first, b₃, hfirst, k₃, g₃, h⟩ := (blind_add _).knows h k₂
  obtain ⟨_, b₄, henter, k₄, g₄, h⟩ := (blind_edge _ _ _).knows h k₃
  obtain ⟨guard, b₅, -, k₅, g₅, h⟩ := (blind_add _).knows h k₄
  obtain ⟨_, b₆, htest, k₆, g₆, h⟩ := (blind_edge _ _ _).knows h k₅
  obtain ⟨convergence, b₇, -, k₇, g₇, h⟩ := (blind_add _).knows h k₆
  -- the body may name further iterators, but it binds no variable under this one's name
  obtain ⟨⟨inner, frame⟩, b₈, -, k₈, g₈, h⟩ := (hbody.inLoop label).knows havoids.snd.snd h k₇
  obtain ⟨_, _, hget, h⟩ := bind_ok h
  cases hget
  obtain ⟨step, b₉, hstep, k₉, g₉, h⟩ := (blind_add _).knows h k₈
  obtain ⟨_, b₁₀, -, k₁₀, g₁₀, h⟩ := (blind_edge _ _ _).knows h k₉
  obtain ⟨_, b₁₁, -, k₁₁, g₁₁, h⟩ := (blind_edge _ _ _).knows h k₁₀
  obtain ⟨_, b₁₂, -, k₁₂, g₁₂, h⟩ := (blind_connect _ _).knows h k₁₁
  obtain ⟨_, b₁₃, hback, k₁₃, g₁₃, h⟩ := (blind_edge _ _ _).knows h k₁₂
  obtain ⟨_, _, -, -, g₁₄, h⟩ := (blind_resolveJumps frame convergence step).knows h k₁₃
  cases h
  obtain ⟨-, hfirst⟩ := node?_add hfirst k₂.vacant
  obtain ⟨rfl, hstep⟩ := node?_add hstep k₈.vacant
  rw [k₂.step_eq] at hfirst
  rw [k₈.step_eq] at hstep
  have h₃₈ := g₄.trans (g₅.trans (g₆.trans (g₇.trans g₈)))
  have hlate := g₁₀.trans (g₁₁.trans (g₁₂.trans (g₁₃.trans g₁₄)))
  have hlast := h₃₈.trans (g₉.trans hlate)
  have hlt := Graph.lt_of_contains (Graph.contains_of_node? (h₃₈.node? hfirst))
  exact ⟨source, p, pos, pat.pos, first, guard, b₈.size,
    (g₁.trans (g₂.trans (g₃.trans hlast))).node? hinit, hlast.node? hfirst, hlate.node? hstep,
    Nat.ne_of_lt hlt, (g₅.trans (g₆.trans (g₇.trans (g₈.trans (g₉.trans hlate))))).edges
      (mem_edge henter), (g₇.trans (g₈.trans (g₉.trans hlate))).edges (mem_edge htest),
    g₁₄.edges (mem_edge hback)⟩

/-- **A loop names one iterator, and those of its body come later.** -/
theorem framed_forLoop (hbody : ∀ J, Mirrors set.freshStem J k body body') (iterable : Expr)
    (havoids : (Scoping.seq iterable.scoping (.seq pat.scoping (.seq (.bind pat.names) k))).Avoids
      set.freshStem) (h : forLoop set pos label pat iterable body b = (.ok fragment, b')) :
    Framed set.freshStem
        (iterable.scoping.bound ++ (pat.scoping.bound ++ (pat.names ++ k.bound))) b b' ∧
      b.fresh < b'.fresh ∧ (b.graph.vacant = [] →
        b'.graph.Iterated (iteratorName set.freshStem b.fresh) fragment.entry) := by
  rw [forLoop_eq] at h
  obtain ⟨_, _, hrun, h⟩ := bind_ok h
  cases hrun
  obtain ⟨source, b₁, hrun, h⟩ := bind_ok h
  have hsource := (mirrors_lowerExpr (J := fun _ => True) set.scope iterable).onContext.frames
    havoids.fst hrun
  obtain ⟨init, b₂, hadd, h⟩ := bind_ok h
  have hb₂ := hsource.trans ((blind_add _).framed hadd)
  obtain ⟨_, _, hrun, h⟩ := bind_ok h
  cases hrun
  let v : Variable := ⟨iteratorName set.freshStem b.fresh, true⟩
  let b₃ : Body := { b₂ with context := b₂.context.bind v source.type }
  have hbind : Framed set.freshStem [v.name] b₂ b₃ :=
    ⟨fun _ hk => hk, fun name hname _ =>
      ((fronted_iterator set.freshStem b.fresh source.type).lookup _ name).1 hname,
      .of_graph rfl rfl⟩
  have hsteps := (mirrors_forSteps (J := fun _ => False) id (hbody _)).frames havoids.snd h
  obtain ⟨hpending, hlookup, hsince⟩ := hb₂.trans (hbind.trans hsteps)
  have hlt : b.fresh < b'.fresh := hpending b'.fresh (Nat.le_refl _)
  have hloop (hv : b.graph.vacant = []) :
      b'.graph.Iterated v.name fragment.entry := by
    have hnamed : b.fresh < b₂.fresh := hb₂.pending b₂.fresh (Nat.le_refl _)
    have hnode := (node?_add hadd (hsource.since hv).1.vacant).2
    have hknown : b₃.Knows set.freshStem b.fresh source.type :=
      ⟨(hb₂.since hv).1.vacant, hnamed, List.lookup_cons_self⟩
    exact iterated_forSteps (hbody fun _ => False).frames havoids.snd hknown hnode h
  refine ⟨⟨fun k hk => Nat.le_of_succ_le (hpending k hk), fun name hname hfree => ?_, fun hv => ?_⟩,
    hlt, hloop⟩
  · refine hlookup name (fun hmem => ?_) fun k hk => hfree k (Nat.le_of_succ_le hk)
    rcases List.mem_cons.1 (List.perm_middle.subset hmem) with rfl | hmem
    · exact hfree b.fresh (Nat.le_refl _) rfl
    · rw [List.append_nil] at hmem
      exact hname hmem
  · refine ⟨(hsince hv).1, fun k hk hk' => ?_⟩
    -- the first of the iterators is that of the loop itself
    rcases Nat.eq_or_lt_of_le hk with rfl | hk
    · exact ⟨_, hloop hv⟩
    · exact (hsince hv).2 k hk hk'

theorem mirrors_forLoop (hbody : ∀ J, Mirrors set.freshStem J k body body') (iterable : Expr) :
    Mirrors set.freshStem J (.seq iterable.scoping (.seq pat.scoping (.seq (.bind pat.names) k)))
      (forLoop set pos label pat iterable body) (forLoop set pos label pat iterable body') := by
  refine ⟨fun havoids _ _ _ h => (framed_forLoop hbody iterable havoids h).1, ?_⟩
  intro X Z b d hstale havoids hbd
  obtain ⟨Y, hY, hZ⟩ := Option.bind_eq_some_iff.1 hstale
  obtain ⟨hgraph, hloops, hfresh⟩ := hbd.frame_eq
  have hnear : Near set.freshStem J X { b with fresh := b.fresh + 1 }
      { d with fresh := d.fresh + 1 } := by
    refine ⟨?_, hbd.lookup, fun k hk => hbd.pending k (Nat.le_of_succ_le hk), hbd.plain⟩
    rw [hbd.rest]
    rfl
  have hname : Mirrored set.freshStem J X (freshName set b) (freshName set d) :=
    ⟨congrArg (fun n => Except.ok (iteratorName set.freshStem n)) hfresh, hnear.rest,
      fun _ _ => hnear⟩
  rw [forLoop_eq, forLoop_eq]
  refine hname.bind fun iterator b₁ d₁ hrun hnear => ?_
  cases hrun
  have hexpr : Mirrors set.freshStem J iterable.scoping _ _ :=
    (mirrors_lowerExpr set.scope iterable).onContext
  refine (hexpr.mirrored hY havoids.fst hnear).bind fun source b₂ d₂ hsource hnear => ?_
  refine ((blind_add _).mirrored hnear).bind fun init b₃ d₃ hinit hnear => ?_
  have hframed := (hexpr.frames havoids.fst hsource).trans ((blind_add _).framed hinit)
  have hnamed : ∀ k, Localized.pending b₃ k → k ≠ b.fresh := by
    intro k hk
    have hlater : b.fresh + 1 ≤ k := hframed.pending k hk
    omega
  -- from here on both sides know the iterator, so its steps are the same
  refine Mirrored.bind_iterator hnear hnamed source.type fun b₄ d₄ hnear => ?_
  exact (mirrors_forSteps (fun h => h.2 rfl) (hbody _)).mirrored hZ havoids.snd hnear

end ForLoops

theorem mirrors_plain (set : Setting) (sink : Sink) (e : Expr) :
    Mirrors stem J e.scoping (plain set sink e) (plain set sink e) :=
  (mirrors_lowerExpr set.scope e).onContext.then_blind fun value => blind_sendTo sink value

theorem mirrors_armTest (set : Setting) (scrutinee : Term) (pat : Pat)
    (guard : Option Expr) :
    Mirrors stem J (.seq pat.scoping (.seq (.bind pat.names) (Expr.scopingOfOption guard)))
      (armTest set scrutinee pat guard) (armTest set scrutinee pat guard) := by
  refine (mirrors_lowerPat set.scope pat).seq_of (names_lowerPat set.scope pat) fun p hp => ?_
  refine (mirrors_bindPattern hp scrutinee.type).seq fun _ => ?_
  cases guard with
  | none => exact (Blind.pure _).mirrors
  | some e =>
    exact (mirrors_lowerExpr set.scope e).then_blind fun _ => .pure _

theorem mirrors_letPlain (set : Setting) (pos : Position) (pat : Pat) {p : Pattern}
    (hp : p.bindings.map Variable.name = pat.names) (text : Option String)
    (declared : Option TypeId) (e : Expr) :
    Mirrors stem J (.seq e.scoping (.bind pat.names)) (letPlain set pos p text declared e)
      (letPlain set pos p text declared e) :=
  (mirrors_lowerExpr set.scope e).onContext.seq fun value =>
    (mirrors_bindPattern hp (declared.getD value.type)).onContext.then_blind fun _ => blind_single _

theorem mirrors_letFlow (set : Setting) (pos : Position) (pat : Pat) {p : Pattern}
    (hp : p.bindings.map Variable.name = pat.names) (text : Option String)
    (declared : Option TypeId) {flow flow' : Sink → Attempt Body Fragment}
    (hflow : ∀ sink, Mirrors stem J k (flow sink) (flow' sink)) :
    Mirrors stem J (.seq k (.bind pat.names)) (letFlow set pos p text declared flow)
      (letFlow set pos p text declared flow') := by
  cases p with
  | binding v =>
    refine .after_blind (blind_single _) fun declaration => (hflow _).seq fun value => ?_
    exact (mirrors_bindPattern hp (declared.getD .unknown)).onContext.then_blind fun _ =>
      blind_chain (some declaration) value
  | _ => exact .throw _ _

theorem mirrors_returnFlow (set : Setting) (pos : Position)
    {flow flow' : Sink → Attempt Body Fragment}
    (hflow : ∀ sink, Mirrors stem J k (flow sink) (flow' sink)) :
    Mirrors stem J k (returnFlow set pos flow) (returnFlow set pos flow') := by
  unfold returnFlow
  split
  · exact (hflow .discard).then_blind fun value => (blind_single _).bind fun bare =>
      blind_chain (some value) bare
  · exact hflow .returned

theorem mirrors_skipped (body : Option Block) (v : Fragment) :
    Mirrors stem J (Block.scopingOfOption body) (pure v : Attempt Body Fragment) (pure v) := by
  cases body with
  | none => exact (Blind.pure v).mirrors
  | some body =>
    cases body with
    | mk pos stmts =>
      exact .skip v

end Combinators

section Bodies

variable (set : Setting)

/-- The test and the value of an arm as one action. -/
def lowerArm (sink : Sink) (convergence : NodeId) (scrutinee : Term) (pending : Option NodeId)
    (pat : Pat) (extra : Option Expr) (body : Expr) : Attempt Body (NodeId × Bool) := do
  let (test, exhaustive) ← onContext (armTest set scrutinee pat extra)
  let guard ← guarded convergence pending test (lowerFlow set sink body)
  return (guard, exhaustive)

/-- The guards of all arms, from that of the first and those of the others. -/
def joinGuards (guard : NodeId) (exhaustive : Bool) : Option (Guards × Bool) → Guards × Bool
  | some (guards, last) => (⟨guard, guards.last⟩, last)
  | none => (⟨guard, guard⟩, exhaustive)

theorem lowerArms_cons (sink : Sink) (convergence : NodeId) (scrutinee : Term)
    (pending : Option NodeId) (pat : Pat) (extra : Option Expr) (body : Expr)
    (rest : List Arm) :
    lowerArms set sink convergence scrutinee pending (.mk pat extra body :: rest) = do
      let head ← lowerArm set sink convergence scrutinee pending pat extra body
      let others ← lowerArms set sink convergence scrutinee (some head.1) rest
      return some (joinGuards head.1 head.2 others) := by
  rw [lowerArms, lowerArm, bind_assoc]
  refine bind_congr fun test => ?_
  rw [bind_assoc]
  refine bind_congr fun guard => Eq.symm ?_
  exact pure_bind (guard, test.2) _

mutual

/-- **Lowering a body mirrors lowering it with scopes that end.** -/
theorem mirrors_lowerFlow : ∀ (J : Nat → Prop) (sink : Sink) (e : Expr),
    Mirrors set.freshStem J e.scoping (lowerFlow set sink e) (scopedFlow set sink e)
  | J, sink, .branch pos clauses otherwise => by
    exact mirrors_ifChain pos (fun n => mirrors_lowerClauses J sink n none clauses)
      (mirrors_lowerOtherwise J sink otherwise) (mirrors_skipped otherwise)
  | J, sink, .matchOn pos scrutinee arms => by
    exact (mirrors_lowerExpr set.scope scrutinee).onContext.seq fun value =>
      mirrors_matchChain pos sink fun n => mirrors_lowerArms J sink n value none arms
  | J, sink, .whileLoop pos label condition body => by
    simp only [lowerFlow, scopedFlow, Expr.scoping]
    split
    · exact .throw _ _
    · exact .scope ((mirrors_lowerExpr set.scope condition).onContext.seq fun guard =>
        mirrors_whileLoop pos label guard (mirrors_lowerBlock J .discard body))
  | J, sink, .loop pos label body => by
    simp only [lowerFlow, scopedFlow, Expr.scoping]
    split
    · exact .throw _ _
    · exact mirrors_plainLoop pos label (mirrors_lowerBlock J .discard body)
  | J, sink, .forLoop pos label pat iterable body => by
    simp only [lowerFlow, scopedFlow, Expr.scoping]
    split
    · exact .throw _ _
    · exact .scope (mirrors_forLoop (fun J => mirrors_lowerBlock J .discard body) iterable)
  | J, sink, .block pos label body => by
    cases label with
    | some _ =>
      exact .throw _ _
    | none =>
      exact mirrors_lowerBlock J sink body
  | J, sink, .unsafeBlock _ body => by
    exact mirrors_lowerBlock J sink body
  | J, sink, .ret pos none => by
    exact (blind_single _).mirrors
  | J, sink, .ret pos (some e) => by
    simp only [lowerFlow, scopedFlow, Expr.scoping, Expr.scopingOfOption]
    split
    · exact mirrors_returnFlow set pos fun sink => mirrors_lowerFlow J sink e
    · exact (mirrors_lowerExpr set.scope e).onContext.then_blind fun _ => blind_single _
  | J, sink, .leave pos label value => by
    simp only [lowerFlow, scopedFlow, Expr.scoping]
    split
    · exact .throw _ _
    · exact (blind_jump _ _ _ _).mirrors
  | J, sink, .next pos label => by
    exact (blind_jump _ _ _ _).mirrors
  | J, sink, .assign pos target value => by
    simp only [lowerFlow, scopedFlow]
    split
    · simp only [Expr.scoping]
      exact (mirrors_lowerExpr set.scope target).onContext.seq fun t =>
        mirrors_lowerFlow J (.assigned t) value
    · exact mirrors_plain set sink _
  | J, sink, .literal _ _ | J, sink, .path _ _ | J, sink, .binary _ _ _ _
  | J, sink, .compound _ _ _ _ | J, sink, .unary _ _ _ | J, sink, .borrow _ _ _
  | J, sink, .cast _ _ _ | J, sink, .range _ _ _ _ | J, sink, .test _ _ _ | J, sink, .index _ _ _
  | J, sink, .tupleField _ _ _ | J, sink, .field _ _ _ | J, sink, .methodCall _ _ _ _
  | J, sink, .call _ _ _ | J, sink, .structLit _ _ _ _ | J, sink, .tuple _ _ | J, sink, .array _ _
  | J, sink, .arrayRepeat _ _ _ | J, sink, .paren _ _ | J, sink, .macroCall _ _ _ _
  | J, sink, .other _ _ _ | J, sink, .verbatim _ _ => by
    exact mirrors_plain set sink _

theorem mirrors_lowerBlock : ∀ (J : Nat → Prop) (sink : Sink) (body : Block),
    Mirrors set.freshStem J body.scoping (lowerBlock set sink body) (scopedBlock set sink body)
  | J, sink, .mk pos stmts => by
    refine .scope ((mirrors_lowerStmts J sink none stmts).then_blind fun fragment => ?_)
    cases fragment with
    | none => exact blind_single _
    | some fragment => exact .pure fragment

theorem mirrors_lowerStmts : ∀ (J : Nat → Prop) (sink : Sink) (current : Option Fragment)
    (stmts : List Stmt), Mirrors set.freshStem J (Stmt.scopingOfAll stmts)
      (lowerStmts set sink current stmts) (scopedStmts set sink current stmts)
  | J, sink, current, [] => by
    exact (Blind.pure _).mirrors
  | J, sink, current, s :: rest => by
    refine (mirrors_lowerStmt J _ s).seq fun fragment => ?_
    cases fragment with
    | none => exact mirrors_lowerStmts J sink current rest
    | some fragment =>
      exact .after_blind (blind_chain current fragment) fun joined =>
        mirrors_lowerStmts J sink (some joined) rest

theorem mirrors_lowerStmt : ∀ (J : Nat → Prop) (sink : Sink) (s : Stmt),
    Mirrors set.freshStem J s.scoping (lowerStmt set sink s) (scopedStmt set sink s)
  | J, sink, .bind pos pat ascription none _ => by
    refine .after_blind (blind_resolveAscription set ascription).onContext fun declared => ?_
    refine (mirrors_lowerPat set.scope pat).onContext.seq_of (names_onContext set.scope pat)
      fun p hp => .read (fun _ _ => rfl) fun b => ?_
    exact ((mirrors_bindPattern hp _).onContext.then_blind fun _ => (blind_single _).map _).nothing_seq
  | J, sink, .bind pos pat ascription (some e) diverges => by
    simp only [lowerStmt, scopedStmt, Stmt.scoping, Expr.scopingOfOption]
    refine .after_blind (blind_resolveAscription set ascription).onContext fun declared => ?_
    refine (mirrors_lowerPat set.scope pat).onContext.seq_of (names_onContext set.scope pat)
      fun p hp => .read (fun _ _ => rfl) fun b => ?_
    split
    · exact .throw _ _
    split
    · exact (mirrors_letFlow set pos pat hp _ declared fun sink => mirrors_lowerFlow J sink e).map _
    · exact (mirrors_letPlain set pos pat hp _ declared e).map _
  | J, sink, .expr e semi => by
    exact (mirrors_lowerFlow J _ e).map _
  | J, sink, .useDecl => by
    exact (Blind.pure _).mirrors
  | J, sink, .item pos => by
    exact .throw _ _

theorem mirrors_lowerClauses : ∀ (J : Nat → Prop) (sink : Sink) (convergence : NodeId)
    (pending : Option NodeId) (clauses : List Clause),
    Mirrors set.freshStem J (Clause.scopingOfAll clauses)
      (lowerClauses set sink convergence pending clauses)
      (scopedClauses set sink convergence pending clauses)
  | J, sink, convergence, pending, [] => by
    exact (Blind.pure _).mirrors
  | J, sink, convergence, pending, .mk condition body :: rest => by
    simp only [lowerClauses, scopedClauses, Clause.scopingOfAll]
    rw [← bind_assoc]
    refine Mirrors.seq (.scope ?_) fun guard => ?_
    · exact (mirrors_lowerExpr set.scope condition).onContext.seq fun test =>
        mirrors_guarded convergence pending test (mirrors_lowerBlock J sink body)
    · exact (mirrors_lowerClauses J sink convergence (some guard) rest).then_blind fun _ => .pure _

theorem mirrors_lowerOtherwise : ∀ (J : Nat → Prop) (sink : Sink) (body : Option Block),
    Option.Rel (Mirrors set.freshStem J (Block.scopingOfOption body))
      (lowerOtherwise set sink body) (scopedOtherwise set sink body)
  | J, sink, none => by
    exact .none
  | J, sink, some body => by
    exact .some (mirrors_lowerBlock J sink body)

theorem mirrors_lowerArms : ∀ (J : Nat → Prop) (sink : Sink) (convergence : NodeId)
    (scrutinee : Term) (pending : Option NodeId) (arms : List Arm),
    Mirrors set.freshStem J (Arm.scopingOfAll arms)
      (lowerArms set sink convergence scrutinee pending arms)
      (scopedArms set sink convergence scrutinee pending arms)
  | J, sink, convergence, scrutinee, pending, [] => by
    exact (Blind.pure _).mirrors
  | J, sink, convergence, scrutinee, pending, .mk pat extra body :: rest => by
    rw [lowerArms_cons]
    refine Mirrors.seq (.scope ?_) fun head => ?_
    · exact (mirrors_armTest set scrutinee pat extra).onContext.seq fun ⟨test, _⟩ =>
        (mirrors_guarded convergence pending test (mirrors_lowerFlow J sink body)).then_blind
          fun _ => .pure _
    · exact (mirrors_lowerArms J sink convergence scrutinee (some head.1) rest).then_blind fun _ =>
        .pure _

end

end Bodies

end Body

namespace Cfg

/-- **A body that keeps to its scopes is lowered as if scopes ended**, if none of its
words is the name of an iterator: same outcome, same graph, same types. -/
theorem lowerBody_eq_scopedBody (config : Config) (scope : Scope) (sig : Signature)
    (body : Ast.Block) (arena : Arena) (hkeeps : body.keepsScopes = true)
    (havoids : body.scoping.Avoids config.freshStem) :
    (lowerBody config scope sig body arena).1 = (scopedBody config scope sig body arena).1 ∧
      (lowerBody config scope sig body arena).2.graph =
        (scopedBody config scope sig body arena).2.graph ∧
      (lowerBody config scope sig body arena).2.context.arena =
        (scopedBody config scope sig body arena).2.context.arena := by
  obtain ⟨stale, hstale⟩ := Option.isSome_iff_exists.1 hkeeps
  -- both sides start from one state, where no name is stale
  have hstart : Near config.freshStem (fun _ => True) [] (Body.start (sig.context arena))
      (Body.start (sig.context arena)) :=
    ⟨rfl, fun _ _ _ => rfl, fun _ _ => trivial, fun _ h => absurd h List.not_mem_nil⟩
  have hmirrored := (Body.mirrors_lowerBlock ⟨scope, config.freshStem, sig.returnsUnit⟩ _
    (if sig.returnsUnit then .discard else .returned) body).mirrored hstale havoids hstart
  have hrest : (scopedBody config scope sig body arena).2 =
      Localized.withLocals _ (lowerBody config scope sig body arena).2 := hmirrored.rest
  rw [hrest]
  exact ⟨hmirrored.outcome.symm, rfl, rfl⟩

/-- The variable that a node of a lowered body evaluates, with its type. -/
def variableAt (lowered : Except Error Fragment × Body) (n : NodeId) :
    Option (Variable × TypeId) :=
  match (lowered.2.graph.node? n).bind Statement.term? with
  | some (.mk (.var v) type _) => some (v, type)
  | _ => none

def mentionOf (name : String) : Expr :=
  .path default ⟨default, false, false, [], ⟨name, false⟩, name⟩

/-- The statement `let name = value;`. -/
def letOf (name : String) (mutable : Bool) (value : Lit) : Stmt :=
  .bind default (.binding default name mutable) none (some (.literal default value)) false

/-- `{ let x = 1; for i in x { let mut x = true; x; } let x = 'a'; x }`. -/
def shadowingBody : Block :=
  .mk default [letOf "x" false (.int false 1 ""),
    .expr (.forLoop default none (.binding default "i" false) (mentionOf "x")
      (.mk default [letOf "x" true (.bool true), .expr (mentionOf "x") true])) false,
    letOf "x" false (.char 'a'),
    .expr (mentionOf "x") false]

theorem avoids_of_short {k : Scoping} (h : ∀ name ∈ k.words, name.length = 1) :
    k.Avoids "__iter" := by
  intro name hname i hiter
  have hlength := congrArg String.length hiter
  rw [h name hname, iteratorName, String.length_append, show "__iter".length = 6 from rfl] at hlength
  omega

theorem lowerBody_eq_scopedBody_shadowingBody :
    let scope : Scope := ⟨default, none, [], true, "a.rs"⟩
    let sig : Signature := ⟨"f", default, default, [], .char, none⟩
    shadowingBody.keepsScopes = true ∧ shadowingBody.scoping.Avoids "__iter" ∧
      (lowerBody {} scope sig shadowingBody .empty).2.graph =
        (scopedBody {} scope sig shadowingBody .empty).2.graph ∧
      variableAt (lowerBody {} scope sig shadowingBody .empty) 6 = some (⟨"x", true⟩, .bool) ∧
      variableAt (lowerBody {} scope sig shadowingBody .empty) 9 = some (⟨"x", false⟩, .char) := by
  intro scope sig
  have hkeeps : shadowingBody.keepsScopes = true := by decide
  have havoids : shadowingBody.scoping.Avoids "__iter" := by
    exact avoids_of_short (by decide)
  have heq := lowerBody_eq_scopedBody {} scope sig shadowingBody .empty hkeeps havoids
  refine ⟨hkeeps, havoids, heq.2.1, ?_⟩
  decide +kernel

/-- `{ let x = 1; { let mut x = true; } x }`. -/
def leakingBody : Block :=
  .mk default [letOf "x" false (.int false 1 ""),
    .expr (.block default none (.mk default [letOf "x" true (.bool true)])) false,
    .expr (mentionOf "x") false]

/-- **Scopes do not end**: the last `x` of the body is the outer one, but is lowered as
the inner one. -/
theorem lowerBody_leakingBody :
    let scope : Scope := ⟨default, none, [], true, "a.rs"⟩
    let sig : Signature := ⟨"f", default, default, [], .i32, none⟩
    leakingBody.keepsScopes = false ∧
      variableAt (lowerBody {} scope sig leakingBody .empty) 2 = some (⟨"x", true⟩, .bool) ∧
      variableAt (scopedBody {} scope sig leakingBody .empty) 2 = some (⟨"x", false⟩, .i32) := by
  decide +kernel

end Cfg

end RustFlow
