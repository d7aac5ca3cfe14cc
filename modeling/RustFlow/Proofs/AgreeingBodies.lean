/-
# Bodies and functions agree

Two states of lowering a body are alike if their contexts are, their graphs differ in
types only, and the loops and fresh names are the same.  Fragments are nodes, so they
are equal on both sides, and each construct is lowered to the same nodes and edges.

`agree_lowerFunction` is the result for a function: in two arenas that grew from linked
ones it fails with one error or gets alike graphs.
-/

import RustFlow.Lowering.Function
import RustFlow.Proofs.AgreeingTerms
import RustFlow.Proofs.Parametricity

namespace RustFlow

open Arena Ast

/-- The same state with related types. -/
structure Body.Alike (R : TypeId → TypeId → Prop) (b b' : Body) : Prop where
  locals : LocalsAlike R b.context.locals b'.context.locals
  graph : b.graph.Alike R b'.graph
  loops : b.loops = b'.loops
  fresh : b.fresh = b'.fresh

instance : Typed Body where
  arena b := b.context.arena
  Alike := Body.Alike
  mono hRS h :=
    ⟨h.locals.imp fun _ _ ⟨hn, ht, hm⟩ => ⟨hn, hRS _ _ ht, hm⟩, h.graph.mono hRS, h.loops, h.fresh⟩

/-- Settings that differ in what names stand for only. -/
structure Setting.Agrees (base : Ground) (set set' : Setting) : Prop where
  scope : set.scope.Agrees base set'.scope
  freshStem : set'.freshStem = set.freshStem
  returnsUnit : set'.returnsUnit = set.returnsUnit

theorem Aligned.context {base : Ground} {b b' : Body} (h : Aligned base b b') :
    Aligned base b.context b'.context :=
  ⟨h.linked, h.left, h.right, h.alike.locals⟩

theorem Aligned.types {base : Ground} {b b' : Body} (h : Aligned base b b') :
    Aligned base b.context.arena b'.context.arena := h.context.arena

namespace Body

variable {base : Ground} {set set' : Setting} {b b' x y : Body} {s s' : Statement} {t t' : Term}
  {n m : NodeId} {sink sink' : Sink}

theorem agree_onContext {α : Type} {V : (TypeId → TypeId → Prop) → α → α → Prop}
    {act act' : Attempt Context α} (hb : Aligned base b b')
    (h : Agree base V act act' b.context b'.context) :
    Agree base V (onContext act) (onContext act') b b' :=
  h.zoom hb (fun _ => rfl) (fun _ _ => rfl) fun _ _ _ hlocals hb =>
    ⟨hlocals, hb.graph, hb.loops, hb.fresh⟩

theorem agree_graph {g g' : Graph} (hb : Aligned base b b') (h : g.Alike (Types base b b') g') :
    Aligned base { b with graph := g } { b' with graph := g' } :=
  ⟨hb.linked, hb.left, hb.right, hb.alike.locals, h, hb.alike.loops, hb.alike.fresh⟩

theorem agree_add (hb : Aligned base b b') (hs : s.Alike (Types base b b') s') :
    Agree base (fun _ => Eq) (add s) (add s') b b' := by
  obtain ⟨hn, hg⟩ := hb.alike.graph.addNode hs
  exact ⟨List.prefix_refl _, List.prefix_refl _, agree_graph hb hg, .ok hn⟩

theorem agree_edge (hb : Aligned base b b') (n m : NodeId) (kind : EdgeKind) :
    Agree base (fun _ => Eq) (edge n m kind) (edge n m kind) b b' :=
  ⟨List.prefix_refl _, List.prefix_refl _, agree_graph hb (hb.alike.graph.addEdge n m kind), .ok rfl⟩

theorem agree_inLoop (hb : Aligned base b b') (label : Option String)
    {body body' : Attempt Body Fragment}
    (hbody : ∀ x y, Aligned base x y → Agree base (fun _ => Eq) body body' x y) :
    Agree base (fun _ => Eq) (inLoop label body) (inLoop label body') b b' := by
  have hrun := hbody { b with loops := .ofLabel label :: b.loops }
    { b' with loops := .ofLabel label :: b'.loops }
    ⟨hb.linked, hb.left, hb.right, hb.alike.locals, hb.alike.graph,
      congrArg (_ :: ·) hb.alike.loops, hb.alike.fresh⟩
  obtain ⟨hl, hr, hxy, hsame⟩ := hrun
  refine ⟨hl, hr, ⟨hxy.linked, hxy.left, hxy.right, hxy.alike.locals, hxy.alike.graph, ?_,
    hxy.alike.fresh⟩, ?_⟩
  · exact congrArg List.tail hxy.alike.loops
  · refine hsame.map ?_
    rintro fragment _ rfl
    rw [hxy.alike.loops]

theorem agree_freshName (hs : set.Agrees base set') (hb : Aligned base b b') :
    Agree base (fun _ => Eq) (freshName set) (freshName set') b b' := by
  refine ⟨List.prefix_refl _, List.prefix_refl _, ⟨hb.linked, hb.left, hb.right,
    hb.alike.locals, hb.alike.graph, hb.alike.loops, congrArg (· + 1) hb.alike.fresh⟩, .ok ?_⟩
  rw [hs.freshStem, hb.alike.fresh]

theorem alike_nextStep (hb : Aligned base b b') (iterator : String) {p p' : Pattern}
    (hp : p.Alike (Types base b b') p') (pos : Position) :
    (nextStep b.context iterator p pos).Alike (Types base b b') (nextStep b'.context iterator p' pos) := by
  unfold nextStep
  rw [hb.context.mention_eq]
  have hreceiver : Term.Alike (Types base b b')
      (.mk (.var (b'.context.mention iterator)) (b.context.localType iterator) pos)
      (.mk (.var (b'.context.mention iterator)) (b'.context.localType iterator) pos) :=
    .mk pos (.var _) (hb.context.localType iterator)
  have hunknown : Types base b b' .unknown .unknown := hb.types.same_unknown
  exact .mk pos (.declare none hp (.some (.mk pos (.call _ _ _ (.cons hreceiver .nil)) hunknown)))
    hunknown

theorem alike_ofPattern (hb : Aligned base b b') {p p' : Pattern} (hp : p.Alike (Types base b b') p')
    (pos : Position) : (Term.ofPattern p pos).Alike (Types base b b') (Term.ofPattern p' pos) := by
  have hunknown : Types base b b' .unknown .unknown := hb.types.same_unknown
  have hpattern := TermForm.Alike.pattern hp
  cases hp with
  | binding v => exact .mk pos (.var v) hunknown
  | struct name rest hst hfs => exact .mk pos hpattern hst
  | literal hv => exact .mk pos hpattern hv.type
  | _ => exact .mk pos hpattern hunknown

theorem agree_bind (hb : Aligned base b b') (v : Variable) {s t : TypeId} (hst : Types base b b' s t) :
    Agree base (fun _ _ _ => True) (onContext (modify fun c => c.bind v s))
      (onContext (modify fun c => c.bind v t)) b b' :=
  agree_onContext hb (.change rfl rfl hb.context (LocalsAlike.bind hb.alike.locals v hst))

theorem agree_bindPattern (hb : Aligned base b b') {p p' : Pattern} (hp : p.Alike (Types base b b') p')
    {s t : TypeId} (hst : Types base b b' s t) :
    Agree base (fun _ _ _ => True) (onContext (modify fun c => c.bindPattern p s))
      (onContext (modify fun c => c.bindPattern p' t)) b b' :=
  agree_onContext hb (.bindPattern hb.context hp hst)

theorem agree_jump {scope scope' : Scope} (hs : scope.Agrees base scope') (hb : Aligned base b b')
    (kind : Jump) (label : Option String) (pos : Position) :
    Agree base (fun _ => Eq) (jump scope kind label pos) (jump scope' kind label pos) b b' := by
  refine .get ?_
  rw [hb.alike.loops, hs.locate_eq]
  cases targetLoop b'.loops label with
  | none => exact .throw hb
  | some i =>
    refine (agree_add hb (Statement.alike_noOp pos)).bind ?_
    rintro hop _ x y - hxy rfl
    refine (Agree.change rfl rfl hxy ⟨hxy.alike.locals, hxy.alike.graph, ?_,
      hxy.alike.fresh⟩).bind fun _ _ x y _ hxy _ => .pure hxy rfl
    exact congrArg (fun loops => loops.modify i fun f => f.addHop kind hop) hxy.alike.loops

theorem agree_armTest (hs : set.Agrees base set') {c d : Context} (hcd : Aligned base c d)
    (ht : t.Alike (Types base c d) t') (pat : Pat) (guard : Option Expr) :
    Agree base (fun R p q => p.1.Alike R q.1 ∧ p.2 = q.2) (armTest set t pat guard)
      (armTest set' t' pat guard) c d := by
  refine (agree_lowerPat hs.scope hcd pat).bind fun p p' c d hmono hcd hp => ?_
  replace ht := ht.mono hmono
  refine (Agree.bindPattern hcd hp ht.type).bind fun _ _ c d hmono hcd _ => ?_
  replace hp := hp.mono hmono
  replace ht := ht.mono hmono
  have htest : Term.Alike (Types base c d) (.mk (.test p t) .bool pat.pos)
      (.mk (.test p' t') .bool pat.pos) := .mk _ (.test hp ht) (hcd.arena.same_of_lt (by decide))
  cases guard with
  | some e =>
    refine (agree_lowerExpr hs.scope hcd e).bind fun u u' c d hmono hcd hu => ?_
    exact .pure hcd ⟨alike_binary hcd.arena .and (htest.mono hmono) hu pat.pos, rfl⟩
  | none =>
    refine .pure hcd ⟨htest, ?_⟩
    cases hp <;> rfl

theorem agree_resolveAscription (hs : set.Agrees base set') {c d : Context}
    (hcd : Aligned base c d) (ascription : Option TypeAnn) :
    Agree base (fun R => Option.Rel R) (resolveAscription set ascription)
      (resolveAscription set' ascription) c d := by
  cases ascription with
  | none => exact .pure hcd .none
  | some t => exact (Agree.onArena hcd (agree_resolve hs.scope hcd.arena t.type)).map fun _ _ _ => .some

theorem ascriptionText_eq {a a' : Arena} (h : Aligned base a a') (ascription : Option TypeAnn)
    {o o' : Option TypeId} (ho : Option.Rel (Types base a a') o o') :
    ascriptionText a ascription o = ascriptionText a' ascription o' := by
  cases ascription with
  | none => rfl
  | some t => exact congrArg some (typeText_eq h t (optionRel_getD ho h.same_unknown))

/-! ### Every construct -/

/-- Lowering agrees from states with the given related types. -/
def agreement (base : Ground) (set set' : Setting) : Judgement where
  left := set
  right := set'
  World := { R : TypeId → TypeId → Prop // ∃ x y : Body, Aligned base x y ∧ R = Types base x y }
  Later w x := ∀ s t, w.1 s t → x.1 s t
  At w b b' := Aligned base b b' ∧ w.1 = Types base b b'
  Holds w V m m' := ∀ x y, Aligned base x y ∧ w.1 = Types base x y →
    Agree base (fun R v v' => ∃ h, V ⟨R, h⟩ v v') m m' x y
  Types w := w.1
  Terms w t t' := t.Alike w.1 t'
  Patterns w p p' := p.Alike w.1 p'
  Ascribed w text o text' o' := text = text' ∧ Option.Rel w.1 o o'
  Source _ _ := True
  Target _ _ := True
  Returns := True

section Holds

variable {α : Type} {w : (agreement base set set').World} {act act' : Attempt Body α}
  {V : (agreement base set set').World → α → α → Prop} {U : (TypeId → TypeId → Prop) → α → α → Prop}

theorem holds_of_agree (h : ∀ x y, Aligned base x y → w.1 = Types base x y →
      Agree base U act act' x y) (hU : ∀ x v v', U x.1 v v' → V x v v') :
    (agreement base set set').Holds w V act act' := by
  intro x y hxy
  obtain ⟨hl, hr, haligned, hsame⟩ := h x y hxy.1 hxy.2
  exact ⟨hl, hr, haligned, hsame.mono fun v v' hv =>
    ⟨⟨_, _, haligned, rfl⟩, hU ⟨_, _, _, haligned, rfl⟩ v v' hv⟩⟩

end Holds

theorem sound_agreement (hs : set.Agrees base set') : (agreement base set set').Sound where
  trans h₁ h₂ s t h := h₂ s t (h₁ s t h)
  types_later h hst := h _ _ hst
  terms_later h ht := ht.mono h
  patterns_later h hp := hp.mono h
  ascribed_later h ho := ⟨ho.1, optionRel_imp ho.2 h⟩
  source_later _ h := h
  target_later _ h := h
  target h := h
  returnsUnit := hs.returnsUnit.symm
  returns _ := trivial
  incoming n h := by rw [h.1.alike.graph.incoming_eq]
  unknown w := by
    obtain ⟨_, x, y, hxy, rfl⟩ := w
    exact hxy.types.same_unknown
  type h := h.type
  ascription ho hst := optionRel_getD ho.2 hst
  unascribed _ := ⟨rfl, .none⟩
  binding _ v := .binding v
  shape h v := by cases h <;> simp
  var v pos h := .mk pos (.var v) h
  assign {w t t' u u'} ht hu := by
    obtain ⟨_, x, y, hxy, rfl⟩ := w
    rw [← hu.pos_eq]
    exact .mk _ (.assign ht hu) hxy.types.same_unit
  declare {w p q text o text' o' v v'} pos hp ho hv := by
    obtain ⟨_, x, y, hxy, rfl⟩ := w
    obtain ⟨rfl, ho⟩ := ho
    refine .mk pos (.declare text hp hv) (optionRel_getD ho ?_)
    exact optionRel_getD (optionRel_map hv fun _ _ h => h.type) hxy.types.same_unknown
  nextStep {w b b' p q} iterator pos h hp := by
    obtain ⟨_, hw⟩ := w
    obtain ⟨hb, rfl⟩ := h
    exact alike_nextStep hb iterator hp pos
  stepGuard {w p q} pos hp := by
    obtain ⟨_, x, y, hxy, rfl⟩ := w
    exact alike_binary hxy.types .ne (alike_ofPattern hxy hp pos) (.mk _ .exhausted hxy.types.same_unknown) pos
  pure {α w v V} h x y hxy := .pure hxy.1 (hxy.2 ▸ ⟨w.2, h⟩)
  bind {α β w V W m m' f f'} h hf x y hxy := by
    refine (h x y hxy).bind fun v v' x' y' hmono hxy' hv => ?_
    obtain ⟨hw, hv⟩ := hv
    exact hf ⟨_, hw⟩ v v' (fun s t hst => hmono s t (hxy.2 ▸ hst)) hv x' y' ⟨hxy', rfl⟩
  get {α w V f f'} h x y hxy := .get (h w x y (fun _ _ h => h) hxy x y hxy)
  refuse what pos x y hxy := .refuse hs.scope hxy.1
  lowerExpr e := holds_of_agree (fun _ _ hxy _ =>
    agree_onContext hxy (agree_lowerExpr hs.scope hxy.context e)) fun _ _ _ h => h
  lowerPat p := holds_of_agree (fun _ _ hxy _ =>
    agree_onContext hxy (agree_lowerPat hs.scope hxy.context p)) fun _ _ _ h => h
  armTest {w t t'} pat guard ht := holds_of_agree (fun _ _ hxy hw =>
    agree_onContext hxy (agree_armTest hs hxy.context (hw ▸ ht) pat guard)) fun _ _ _ h => h
  letHead {α w V} pat ascription f f' h x y hxy := by
    refine (agree_onContext hxy.1 (agree_resolveAscription hs hxy.1.context ascription)).bind ?_
    intro o o' x₁ y₁ hmono₁ hxy₁ ho
    refine (agree_onContext hxy₁ (agree_lowerPat hs.scope hxy₁.context pat)).bind ?_
    intro p p' x₂ y₂ hmono₂ hxy₂ hp
    replace ho := optionRel_imp ho hmono₂
    refine .get (h ⟨_, x₂, y₂, hxy₂, rfl⟩ x₂ y₂ o o' p p' ?_ ⟨hxy₂, rfl⟩ hp ?_ x₂ y₂ ⟨hxy₂, rfl⟩)
    · exact fun s t hst => hmono₂ s t (hmono₁ s t (hxy.2 ▸ hst))
    · exact ⟨ascriptionText_eq hxy₂.types ascription ho, ho⟩
  bindVariable v h := holds_of_agree (fun _ _ hxy hw => agree_bind hxy v (hw ▸ h)) fun _ _ _ h => h
  bindPattern hp h := holds_of_agree (fun _ _ hxy hw => agree_bindPattern hxy (hw ▸ hp) (hw ▸ h))
    fun _ _ _ h => h
  freshName := holds_of_agree (fun _ _ hxy _ => agree_freshName hs hxy) fun _ _ _ h => h
  add {w s s'} h := by
    have hs : s.Alike w.1 s' := by
      cases h with
      | ofTerm ht => exact Statement.alike_ofTerm ht
      | noOp pos => exact Statement.alike_noOp pos
      | written pos ho => exact ⟨.writtenReturn ho, rfl⟩
    exact holds_of_agree (fun _ _ hxy hw => agree_add hxy (hw ▸ hs)) fun _ _ _ h => ⟨h, trivial⟩
  addValue {w t t'} _ ht := holds_of_agree (fun _ _ hxy hw =>
    agree_add hxy (hw ▸ ⟨.returnValue ht, ht.pos_eq⟩)) fun _ _ _ h => ⟨h, trivial⟩
  edge kind _ _ := holds_of_agree (fun _ _ hxy _ => agree_edge hxy _ _ kind) fun _ _ _ _ => trivial
  inLoop {w} label body body' hbody := by
    refine holds_of_agree (U := fun _ => Eq) (fun x y hxy _ => agree_inLoop hxy label ?_) ?_
    · intro x y hxy
      obtain ⟨hl, hr, haligned, hsame⟩ := hbody ⟨_, x, y, hxy, rfl⟩ x y ⟨hxy, rfl⟩
      exact ⟨hl, hr, haligned, hsame.mono fun _ _ hf => hf.2.same⟩
    · rintro x r _ rfl
      exact ⟨⟨rfl, trivial, fun _ _ => trivial⟩, rfl, fun _ _ => trivial⟩
  jump kind label pos := by
    refine holds_of_agree (fun _ _ hxy _ => agree_jump hs.scope hxy kind label pos) ?_
    rintro x f _ rfl
    exact ⟨rfl, trivial, fun _ _ => trivial⟩

/-- **Every body is lowered to the same nodes and edges.** -/
theorem agree_lower (hs : set.Agrees base set') (hb : Aligned base b b') (body : Block) :
    Agree base (fun _ => Eq) (lower set body) (lower set' body) b b' := by
  let w : (agreement base set set').World := ⟨_, b, b', hb, rfl⟩
  obtain ⟨hl, hr, haligned, hsame⟩ := (sound_agreement hs).lower (w := w) body b b' ⟨hb, rfl⟩
  exact ⟨hl, hr, haligned, hsame.mono fun _ _ hf => hf.2.same⟩

end Body

/-! ### Functions -/

variable {base : Ground} {a a' : Arena} {scope scope' : Scope} {sig sig' : Signature}

theorem Signature.arena_context (sig : Signature) (a : Arena) : (sig.context a).arena = a := by
  have hfold (ps : List Parameter) (c : Context) :
      (ps.foldl (fun c p => c.bindPattern p.pattern p.type) c).arena = c.arena := by
    induction ps generalizing c with
    | nil => rfl
    | cons p ps ih => exact ih _
  exact hfold sig.params ⟨a, []⟩

theorem aligned_bindParams {R : TypeId → TypeId → Prop} {c d : Context} (hcd : Aligned base c d)
    (hR : ∀ s t, R s t → Types base c d s t) {ps ps' : List Parameter}
    (h : List.Forall₂ (Parameter.Alike R) ps ps') :
    Aligned base (ps.foldl (fun c p => c.bindPattern p.pattern p.type) c)
      (ps'.foldl (fun c p => c.bindPattern p.pattern p.type) d) := by
  induction h generalizing c d with
  | nil => exact hcd
  | cons hp _ ih => exact ih (hcd.bindPattern (hp.pattern.mono hR) (hR _ _ hp.type)) hR

/-- The signature as it stands where its unit has more units before it. -/
def Signature.shift (k : Nat) (sig : Signature) : Signature := { sig with unit := sig.unit.shift k }

/-- The graph as it stands where its unit has more units before it. -/
def Cfg.shift (k : Nat) (c : Cfg) : Cfg := { c with signature := c.signature.shift k }

theorem returnsUnit_eq (h : (sig.shift base.shift).Alike (Types base a a') sig')
    (hab : Aligned base a a') : sig.returnsUnit = sig'.returnsUnit := by
  rw [Signature.returnsUnit, Signature.returnsUnit, Bool.eq_iff_iff, beq_iff_eq, beq_iff_eq]
  exact hab.eq_iff h.returnType hab.same_unit

theorem aligned_start (h : (sig.shift base.shift).Alike (Types base a a') sig')
    (hab : Aligned base a a') :
    Aligned base (Body.start (sig.context a)) (Body.start (sig'.context a')) := by
  have hempty : Aligned base (⟨a, []⟩ : Context) ⟨a', []⟩ := ⟨hab.linked, hab.left, hab.right, .nil⟩
  have hbound := aligned_bindParams hempty (fun _ _ hst => hst) h.params
  exact ⟨hab.linked, hbound.left, hbound.right, hbound.alike, Graph.alike_empty, rfl, rfl⟩

/-- **Alike functions with one body have alike graphs**, or fail with one error. -/
theorem agree_ofBody (hs : scope.Agrees base scope') (hab : Aligned base a a') (config : Config)
    (hsig : (sig.shift base.shift).Alike (Types base a a') sig') (body : Block) :
    Agree base (fun R c c' => (c.shift base.shift).Alike R c') (Cfg.ofBody config scope sig body)
      (Cfg.ofBody config scope' sig' body) a a' := by
  have hunit := returnsUnit_eq hsig hab
  have hset : Setting.Agrees base ⟨scope, config.freshStem, sig.returnsUnit⟩
      ⟨scope', config.freshStem, sig'.returnsUnit⟩ := ⟨hs, rfl, hunit.symm⟩
  have hlower := Body.agree_lower hset (aligned_start hsig hab) body
  obtain ⟨hl, hr, hbb, hsame⟩ := hlower
  rw [show Typed.arena (Body.start (sig.context a)) = a from sig.arena_context a] at hl
  rw [show Typed.arena (Body.start (sig'.context a')) = a' from sig'.arena_context a'] at hr
  refine ⟨hl, hr, ⟨hab.linked, hbb.left, hbb.right, trivial⟩, hsame.bind ?_⟩
  rintro fragment _ rfl
  refine (Cfg.alike_close hsig.name hsig.location config hunit
    (hbb.alike.graph.addEntry fragment.entry)).bind fun g h hgh => .ok ⟨?_, hgh⟩
  exact hsig.mono fun _ _ hst => types_mono hst hl hr

theorem Parameter.alike_ofPattern {R : TypeId → TypeId → Prop} {p p' : Pattern} {s t : TypeId}
    (hp : p.Alike R p') (hst : R s t) (location : Location) :
    (Parameter.ofPattern p s location).Alike R (Parameter.ofPattern p' t location) := by
  have hrender := hp.render_eq
  have hpattern := hp
  cases hp with
  | binding v => exact ⟨rfl, hst, rfl, hpattern, rfl⟩
  | _ => exact ⟨hrender, hst, rfl, hpattern, rfl⟩

theorem agree_lowerParam (hs : scope.Agrees base scope') (hab : Aligned base a a') (p : Ast.Param) :
    Agree base Parameter.Alike (scope.lowerParam p) (scope'.lowerParam p) a a' := by
  cases p with
  | receiver pos byRef mutable =>
    exact .pure hab ⟨rfl, hs.same_self hab, rfl, .binding _, (hs.locate_eq pos).symm⟩
  | typed pos pat type =>
    refine (agree_resolve hs hab type.type).bind fun t t' a a' _ hab ht => ?_
    have hempty : Aligned base (⟨a, []⟩ : Context) ⟨a', []⟩ :=
      ⟨hab.linked, hab.left, hab.right, .nil⟩
    have hpat : Agree base Pattern.Alike
        ((scope.lowerPat pat).zoom (fun a => Context.mk a []) fun c _ => c.arena)
        ((scope'.lowerPat pat).zoom (fun a => Context.mk a []) fun c _ => c.arena) a a' :=
      (agree_lowerPat hs hempty pat).zoom hab (fun _ => rfl) (fun _ _ => rfl) fun _ _ _ _ h => h
    refine hpat.bind fun p p' a a' hmono hab hp => ?_
    rw [hs.locate_eq]
    exact .pure hab (Parameter.alike_ofPattern hp (hmono _ _ ht) _)

theorem agree_lowerParams (hs : scope.Agrees base scope') (hab : Aligned base a a')
    (ps : List Ast.Param) :
    Agree base (fun R => List.Forall₂ (Parameter.Alike R)) (scope.lowerParams ps)
      (scope'.lowerParams ps) a a' := by
  induction ps generalizing a a' with
  | nil => exact .pure hab .nil
  | cons p ps ih =>
    refine (agree_lowerParam hs hab p).bind fun q q' a a' _ hab hq => ?_
    refine (ih hab).bind fun qs qs' a a' hmono hab hqs => ?_
    exact .pure hab (.cons (hq.mono hmono) hqs)

theorem agree_resolveResult (hs : scope.Agrees base scope') (hab : Aligned base a a')
    (result : Option TypeAnn) :
    Agree base (fun R => R) (scope.resolveResult result) (scope'.resolveResult result) a a' := by
  cases result with
  | none => exact .pure hab hab.same_unit
  | some t => exact agree_resolve hs hab t.type

theorem agree_lowerSignature (hs : scope.Agrees base scope') (hab : Aligned base a a')
    {unit unit' : UnitId} (hunit : unit' = unit.shift base.shift) (fn : FnDecl) :
    Agree base (fun R sig sig' => (sig.shift base.shift).Alike R sig') (scope.lowerSignature unit fn)
      (scope'.lowerSignature unit' fn) a a' := by
  refine (agree_lowerParams hs hab fn.params).bind fun ps ps' a a' _ hab hps => ?_
  refine (agree_resolveResult hs hab fn.result).bind fun t t' a a' hmono hab ht => ?_
  exact .pure hab ⟨rfl, hunit.symm, (hs.locate_eq fn.pos).symm, hps.imp fun _ _ hp => hp.mono hmono,
    ht, rfl⟩

/-- **A function fails with one error or has alike graphs**, whatever else the arenas
hold. -/
theorem agree_lowerFunction (hs : scope.Agrees base scope') (hab : Aligned base a a')
    (config : Config) (unit : UnitId) {unit' : UnitId} (hunit : unit' = unit.shift base.shift)
    (fn : FnDecl) :
    Agree base (fun R c c' => (c.shift base.shift).Alike R c') (scope.lowerFunction config unit fn)
      (scope'.lowerFunction config unit' fn) a a' := by
  unfold Scope.lowerFunction
  split
  · exact .refuse hs hab
  · split
    · exact .refuse hs hab
    · refine (agree_lowerSignature hs hab hunit fn).bind fun sig sig' a a' _ hab hsig => ?_
      exact agree_ofBody hs hab config hsig fn.body

end RustFlow
