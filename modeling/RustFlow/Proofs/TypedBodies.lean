/-
# Every term in a graph is typed by its rule

A state of lowering a body is *fit* if its context is and the terms of all nodes so far are
well typed.  Lowering keeps fit states fit, also where it fails (`keeps_lower`): the
judgement is sound (`sound_typing`), since nodes are added for terms that are well typed
already, and the terms that lowering makes up itself (the steps and the guard of a `for`
loop, the test of an arm, the assignment of a value to a variable that is declared before
it) are typed by the same rules.

Nodes are never taken back while a body is lowered, but the arena goes on growing; so a node
that was typed once is typed in the arena at the end (`lowerBody_typed`).
-/

import RustFlow.Lowering.Body
import RustFlow.Proofs.Parametricity
import RustFlow.Proofs.TypedTerms

namespace RustFlow

open Arena Ast

variable {scope : Scope} {a b : Arena} {t : Term}

/-- A body with a fit context and well-typed terms in its nodes. -/
structure Body.Fit (scope : Scope) (x : Body) : Prop where
  context : x.context.Fit scope
  nodes : ∀ s, some s ∈ x.graph.slots → TermsTyped scope x.context.arena s.term?.toList

instance : Workspace Body := ⟨fun x => x.context.arena, Body.Fit, fun h => h.context.arena⟩

theorem Body.Fit.onContext {α : Type} {x : Body} {m : Attempt Context α} {V : Arena → α → Prop}
    (hx : x.Fit scope) (h : Keeps scope m x.context V) : Keeps scope (Body.onContext m) x V := by
  refine h.zoom rfl (fun _ => rfl) fun c hlater hc => ⟨hc, fun s hs => ?_⟩
  exact (hx.nodes s hs).mono hlater

namespace Body

/-! ### Nodes and edges -/

theorem mem_slots_addNode {g : Graph} {s u : Statement} (h : some u ∈ (g.addNode s).2.slots) :
    u = s ∨ some u ∈ g.slots := by
  unfold Graph.addNode at h
  split at h
  · rcases List.mem_append.1 h with hmem | hmem
    · exact .inr hmem
    · exact .inl (Option.some.inj (List.mem_singleton.1 hmem))
  · rcases List.mem_or_eq_of_mem_set h with hmem | heq
    · exact .inr hmem
    · exact .inl (Option.some.inj heq)

/-- A step of an iterator declares the pattern by a call of unknown type. -/
theorem wellTyped_nextStep {c : Context} (hc : c.Fit scope) (iterator : String) {p : Pattern}
    (hp : p.WellTyped scope c.arena) (pos : Position) :
    (nextStep c iterator p pos).WellTyped scope c.arena := by
  have hreceiver : Term.WellTyped scope c.arena
      (.mk (.var (c.mention iterator)) (c.localType iterator) pos) :=
    .mk (hc.live_localType iterator) (.var _ _) .nil
  have hcall := wellTyped_call hc.arena.toOrdered "next" none true (.single hreceiver) pos
  exact .mk hc.arena.live_unknown (.inferred p _) (hp.terms.append (.single hcall))

theorem wellTyped_ofPattern {p : Pattern} (hp : p.WellTyped scope a) (pos : Position) :
    (Term.ofPattern p pos).WellTyped scope a := by
  unfold Term.ofPattern
  split
  · exact .mk hp.live (.var _ _) .nil
  · exact .mk hp.live (.pattern _) hp.terms

/-- The guard of a `for` loop compares the step with what an exhausted iterator gives. -/
theorem wellTyped_stepGuard (ha : a.Ordered) {p : Pattern} (hp : p.WellTyped scope a)
    (pos : Position) :
    (Term.binary .ne (.ofPattern p pos) (.mk .exhausted .unknown pos) pos).WellTyped scope a :=
  wellTyped_binary ha .ne (wellTyped_ofPattern hp pos) (.mk ha.live_unknown .exhausted .nil) pos

/-! ### Declarations -/

/-- The text of an ascribed type, and the type; neither is there without an ascription. -/
inductive Ascribed (a : Arena) : Option String → Option TypeId → Prop where
  | none : Ascribed a none none
  | some {text : String} {t : TypeId} :
      a.Live t → t = .unknown ∨ text = a.display t → Ascribed a (some text) (some t)

theorem Ascribed.mono {text : Option String} {o : Option TypeId} (h : Ascribed a text o)
    (hab : Later a b) : Ascribed b text o := by
  cases h with
  | none => exact .none
  | some ht htext =>
    refine .some (ht.mono hab.forms) ?_
    rwa [hab.ordered.display_eq hab.forms ht]

theorem Ascribed.live {text : Option String} {o : Option TypeId} (h : Ascribed a text o) {t : TypeId}
    (ht : a.Live t) : a.Live (o.getD t) := by
  cases h with
  | none => exact ht
  | some ho => exact ho

/-- A `let` has the type it is ascribed, or else that of its value. -/
theorem wellTyped_declare (ha : a.Ordered) {p : Pattern} (hp : p.WellTyped scope a)
    {text : Option String} {o : Option TypeId} (h : Ascribed a text o) (init : Option Term)
    (hinit : TermsTyped scope a init.toList) (pos : Position) :
    (Term.mk (.declare p text init) (o.getD ((init.map Term.type).getD .unknown)) pos).WellTyped
      scope a := by
  have hparts := hp.terms.append hinit
  cases h with
  | some ht htext => exact .mk ht (.ascribed p init htext) hparts
  | none =>
    cases init with
    | none => exact .mk ha.live_unknown (.bare p) hparts
    | some v => exact .mk (hinit v (List.mem_singleton.2 rfl)).live (.inferred p v) hparts

theorem keeps_resolveAscription {set : Setting} {c : Context} (hc : c.Fit set.scope)
    (ascription : Option TypeAnn) :
    Keeps set.scope (resolveAscription set ascription) c
      fun b o => ∀ d, Later b d → Ascribed d (ascriptionText d ascription o) o := by
  cases ascription with
  | none => exact .pure hc fun _ _ => .none
  | some written =>
    have hresolve := runInterns_resolve hc.arena.self hc.arena.toOrdered written.type
    exact (Keeps.onArena hc hresolve).map fun b t ht d hbd =>
      .some (ht.mono hbd.forms) (typeText_cases d written t)

theorem keeps_armTest {set : Setting} {c : Context} (hc : c.Fit set.scope)
    (ht : t.WellTyped set.scope c.arena) (pat : Pat) (guard : Option Expr) :
    Keeps set.scope (armTest set t pat guard) c fun b v => v.1.WellTyped set.scope b := by
  refine (keeps_lowerPat hc pat).bind fun p c hlater hc hp => ?_
  replace ht := ht.mono hlater
  refine (Keeps.bindPattern hc p ht.live).bind fun _ c hlater (hc : c.Fit set.scope) _ => ?_
  have htest := wellTyped_test hc.arena.toOrdered (hp.mono hlater) (ht.mono hlater) pat.pos
  cases guard with
  | none => exact .pure hc htest
  | some e =>
    refine (keeps_lowerExpr hc e).bind fun extra c hlater (hc : c.Fit set.scope) hextra => ?_
    exact .pure hc (wellTyped_binary hc.arena.toOrdered .and (htest.mono hlater) hextra pat.pos)

/-! ### Every construct -/

/-- Lowering keeps fit bodies fit. -/
def typing (set : Setting) : Judgement where
  left := set
  right := set
  World := { a : Arena // a.Ordered }
  Later w x := Later w.1 x.1
  At w b b' := b.context.arena = w.1 ∧ b.Fit set.scope ∧ b' = b
  Holds w V m _ := ∀ x : Body, x.context.arena = w.1 → x.Fit set.scope →
    Keeps set.scope m x fun a v => ∃ h, V ⟨a, h⟩ v v
  Types w s _ := w.1.Live s
  Terms w t _ := t.WellTyped set.scope w.1
  Patterns w p q := p = q ∧ p.WellTyped set.scope w.1
  Ascribed w text o _ _ := Ascribed w.1 text o
  Source _ _ := True
  Target _ _ := True
  Returns := True

variable {set : Setting} {α : Type} {w : (typing set).World} {V : (typing set).World → α → α → Prop}

theorem holds_of_keeps {m m' : Attempt Body α} {U : Arena → α → Prop}
    (h : ∀ x : Body, x.context.arena = w.1 → x.Fit set.scope → Keeps set.scope m x U)
    (hU : ∀ x v, U x.1 v → V x v v) : (typing set).Holds w V m m' := by
  intro x hx hfit
  obtain ⟨hlater, hreached, hv⟩ := h x hx hfit
  exact ⟨hlater, hreached, fun v hrun => ⟨hlater.ordered_right, hU ⟨_, _⟩ v (hv v hrun)⟩⟩

theorem typing_onContext {m m' : Attempt Context α} {U : Arena → α → Prop}
    (h : ∀ c : Context, c.arena = w.1 → c.Fit set.scope → Keeps set.scope m c U)
    (hU : ∀ x v, U x.1 v → V x v v) :
    (typing set).Holds w V (onContext m) (onContext m') :=
  holds_of_keeps (fun x hx hfit => hfit.onContext (h x.context hx hfit.context)) hU

theorem typing_modifyGet {f f' : Body → α × Body} (hcontext : ∀ x, (f x).2.context = x.context)
    (hslots : ∀ x, (f x).2.graph.slots = x.graph.slots) (hV : ∀ x v, V x v v) :
    (typing set).Holds w V (MonadStateOf.modifyGet f) (MonadStateOf.modifyGet f') := by
  refine holds_of_keeps (U := fun _ _ => True) (fun x _ hfit => ?_) fun x v _ => hV x v
  refine ⟨?_, ⟨?_, ?_⟩, fun _ _ => trivial⟩
  · show Later x.context.arena (f x).2.context.arena
    rw [hcontext]
    exact .refl hfit.context.arena.toOrdered
  · show (f x).2.context.Fit set.scope
    rw [hcontext]
    exact hfit.context
  · show ∀ s, some s ∈ (f x).2.graph.slots → TermsTyped set.scope (f x).2.context.arena s.term?.toList
    rw [hcontext, hslots]
    exact hfit.nodes

theorem typing_add {s s' : Statement} {V : (typing set).World → NodeId → NodeId → Prop}
    (hs : TermsTyped set.scope w.1 s.term?.toList) (hV : ∀ x n, V x n n) :
    (typing set).Holds w V (add s) (add s') := by
  refine holds_of_keeps (U := fun _ _ => True) (fun x hx hfit => ?_) fun x n _ => hV x n
  refine ⟨.refl hfit.context.arena.toOrdered, ⟨hfit.context, fun u hu => ?_⟩, fun _ _ => trivial⟩
  rcases mem_slots_addNode hu with rfl | hmem
  · exact hx ▸ hs
  · exact hfit.nodes u hmem

theorem sound_typing (set : Setting) : (typing set).Sound where
  trans h₁ h₂ := Later.trans h₁ h₂
  types_later h ht := ht.mono h.forms
  terms_later h ht := ht.mono h
  patterns_later h hp := ⟨hp.1, hp.2.mono h⟩
  ascribed_later h ho := ho.mono h
  source_later _ h := h
  target_later _ h := h
  target h := h
  returnsUnit := rfl
  returns _ := trivial
  incoming n h := by rw [h.2.2]
  unknown w := w.2.live_unknown
  type h := h.live
  ascription ho ht := ho.live ht
  unascribed _ := .none
  binding w v := ⟨rfl, w.2.live_unknown, .nil⟩
  shape h v := by rw [h.1]
  var v pos h := .mk h (.var _ _) .nil
  assign {w t t' u u'} ht hu := wellTyped_assign w.2 ht hu u.pos
  declare {w p q text o text' o' v v'} pos hp ho hv := by
    refine wellTyped_declare w.2 hp.2 ho v ?_ pos
    cases hv with
    | none => exact .nil
    | some hv => exact .single hv
  nextStep {w b b' p q} iterator pos h hp := by
    obtain ⟨_, ha⟩ := w
    obtain ⟨rfl, hfit, -⟩ := h
    exact wellTyped_nextStep hfit.context iterator hp.2 pos
  stepGuard {w p q} pos hp := wellTyped_stepGuard w.2 hp.2 pos
  pure {α w v V} h x hx hfit := by
    obtain ⟨_, ha⟩ := w
    obtain rfl := hx
    exact .pure hfit ⟨ha, h⟩
  bind {α β w V W m m' f f'} h hf x hx hfit := by
    obtain ⟨_, hw⟩ := w
    obtain rfl := hx
    refine (h x rfl hfit).bind fun v y hxy hy hv => ?_
    obtain ⟨ha, hv⟩ := hv
    exact hf ⟨_, ha⟩ v v hxy hv y rfl hy
  get {α w V f f'} h x hx hfit := .get (h w x x (.refl w.2) ⟨hx, hfit, rfl⟩ x hx hfit)
  refuse what pos x _ hfit := .refuse hfit
  lowerExpr e := typing_onContext (fun _ _ hc => keeps_lowerExpr hc e) fun _ _ h => h
  lowerPat p := typing_onContext (fun _ _ hc => keeps_lowerPat hc p) fun _ _ h => ⟨rfl, h⟩
  armTest pat guard ht := typing_onContext (fun _ hx hc => keeps_armTest hc (hx ▸ ht) pat guard)
    fun _ _ h => ⟨h, rfl⟩
  letHead {α w V} pat ascription f f' h x hx hfit := by
    obtain ⟨_, hw⟩ := w
    obtain rfl := hx
    refine (hfit.onContext (keeps_resolveAscription hfit.context ascription)).bind ?_
    intro o y hxy hy ho
    refine (hy.onContext (keeps_lowerPat hy.context pat)).bind fun p z hyz hz hp => ?_
    exact .get (h ⟨_, hyz.ordered_right⟩ z z o o p p (hxy.trans hyz) ⟨rfl, hz, rfl⟩ ⟨rfl, hp⟩
      (ho _ hyz) z rfl hz)
  bindVariable v ht := typing_onContext (U := fun _ _ => True)
    (fun _ hx hc => .change hc rfl (hc.bind v (hx ▸ ht))) fun _ _ h => h
  bindPattern {w p q s t} _ ht := typing_onContext (fun _ hx hc => Keeps.bindPattern hc p (hx ▸ ht))
    fun _ _ _ => trivial
  freshName := typing_modifyGet (fun _ => rfl) (fun _ => rfl) fun _ _ => rfl
  add {w s s'} h := by
    refine typing_add ?_ fun _ _ => ⟨rfl, trivial⟩
    cases h with
    | ofTerm ht => exact .single ht
    | noOp pos => exact .nil
    | written pos ho =>
      cases ho with
      | none => exact .nil
      | some ht => exact .single ht
  addValue _ ht := typing_add (.single ht) fun _ _ => ⟨rfl, trivial⟩
  edge kind _ _ := typing_modifyGet (fun _ => rfl) (fun _ => rfl) fun _ _ => trivial
  inLoop {w} label body body' hbody := by
    refine holds_of_keeps (U := fun _ _ => True) (fun x hx hfit => ?_) fun _ _ _ =>
      ⟨⟨rfl, trivial, fun _ _ => trivial⟩, rfl, fun _ _ => trivial⟩
    obtain ⟨hlater, hreached, -⟩ :=
      hbody w { x with loops := .ofLabel label :: x.loops } hx ⟨hfit.context, hfit.nodes⟩
    exact ⟨hlater, ⟨hreached.context, hreached.nodes⟩, fun _ _ => trivial⟩
  jump {w} kind label pos x hx hfit := by
    refine .get ?_
    split
    · exact .throw hfit
    · have hhop : (typing set).Holds w (fun _ _ _ => True) (add (.noOp pos)) (add (.noOp pos)) :=
        typing_add .nil fun _ _ => trivial
      refine (hhop x hx hfit).bind fun hop y _ hy _ => ?_
      have hframe (f : List LoopFrame → List LoopFrame) : Keeps set.scope
          (modify fun b => { b with loops := f b.loops } : Attempt Body PUnit) y fun _ _ => True :=
        .change hy rfl ⟨hy.context, hy.nodes⟩
      exact (hframe _).bind fun _ z hyz hz _ =>
        .pure hz ⟨hyz.ordered_right, rfl, trivial, fun _ _ => trivial⟩

/-- **Every body is lowered to well-typed nodes.** -/
theorem keeps_lower (set : Setting) (body : Block) {x : Body} (hx : x.Fit set.scope) :
    Keeps set.scope (lower set body) x fun _ _ => True := by
  let w : (typing set).World := ⟨_, hx.context.arena.toOrdered⟩
  obtain ⟨hlater, hfit, -⟩ := (sound_typing set).lower (w := w) body x rfl hx
  exact ⟨hlater, hfit, fun _ _ => trivial⟩

end Body

/-! ### Functions -/

theorem Signature.fit_context {sig : Signature} (ha : a.Stocked scope)
    (hparams : ∀ p ∈ sig.params, a.Live p.type) : (sig.context a).Fit scope := by
  have hfold (ps : List Parameter) (c : Context) (hc : c.Fit scope)
      (hps : ∀ p ∈ ps, c.arena.Live p.type) :
      (ps.foldl (fun c p => c.bindPattern p.pattern p.type) c).Fit scope := by
    induction ps generalizing c with
    | nil => exact hc
    | cons p ps ih =>
      obtain ⟨hp, hps⟩ := List.forall_mem_cons.1 hps
      exact ih (c.bindPattern p.pattern p.type) (hc.bindPattern p.pattern hp) hps
  exact hfold sig.params ⟨a, []⟩ ⟨ha, fun _ hx => by cases hx⟩ hparams

namespace Cfg

/-- **Every term in a graph is typed by its rule.**  Let a body be lowered in an ordered
arena, where the members of layouts, the type of `Self` and the types of the parameters are
live.  Then each term that stands in a node, at any depth, has a live type in the arena that
is reached, by the rule of its form there; also if the body is refused half-way. -/
theorem lowerBody_typed (config : Config) {scope : Scope} {sig : Signature} {a : Arena}
    (ha : a.Ordered) (hmembers : ∀ t l, a.layout? t = some l → ∀ x ∈ l.types, a.Live x)
    (hself : scope.Within a) (hparams : ∀ p ∈ sig.params, a.Live p.type) (body : Ast.Block) :
    let b := (lowerBody config scope sig body a).2
    ∀ (n : NodeId) (s : Statement) (t u : Term), b.graph.node? n = some s → s.term? = some t →
      u.Within t →
      b.context.arena.Live u.type ∧ Typing scope b.context.arena u.form u.type := by
  intro b n s t u hn ht hu
  have hstocked : a.Stocked scope := ⟨ha, hmembers, hself⟩
  have hcontext := Signature.fit_context hstocked hparams
  have hstart : (Body.start (sig.context a)).Fit scope := ⟨hcontext, fun _ hs => by cases hs⟩
  have hrun := Body.keeps_lower ⟨scope, config.freshStem, sig.returnsUnit⟩ body hstart
  have hslot : some s ∈ b.graph.slots := by
    rw [Graph.node?, Option.join_eq_some_iff] at hn
    exact List.mem_of_getElem? hn
  have hterms := hrun.fit.nodes s hslot
  rw [ht] at hterms
  exact hterms t (List.mem_singleton.2 rfl) u hu

/-- The arena of `struct P { pair: &(i32, bool) }` and `&mut P`. -/
def borrowedPairs : Arena where
  forms := TypeForm.primitives ++
    [.struct "P" ⟨0⟩, .tuple [.i32, .bool], .reference ⟨20⟩ false, .reference ⟨19⟩ true]
  layouts := [(⟨19⟩, .struct [⟨"pair", ⟨21⟩⟩])]

/-- `{ for i in [p.pair.0, 2] { let r = &p.pair.1; } }` -/
def projections : Block :=
  let pair : Expr :=
    .field default (.path default ⟨default, false, false, [], ⟨"p", false⟩, "p"⟩) "pair"
  let items : Expr :=
    .array default [.tupleField default pair 0, .literal default (.int false 2 "")]
  let borrowed : Expr := .borrow default false (.tupleField default pair 1)
  .mk default [.expr (.forLoop default none (.binding default "i" false) items
    (.mk default [.bind default (.binding default "r" false) none (some borrowed) false])) false]

/-- The scope of methods of `P`. -/
def pairScope : Scope := ⟨⟨0⟩, some ⟨19⟩, [], true, "a.rs"⟩

/-- `fn f(p: &mut P)` -/
def pairSignature : Signature :=
  ⟨"f", ⟨0⟩, default, [⟨"p", ⟨22⟩, false, .binding ⟨"p", false⟩, default⟩], .unit, none⟩

theorem members_borrowedPairs (t : TypeId) (l : Layout) (h : borrowedPairs.layout? t = some l) :
    ∀ x ∈ l.types, borrowedPairs.Live x := by
  obtain ⟨before, after, hsplit, -⟩ := List.lookup_eq_some_iff.1 h
  have hmem : (t, l) ∈ borrowedPairs.layouts := hsplit ▸ List.mem_append_right _ List.mem_cons_self
  obtain ⟨rfl, rfl⟩ := Prod.mk.inj (List.mem_singleton.1 hmem)
  decide

/-- The items are an array of `i32`, and the projections are typed through both
references. -/
theorem lowerBody_typed_projections :
    borrowedPairs.Ordered ∧
    (∀ t l, borrowedPairs.layout? t = some l → ∀ x ∈ l.types, borrowedPairs.Live x) ∧
    pairScope.Within borrowedPairs ∧ (∀ p ∈ pairSignature.params, borrowedPairs.Live p.type) ∧
    ∃ (b : Body) (s : Statement) (t u v : Term),
      (lowerBody {} pairScope pairSignature projections borrowedPairs).2 = b ∧
      b.context.arena.form ⟨23⟩ = .array .i32 2 ∧
      b.graph.node? 0 = some s ∧ s.term? = some t ∧ u.Within t ∧ v.Within u ∧
      Typing pairScope b.context.arena u.form ⟨23⟩ ∧
      Typing pairScope b.context.arena v.form .i32 := by
  have hreached : Reached borrowedPairs :=
    Reached.empty.runAll (show runAll
      [.declareStruct "P" ⟨0⟩, .tuple [.i32, .bool], .reference ⟨20⟩ false, .reference ⟨19⟩ true,
        .defineStruct ⟨19⟩ [⟨"pair", ⟨21⟩⟩]] .empty = some borrowedPairs by decide)
  have ha := hreached.canonical.toOrdered
  have hself : pairScope.Within borrowedPairs := fun t ht => by cases ht; decide
  have hparams : ∀ p ∈ pairSignature.params, borrowedPairs.Live p.type := by decide
  have hform : (lowerBody {} pairScope pairSignature projections borrowedPairs).2.context.arena.form
      ⟨23⟩ = .array .i32 2 := by decide +kernel
  have hfound : (((lowerBody {} pairScope pairSignature projections borrowedPairs).2.graph.node? 0).bind
      fun s => s.term?.bind fun t => t.form.parts.head?.bind fun u =>
        u.form.parts.head?.map fun v => (u.type, v.type)) = some (⟨23⟩, .i32) := by decide +kernel
  have htyped := lowerBody_typed {} ha members_borrowedPairs hself hparams projections
  refine ⟨ha, members_borrowedPairs, hself, hparams, ?_⟩
  generalize (lowerBody {} pairScope pairSignature projections borrowedPairs).2 = b at *
  simp only [Option.bind_eq_some_iff, Option.map_eq_some_iff] at hfound
  obtain ⟨s, hs, t, ht, u, hu, v, hv, htypes⟩ := hfound
  obtain ⟨huType, hvType⟩ := Prod.mk.inj htypes
  have hut : u.Within t := .part (List.mem_of_mem_head? hu) (.self u)
  have hvu : v.Within u := .part (List.mem_of_mem_head? hv) (.self v)
  have harray := (htyped 0 s t u hs ht hut).2
  have hfirst := (htyped 0 s t v hs ht (hvu.trans hut)).2
  rw [huType] at harray
  rw [hvType] at hfirst
  exact ⟨b, s, t, u, v, rfl, hform, hs, ht, hut, hvu, harray, hfirst⟩

end Cfg

end RustFlow
