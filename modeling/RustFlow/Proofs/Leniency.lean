/-
# Strict and lenient resolution

A strict scope refuses a name that no struct or enum carries, and a lenient one takes it
for the unknown type.  Strictness is consulted at no other place.  `Relaxed` relates the
outcomes of a strict and of a lenient run from one state: they are the same, or the strict
run ended at a missing name; the lenient run never ends at one.

`Softens` says so of two computations from every state.  It is kept by each way in which
computations are put together, and thus holds of types (`softens_resolve`) and expressions
(`softens_lowerExpr`) by induction on the syntax, and of bodies as a sound judgement
(`sound_leniency`).
-/

import RustFlow.Lowering.Function
import RustFlow.Proofs.Attempt
import RustFlow.Proofs.Parametricity

namespace RustFlow

open Ast

/-- Whether an error is about a name that no type carries. -/
def Error.isUnresolved : Error → Bool
  | unresolvedType _ _ => true
  | _ => false

namespace Attempt

variable {σ τ α β : Type}

/-- An outcome other than a missing name. -/
def Resolved (out : Except Error α) : Prop := ∀ e, out = .error e → e.isUnresolved = false

theorem resolved_ok (a : α) : Resolved (.ok a : Except Error α) := fun _ h => by cases h

theorem resolved_error {e : Error} (h : e.isUnresolved = false) :
    Resolved (.error e : Except Error α) := fun _ he => by
  cases he
  exact h

/-- The outcomes of a strict and of a lenient run from one state. -/
inductive Relaxed : Except Error α × σ → Except Error α × σ → Prop where
  /-- No name was missing, so strictness made no difference. -/
  | same {out : Except Error α × σ} : Resolved out.1 → Relaxed out out
  /-- The strict run ended at a missing name. -/
  | missing {e : Error} {x : σ} {out : Except Error α × σ} : e.isUnresolved = true →
      Resolved out.1 → Relaxed (.error e, x) out

theorem Relaxed.resolved {out out' : Except Error α × σ} (h : Relaxed out out') : Resolved out'.1 := by
  cases h with
  | same h => exact h
  | missing _ h => exact h

/-- The second computation is the first one with lenient names. -/
def Softens (m m' : Attempt σ α) : Prop := ∀ x, Relaxed (m x) (m' x)

theorem softens_of_ok {m : Attempt σ α} (h : ∀ x, ∃ a, (m x).1 = .ok a) : Softens m m := by
  intro x
  obtain ⟨a, ha⟩ := h x
  exact .same (ha ▸ resolved_ok a)

theorem softens_pure (a : α) : Softens (pure a : Attempt σ α) (pure a) :=
  softens_of_ok fun _ => ⟨a, rfl⟩

theorem softens_get : Softens (get : Attempt σ σ) get := softens_of_ok fun x => ⟨x, rfl⟩

theorem softens_modify (f : σ → σ) : Softens (modify f : Attempt σ PUnit) (modify f) :=
  softens_of_ok fun _ => ⟨⟨⟩, rfl⟩

theorem softens_modifyGet (f : σ → α × σ) : Softens (modifyGet f : Attempt σ α) (modifyGet f) :=
  softens_of_ok fun x => ⟨(f x).1, rfl⟩

theorem softens_throw {e : Error} (h : e.isUnresolved = false) :
    Softens (throw e : Attempt σ α) (throw e) := fun _ => .same (resolved_error h)

/-- What follows matters for the values that the lenient run gives only. -/
theorem Softens.bindTo {m m' : Attempt σ α} {n n' : α → Attempt σ β} (hm : Softens m m')
    (hn : ∀ x a, (m' x).1 = .ok a → Softens (n a) (n' a)) : Softens (m >>= n) (m' >>= n') := by
  intro x
  have hx := hm x
  have hn := hn x
  rw [bind_run, bind_run]
  generalize m x = out at hx
  generalize m' x = out' at hx hn
  cases hx with
  | same h =>
    obtain ⟨e | a, y⟩ := out
    · exact .same (resolved_error (h e rfl))
    · exact hn a rfl y
  | missing he h =>
    -- the lenient run may still fail, but at something else
    obtain ⟨e' | a, y⟩ := out'
    · exact .missing he (resolved_error (h e' rfl))
    · exact .missing he (hn a rfl y).resolved

theorem Softens.bind {m m' : Attempt σ α} {n n' : α → Attempt σ β} (hm : Softens m m')
    (hn : ∀ a, Softens (n a) (n' a)) : Softens (m >>= n) (m' >>= n') := hm.bindTo fun _ a _ => hn a

theorem Softens.map {m m' : Attempt σ α} (hm : Softens m m') (f : α → β) :
    Softens (f <$> m) (f <$> m') := by
  rw [← bind_pure_comp, ← bind_pure_comp]
  exact hm.bind fun a => softens_pure (f a)

theorem Softens.zoom {m m' : Attempt τ α} (hm : Softens m m') (view : σ → τ) (put : τ → σ → σ) :
    Softens (m.zoom view put) (m'.zoom view put) := by
  intro x
  have hx := hm (view x)
  rw [zoom_run, zoom_run]
  generalize m (view x) = out at hx
  generalize m' (view x) = out' at hx
  cases hx with
  | same h => exact .same h
  | missing he h => exact .missing he h

theorem softens_ite {c : Prop} [Decidable c] {m m' n n' : Attempt σ α} (hm : Softens m m')
    (hn : Softens n n') : Softens (if c then m else n) (if c then m' else n') := by
  split
  · exact hm
  · exact hn

end Attempt

open Attempt

namespace Scope

/-- The scope with strict or lenient names. -/
def strictly (s : Scope) (b : Bool) : Scope := { s with strict := b }

variable {σ α : Type} (s : Scope) (b : Bool)

@[simp] theorem variantOf_strictly : (s.strictly b).variantOf = s.variantOf := rfl

@[simp] theorem structOf_strictly : (s.strictly b).structOf = s.structOf := rfl

@[simp] theorem applied_strictly : (s.strictly b).applied = s.applied := rfl

@[simp] theorem locate_strictly : (s.strictly b).locate = s.locate := rfl

@[simp] theorem refuse_strictly :
    ((s.strictly b).refuse : Construct → Position → Attempt σ α) = s.refuse := rfl

/-! ### Types -/

theorem softens_refuse (what : Construct) (pos : Position) :
    Softens (s.refuse what pos : Attempt σ α) (s.refuse what pos) := softens_throw rfl

/-- **A missing name is where strictness counts.** -/
theorem softens_resolvePath (p : Ast.Path) :
    Softens ((s.strictly true).resolvePath p) ((s.strictly false).resolvePath p) := by
  refine softens_get.bind fun a => ?_
  dsimp only
  cases (if p.isPlain then TypeId.primitive? p.last.name else none) with
  | some t => exact softens_pure t
  | none =>
    refine softens_ite (softens_pure _) (softens_ite (softens_pure _) ?_)
    simp only [strictly]
    cases a.findNamed p.last.name s.owner with
    | some t => exact softens_pure t
    | none => exact fun x => .missing rfl (resolved_ok _)

mutual

theorem softens_resolve : ∀ t : TypeExpr,
    Softens ((s.strictly true).resolve t) ((s.strictly false).resolve t)
  | .paren t => by
    exact softens_resolve t
  | .tuple ts => by
    exact (softens_resolveAll ts).bind fun _ => softens_modifyGet _
  | .array t length => by
    refine (softens_resolve t).bind fun e => ?_
    cases length with
    | some n => exact softens_modifyGet _
    | none => exact softens_pure _
  | .pointer mutable t => by
    exact (softens_resolve t).bind fun _ => softens_modifyGet _
  | .reference mutable t => by
    exact (softens_resolve t).bind fun _ => softens_modifyGet _
  | .path p => by
    simp only [resolve]
    split
    · exact softens_pure _
    · exact s.softens_resolvePath p
  | .bareBound _ | .other => by
    exact softens_pure _

theorem softens_resolveAll : ∀ ts : List TypeExpr,
    Softens ((s.strictly true).resolveAll ts) ((s.strictly false).resolveAll ts)
  | [] => by
    exact softens_pure _
  | t :: ts => by
    exact (softens_resolve t).bind fun _ => (softens_resolveAll ts).bind fun _ => softens_pure _

end

theorem softens_resolveResult (result : Option TypeAnn) :
    Softens ((s.strictly true).resolveResult result) ((s.strictly false).resolveResult result) := by
  cases result with
  | none => exact softens_pure _
  | some t => exact s.softens_resolve t.type

/-! ### Patterns -/

theorem softens_lowerLit (pos : Position) (lit : Lit) :
    Softens (s.lowerLit pos lit) (s.lowerLit pos lit) := by
  cases lit with
  | int negative n suffix =>
    simp only [lowerLit]
    split
    · exact s.softens_refuse _ _
    · exact softens_pure _
  | str text => exact ((softens_modifyGet _).zoom _ _).bind fun _ => softens_pure _
  | bytes => exact s.softens_refuse _ _
  | _ => exact softens_pure _

theorem softens_lowerPath (p : Ast.Path) (pos : Position) :
    Softens (s.lowerPath p pos) (s.lowerPath p pos) := by
  unfold lowerPath
  split
  · exact s.softens_refuse _ _
  · exact softens_get.bind fun _ => softens_pure _

theorem softens_lowerBound (bound : Option Ast.Bound) :
    Softens (s.lowerBound bound) (s.lowerBound bound) := by
  rcases bound with _ | (⟨pos, lit⟩ | p | pos)
  · exact softens_pure _
  · exact (s.softens_lowerLit pos lit).map _
  · exact (s.softens_lowerPath p _).map _
  · exact s.softens_refuse _ _

mutual

theorem softens_lowerPat : ∀ p : Pat,
    Softens ((s.strictly true).lowerPat p) ((s.strictly false).lowerPat p)
  | .reference _ mutable p => by
    exact (softens_lowerPat p).bind fun _ => softens_pure _
  | .struct pos p fields rest => by
    simp only [lowerPat, refuse_strictly, variantOf_strictly, structOf_strictly]
    split
    · exact s.softens_refuse _ _
    · exact softens_get.bind fun _ => (softens_lowerFieldPats fields).bind fun _ => softens_pure _
  | .tupleStruct pos p ps => by
    simp only [lowerPat, refuse_strictly]
    split
    · exact s.softens_refuse _ _
    · exact (softens_lowerPats ps).bind fun _ => softens_pure _
  | .tuple _ ps => by
    exact (softens_lowerPats ps).bind fun _ => softens_pure _
  | .literal pos lit => by
    exact (s.softens_lowerLit pos lit).bind fun _ => softens_pure _
  | .range _ start stop inclusive => by
    exact (s.softens_lowerBound start).bind fun _ =>
      (s.softens_lowerBound stop).bind fun _ => softens_pure _
  | .alternatives _ ps => by
    exact (softens_lowerPats ps).bind fun _ => softens_pure _
  | .paren _ p => by
    exact softens_lowerPat p
  | .other pos what => by
    exact s.softens_refuse what pos
  | .binding .. | .path .. | .rest _ | .wild _ => by
    exact softens_pure _

theorem softens_lowerPats : ∀ ps : List Pat,
    Softens ((s.strictly true).lowerPats ps) ((s.strictly false).lowerPats ps)
  | [] => by
    exact softens_pure _
  | p :: ps => by
    exact (softens_lowerPat p).bind fun _ => (softens_lowerPats ps).bind fun _ => softens_pure _

theorem softens_lowerFieldPats : ∀ fs : List FieldPat,
    Softens ((s.strictly true).lowerFieldPats fs) ((s.strictly false).lowerFieldPats fs)
  | [] => by
    exact softens_pure _
  | .mk name p :: fs => by
    exact (softens_lowerPat p).bind fun _ => (softens_lowerFieldPats fs).bind fun _ => softens_pure _

end

/-! ### Expressions -/

theorem softens_onArena {m m' : Attempt Arena α} (h : Softens m m') :
    Softens (Context.onArena m) (Context.onArena m') := h.zoom _ _

/-- **A missing struct is where strictness counts.** -/
theorem relaxed_structTerm (a : Arena) (p : Ast.Path) (supplied : List (String × Term))
    (pos : Position) (x : σ) :
    Relaxed ((s.strictly true).structTerm a p supplied pos, x)
      ((s.strictly false).structTerm a p supplied pos, x) := by
  have hpack (owner : String) (fields : List Field) (next : List Term → Term) :
      Resolved (do
        let values ← (packFields owner (fields.map Field.name) supplied).mapError
          (Error.unsupported · (s.locate pos))
        return next values) := by
    cases packFields owner (fields.map Field.name) supplied with
    | ok values => exact resolved_ok _
    | error what => exact resolved_error rfl
  simp only [structTerm, variantOf_strictly, structOf_strictly, locate_strictly]
  cases s.variantOf a p with
  | some v =>
    dsimp only
    cases v.variant.shape with
    | struct fields => exact .same (hpack _ fields _)
    | _ => exact .same (resolved_error rfl)
  | none =>
    cases s.structOf a p with
    | some t => exact .same (hpack _ _ _)
    | none => exact .missing rfl (resolved_ok _)

theorem softens_structTerm (a : Arena) (p : Ast.Path) (supplied : List (String × Term))
    (pos : Position) :
    Softens
      (match (s.strictly true).structTerm a p supplied pos with
        | .ok t => pure t
        | .error e => throw e : Attempt Context Term)
      (match (s.strictly false).structTerm a p supplied pos with
        | .ok t => pure t
        | .error e => throw e) := by
  have hrun (out : Except Error Term) (x : Context) :
      (match out with | .ok t => pure t | .error e => throw e : Attempt Context Term) x = (out, x) := by
    cases out <;> rfl
  intro x
  rw [hrun, hrun]
  exact s.relaxed_structTerm a p supplied pos x

mutual

/-- **Expressions.** -/
theorem softens_lowerExpr : ∀ e : Expr,
    Softens ((s.strictly true).lowerExpr e) ((s.strictly false).lowerExpr e)
  | .literal pos lit => by
    exact s.softens_lowerLit pos lit
  | .path pos p => by
    exact s.softens_lowerPath p pos
  | .binary pos op l r | .compound pos op l r | .assign pos l r => by
    exact (softens_lowerExpr l).bind fun _ => (softens_lowerExpr r).bind fun _ => softens_pure _
  | .unary pos op e | .tupleField pos e _ | .field pos e _ => by
    exact (softens_lowerExpr e).bind fun _ => softens_get.bind fun _ => softens_pure _
  | .borrow pos mutable e => by
    exact (softens_lowerExpr e).bind fun _ =>
      (softens_onArena (softens_modifyGet _)).bind fun _ => softens_pure _
  | .cast pos e target => by
    exact (softens_lowerExpr e).bind fun _ => (softens_onArena (s.softens_resolve target.type)).bind
      fun _ => softens_get.bind fun _ => softens_pure _
  | .range pos start stop inclusive => by
    exact (softens_lowerOption start).bind fun _ =>
      (softens_lowerOption stop).bind fun _ => softens_pure _
  | .test pos p e => by
    exact (softens_lowerExpr e).bind fun _ => (s.softens_lowerPat p).bind fun _ =>
      (softens_modify _).bind fun _ => softens_pure _
  | .index pos l r => by
    exact (softens_lowerExpr l).bind fun _ => (softens_lowerExpr r).bind fun _ =>
      softens_get.bind fun _ => softens_pure _
  | .methodCall pos receiver method args => by
    exact (softens_lowerExpr receiver).bind fun _ =>
      (softens_lowerAll args).bind fun _ => softens_pure _
  | .call pos callee args => by
    cases callee with
    | path _ p =>
      simp only [lowerExpr, refuse_strictly, applied_strictly]
      split
      · exact s.softens_refuse _ _
      · exact (softens_lowerAll args).bind fun _ => softens_get.bind fun _ => softens_pure _
    | _ =>
      exact s.softens_refuse _ _
  | .structLit pos p fields rest => by
    simp only [lowerExpr, refuse_strictly]
    split
    · exact s.softens_refuse _ _
    · split
      · exact s.softens_refuse _ _
      · exact (softens_lowerInits fields).bind fun supplied => softens_get.bind fun c =>
          s.softens_structTerm c.arena p supplied pos
  | .tuple pos es => by
    simp only [lowerExpr]
    split
    · exact softens_pure _
    · exact (softens_lowerAll es).bind fun _ =>
        (softens_onArena (softens_modifyGet _)).bind fun _ => softens_pure _
  | .array pos es => by
    exact (softens_lowerAll es).bind fun _ =>
      (softens_onArena (softens_modifyGet _)).bind fun _ => softens_pure _
  | .arrayRepeat pos e length => by
    cases length with
    | none =>
      exact s.softens_refuse _ _
    | some n =>
      exact (softens_lowerExpr e).bind fun _ =>
        (softens_onArena (softens_modifyGet _)).bind fun _ => softens_pure _
  | .paren _ e => by
    exact softens_lowerExpr e
  | .macroCall pos p tokens _ => by
    exact softens_pure _
  | .block .. | .unsafeBlock .. | .branch .. | .matchOn .. | .whileLoop .. | .loop .. | .forLoop ..
  | .ret .. | .leave .. | .next .. | .other .. | .verbatim .. => by
    exact s.softens_refuse _ _

theorem softens_lowerOption : ∀ o : Option Expr,
    Softens ((s.strictly true).lowerOption o) ((s.strictly false).lowerOption o)
  | none => by
    exact softens_pure _
  | some e => by
    exact (softens_lowerExpr e).map _

theorem softens_lowerAll : ∀ es : List Expr,
    Softens ((s.strictly true).lowerAll es) ((s.strictly false).lowerAll es)
  | [] => by
    exact softens_pure _
  | e :: es => by
    exact (softens_lowerExpr e).bind fun _ => (softens_lowerAll es).bind fun _ => softens_pure _

theorem softens_lowerInits : ∀ fs : List FieldInit,
    Softens ((s.strictly true).lowerInits fs) ((s.strictly false).lowerInits fs)
  | [] => by
    exact softens_pure _
  | .mk name e :: fs => by
    exact (softens_lowerExpr e).bind fun _ => (softens_lowerInits fs).bind fun _ => softens_pure _

end

end Scope

/-- The setting with strict or lenient names. -/
def Setting.strictly (set : Setting) (b : Bool) : Setting := { set with scope := set.scope.strictly b }

namespace Body

variable {α : Type} (set : Setting)

/-! ### Fragments -/

theorem softens_onContext {m m' : Attempt Context α} (h : Softens m m') :
    Softens (onContext m) (onContext m') := h.zoom _ _

theorem softens_inLoop (label : Option String) {body body' : Attempt Body Fragment}
    (hbody : Softens body body') : Softens (inLoop label body) (inLoop label body') := by
  intro b
  have hrun := hbody { b with loops := .ofLabel label :: b.loops }
  have hmap {out : Except Error Fragment} (h : Resolved out) (frame : LoopFrame) :
      Resolved (out.map fun fragment => (fragment, frame)) := by
    cases out with
    | error e => exact resolved_error (h e rfl)
    | ok fragment => exact resolved_ok _
  unfold inLoop
  generalize body { b with loops := .ofLabel label :: b.loops } = out at hrun
  generalize body' { b with loops := .ofLabel label :: b.loops } = out' at hrun
  cases hrun with
  | same h => exact .same (hmap h _)
  | missing he h => exact .missing he (hmap h _)

theorem softens_jump (scope : Scope) (kind : Jump) (label : Option String) (pos : Position) :
    Softens (jump scope kind label pos) (jump scope kind label pos) := by
  refine softens_get.bind fun b => ?_
  cases targetLoop b.loops label with
  | none => exact softens_throw rfl
  | some i => exact (softens_modifyGet _).bind fun _ => (softens_modify _).bind fun _ => softens_pure _

theorem softens_armTest (scrutinee : Term) (pat : Pat) (guard : Option Expr) :
    Softens (armTest (set.strictly true) scrutinee pat guard)
      (armTest (set.strictly false) scrutinee pat guard) := by
  refine (set.scope.softens_lowerPat pat).bind fun p => (softens_modify _).bind fun _ => ?_
  cases guard with
  | none => exact softens_pure _
  | some e => exact (set.scope.softens_lowerExpr e).bind fun _ => softens_pure _

theorem softens_resolveAscription (ascription : Option TypeAnn) :
    Softens (resolveAscription (set.strictly true) ascription)
      (resolveAscription (set.strictly false) ascription) := by
  cases ascription with
  | none => exact softens_pure _
  | some t => exact (Scope.softens_onArena (set.scope.softens_resolve t.type)).map _

/-! ### Every construct -/

/-- A lenient setting softens a strict one. -/
def leniency (set : Setting) : Judgement where
  left := set.strictly true
  right := set.strictly false
  World := Unit
  Later _ _ := True
  At _ b b' := b' = b
  Holds w V m m' := Softens m m' ∧ ∀ x v, (m' x).1 = .ok v → V w v v
  Types _ := Eq
  Terms _ := Eq
  Patterns _ := Eq
  Ascribed _ text o text' o' := text = text' ∧ o = o'
  Source _ _ := True
  Target _ _ := True
  Returns := True

theorem leniency_bind {β : Type} {w : Unit} {V : Unit → α → α → Prop} {W : Unit → β → β → Prop}
    {m m' : Attempt Body α} {f f' : α → Attempt Body β} (h : (leniency set).Holds w V m m')
    (hf : ∀ x v v', (leniency set).Later w x → V x v v' → (leniency set).Holds x W (f v) (f' v')) :
    (leniency set).Holds w W (m >>= f) (m' >>= f') := by
  refine ⟨h.1.bindTo fun x a ha => (hf w a a trivial (h.2 x a ha)).1, fun x v hv => ?_⟩
  have ha := h.2 x
  rw [bind_run] at hv
  generalize m' x = out at hv ha
  obtain ⟨e | a, y⟩ := out
  · cases hv
  · exact (hf w a a trivial (ha a rfl)).2 y v hv

theorem sound_leniency (set : Setting) : (leniency set).Sound where
  trans _ _ := trivial
  types_later _ h := h
  terms_later _ h := h
  patterns_later _ h := h
  ascribed_later _ h := h
  source_later _ h := h
  target_later _ h := h
  target h := h
  returnsUnit := rfl
  returns _ := trivial
  incoming n h := by rw [show _ = _ from h]
  unknown _ := rfl
  type h := congrArg Term.type h
  ascription ho ht := congrArg₂ Option.getD ho.2 ht
  unascribed _ := ⟨rfl, rfl⟩
  binding _ _ := rfl
  shape h v := by rw [show _ = _ from h]
  var v pos h := congrArg (Term.mk (.var v) · pos) h
  assign h h' := congrArg₂ (fun t u => Term.mk (.assign t u) .unit u.pos) h h'
  declare {w p q text o text' o' v v'} pos hp ho hv := by
    obtain rfl : p = q := hp
    obtain ⟨rfl, rfl⟩ := ho
    cases hv with
    | none => exact rfl
    | some hv =>
      obtain rfl := (show _ = _ from hv)
      exact rfl
  nextStep {w b b' p q} iterator pos h hp := by
    obtain rfl : b' = b := h
    exact congrArg (Body.nextStep b'.context iterator · pos) hp
  stepGuard pos hp := congrArg (fun p => Term.binary .ne (.ofPattern p pos) _ pos) hp
  pure h := ⟨softens_pure _, fun _ _ hv => by cases hv; exact h⟩
  bind := leniency_bind set
  get {α w V f f'} h := by
    refine ⟨softens_get.bind fun b => (h w b b trivial rfl).1, fun x v hv => ?_⟩
    exact (h w x x trivial rfl).2 x v hv
  refuse what pos := ⟨set.scope.softens_refuse what pos, fun _ _ h => by cases h⟩
  lowerExpr e := ⟨softens_onContext (set.scope.softens_lowerExpr e), fun _ _ _ => rfl⟩
  lowerPat p := ⟨softens_onContext (set.scope.softens_lowerPat p), fun _ _ _ => rfl⟩
  armTest {w t t'} pat guard h := by
    obtain rfl : t = t' := h
    exact ⟨softens_onContext (softens_armTest set t pat guard), fun _ _ _ => ⟨rfl, rfl⟩⟩
  letHead {α w V} pat ascription f f' h := by
    refine leniency_bind set (V := fun _ => Eq)
      ⟨softens_onContext (softens_resolveAscription set ascription), fun _ _ _ => rfl⟩ ?_
    rintro _ o _ - rfl
    refine leniency_bind set (V := fun _ => Eq)
      ⟨softens_onContext (set.scope.softens_lowerPat pat), fun _ _ _ => rfl⟩ ?_
    rintro _ p _ - rfl
    have hnext (b : Body) := h w b b o o p p trivial rfl rfl ⟨rfl, rfl⟩
    exact ⟨softens_get.bind fun b => (hnext b).1, fun b => (hnext b).2 b⟩
  bindVariable {w s t} v h := by
    obtain rfl : s = t := h
    exact ⟨softens_onContext (softens_modify _), fun _ _ _ => trivial⟩
  bindPattern {w p q s t} hp h := by
    obtain rfl : p = q := hp
    obtain rfl : s = t := h
    exact ⟨softens_onContext (softens_modify _), fun _ _ _ => trivial⟩
  freshName := ⟨softens_modifyGet _, fun _ _ _ => rfl⟩
  add {w s s'} h := by
    have hs : s = s' := by
      cases h with
      | ofTerm h => exact congrArg Statement.ofTerm h
      | noOp pos => rfl
      | written pos ho =>
        cases ho with
        | none => rfl
        | some h => exact congrArg (fun t => Statement.mk (.writtenReturn (some t)) pos) h
    obtain rfl := hs
    exact ⟨softens_modifyGet _, fun _ _ _ => ⟨rfl, trivial⟩⟩
  addValue {w t t'} _ h := by
    obtain rfl : t = t' := h
    exact ⟨softens_modifyGet _, fun _ _ _ => ⟨rfl, trivial⟩⟩
  edge kind _ _ := ⟨softens_modify _, fun _ _ _ => trivial⟩
  inLoop label body body' hbody := ⟨softens_inLoop label (hbody ()).1, fun _ _ _ =>
    ⟨⟨rfl, trivial, fun _ _ => trivial⟩, rfl, fun _ _ => trivial⟩⟩
  jump kind label pos := ⟨softens_jump set.scope kind label pos, fun _ _ _ =>
    ⟨rfl, trivial, fun _ _ => trivial⟩⟩

/-- **Bodies.** -/
theorem softens_lower (body : Block) :
    Softens (lower (set.strictly true) body) (lower (set.strictly false) body) :=
  ((sound_leniency set).lower (w := ()) body).1

end Body

/-! ### Functions -/

namespace Cfg

variable {α β : Type}

theorem resolved_bind {out : Except Error α} {next : α → Except Error β} (h : Resolved out)
    (hnext : ∀ a, Resolved (next a)) : Resolved (out >>= next) := by
  cases out with
  | error e => exact resolved_error (h e rfl)
  | ok a => exact hnext a

theorem resolved_foldlM {f : β → α → Except Error β} (hf : ∀ b a, Resolved (f b a)) (xs : List α)
    (b : β) : Resolved (xs.foldlM f b) := by
  induction xs generalizing b with
  | nil => exact resolved_ok b
  | cons x xs ih => exact resolved_bind (hf b x) ih

theorem resolved_closeValueReturn (sig : Signature) (g : Graph) (n : NodeId) :
    Resolved (closeValueReturn sig g n) := by
  unfold closeValueReturn
  split
  · exact resolved_ok _
  · exact resolved_error rfl
  · exact resolved_ok _

theorem resolved_closeExit (sig : Signature) (g : Graph) (n : NodeId) :
    Resolved (closeExit sig g n) := by
  unfold closeExit
  split
  · exact resolved_ok _
  · exact resolved_error rfl
  · exact resolved_ok _

/-- Closing looks up no names: it fails for want of a value only. -/
theorem resolved_close (config : Config) (sig : Signature) (g : Graph) :
    Resolved (close config sig g) := by
  refine resolved_bind ?_ fun _ => resolved_ok _
  unfold closeExits
  split
  · exact resolved_ok _
  · exact resolved_bind (resolved_foldlM (resolved_closeValueReturn sig) _ _) fun _ =>
      resolved_foldlM (resolved_closeExit sig) _ _

theorem softens_ofBody (config : Config) (scope : Scope) (sig : Signature) (body : Block)
    (b b' : Bool) :
    Softens (ofBody { config with strictTypes := b } (scope.strictly true) sig body)
      (ofBody { config with strictTypes := b' } (scope.strictly false) sig body) := by
  intro arena
  have hlower := Body.softens_lower ⟨scope, config.freshStem, sig.returnsUnit⟩ body
    (.start (sig.context arena))
  have hclosed {out : Except Error Fragment} (h : Resolved out) (g : Graph) (c : Bool) :
      Resolved (do
        let fragment ← out
        let graph ← close { config with strictTypes := c } sig (g.addEntry fragment.entry)
        return (⟨sig, graph⟩ : Cfg)) :=
    resolved_bind h fun _ => resolved_bind (resolved_close _ _ _) fun _ => resolved_ok _
  unfold ofBody lowerBody
  dsimp only [Setting.strictly] at hlower ⊢
  generalize Body.lower ⟨scope.strictly true, _, _⟩ body _ = out at hlower
  generalize Body.lower ⟨scope.strictly false, _, _⟩ body _ = out' at hlower
  cases hlower with
  | same h => exact .same (hclosed h _ b)
  | missing he h => exact .missing he (hclosed h _ b')

end Cfg

namespace Scope

variable (s : Scope)

theorem softens_lowerParam (p : Ast.Param) :
    Softens ((s.strictly true).lowerParam p) ((s.strictly false).lowerParam p) := by
  cases p with
  | receiver pos byRef mutable => exact softens_pure _
  | typed pos pat type =>
    exact (s.softens_resolve type.type).bind fun _ =>
      ((s.softens_lowerPat pat).zoom _ _).bind fun _ => softens_pure _

theorem softens_lowerParams (ps : List Ast.Param) :
    Softens ((s.strictly true).lowerParams ps) ((s.strictly false).lowerParams ps) := by
  induction ps with
  | nil => exact softens_pure _
  | cons p ps ih =>
    exact (s.softens_lowerParam p).bind fun _ => ih.bind fun _ => softens_pure _

theorem softens_lowerSignature (unit : UnitId) (fn : FnDecl) :
    Softens ((s.strictly true).lowerSignature unit fn) ((s.strictly false).lowerSignature unit fn) :=
  (s.softens_lowerParams fn.params).bind fun _ =>
    (s.softens_resolveResult fn.result).bind fun _ => softens_pure _

/-- **Functions.** -/
theorem softens_lowerFunction (config : Config) (b b' : Bool) (unit : UnitId) (fn : FnDecl) :
    Softens ((s.strictly true).lowerFunction { config with strictTypes := b } unit fn)
      ((s.strictly false).lowerFunction { config with strictTypes := b' } unit fn) :=
  softens_ite (s.softens_refuse _ _) (softens_ite (s.softens_refuse _ _)
    ((s.softens_lowerSignature unit fn).bind fun sig =>
      Cfg.softens_ofBody config s sig fn.body b b'))

end Scope

end RustFlow
