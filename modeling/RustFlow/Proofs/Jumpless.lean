/-
# Terms have no jumps

An expression becomes a term only if no `break` or `continue` is anywhere inside it; what is
wrong with an expression is never reported as a jump without a loop.  `Attempt.Jumpless`
is both at once, so one induction over the syntax gives them together
(`Scope.jumpless_lowerExpr`).
-/

import RustFlow.Proofs.Attempt
import RustFlow.Proofs.Layout

namespace RustFlow

open Ast

/-- Whether an error is about a jump. -/
def Error.isJump : Error → Bool
  | strayJump _ _ => true
  | _ => false

namespace Attempt

variable {σ τ α β : Type} {js js' : List JumpSite}

/-- A computation on syntax with the given jumps: it succeeds only if there are none, and
never fails with an error about a jump. -/
def Jumpless (js : List JumpSite) (m : Attempt σ α) : Prop :=
  ∀ s, match (m s).1 with
    | .ok _ => js = []
    | .error e => e.isJump = false

theorem Jumpless.eq_nil {m : Attempt σ α} (h : Jumpless js m) {s s' : σ} {a : α}
    (hrun : m s = (.ok a, s')) : js = [] := by
  have hs := h s
  rwa [hrun] at hs

theorem Jumpless.isJump {m : Attempt σ α} (h : Jumpless js m) {s s' : σ} {e : Error}
    (hrun : m s = (.error e, s')) : e.isJump = false := by
  have hs := h s
  rwa [hrun] at hs

theorem Jumpless.bind {m : Attempt σ α} {f : α → Attempt σ β} (hm : Jumpless js m)
    (hf : ∀ a, Jumpless js' (f a)) : Jumpless (js ++ js') (m >>= f) := by
  intro s
  have hs := hm s
  rw [bind_run]
  generalize m s = out at hs
  obtain ⟨e | a, s'⟩ := out
  · exact hs
  · have hs' := hf a s'
    dsimp only at hs ⊢
    generalize f a s' = out at hs'
    obtain ⟨e | r, s''⟩ := out
    · exact hs'
    · exact List.append_eq_nil_iff.2 ⟨hs, hs'⟩

theorem Jumpless.andThen {m : Attempt σ α} {f : α → Attempt σ β} (hm : Jumpless js m)
    (hf : ∀ a, Jumpless [] (f a)) : Jumpless js (m >>= f) :=
  List.append_nil js ▸ hm.bind hf

theorem Jumpless.map {m : Attempt σ α} (hm : Jumpless js m) (f : α → β) :
    Jumpless js (f <$> m) := by
  intro s
  have hs := hm s
  rw [map_run]
  generalize m s = out at hs
  obtain ⟨e | a, s'⟩ := out <;> exact hs

theorem Jumpless.zoom {m : Attempt τ α} (hm : Jumpless js m) (view : σ → τ) (put : τ → σ → σ) :
    Jumpless js (m.zoom view put) := fun s => hm (view s)

theorem jumpless_throw {e : Error} (h : e.isJump = false) : Jumpless js (throw e : Attempt σ α) :=
  fun _ => h

theorem jumpless_pure (a : α) : Jumpless [] (pure a : Attempt σ α) := fun _ => rfl

theorem jumpless_get : Jumpless [] (get : Attempt σ σ) := fun _ => rfl

theorem jumpless_modify (f : σ → σ) : Jumpless [] (modify f : Attempt σ PUnit) := fun _ => rfl

theorem jumpless_modifyGet (f : σ → α × σ) : Jumpless [] (modifyGet f : Attempt σ α) := fun _ => rfl

end Attempt

namespace Scope

open Attempt

variable (s : Scope) {σ α : Type}

theorem jumpless_refuse (js : List JumpSite) (what : Construct) (pos : Position) :
    Jumpless js (s.refuse what pos : Attempt σ α) := jumpless_throw rfl

/-! ### Types -/

theorem jumpless_resolvePath (p : Ast.Path) : Jumpless [] (s.resolvePath p) := by
  unfold resolvePath
  refine jumpless_get.bind fun a => ?_
  dsimp only
  repeat' split
  all_goals first | exact jumpless_pure _ | exact jumpless_throw rfl

mutual

theorem jumpless_resolve : ∀ t : TypeExpr, Jumpless [] (s.resolve t)
  | .paren t => by
    exact jumpless_resolve t
  | .tuple ts => by
    exact (jumpless_resolveAll ts).bind fun _ => jumpless_modifyGet _
  | .array t length => by
    refine (jumpless_resolve t).bind fun _ => ?_
    cases length with
    | some n => exact jumpless_modifyGet _
    | none => exact jumpless_pure _
  | .pointer _ t | .reference _ t => by
    exact (jumpless_resolve t).bind fun _ => jumpless_modifyGet _
  | .path p => by
    simp only [resolve]
    split
    · exact jumpless_pure _
    · exact s.jumpless_resolvePath p
  | .bareBound _ | .other => by
    exact jumpless_pure _

theorem jumpless_resolveAll : ∀ ts : List TypeExpr, Jumpless [] (s.resolveAll ts)
  | [] => by
    exact jumpless_pure _
  | t :: ts => by
    exact (jumpless_resolve t).bind fun _ => (jumpless_resolveAll ts).bind fun _ => jumpless_pure _

end

/-! ### Patterns -/

theorem jumpless_lowerLit (pos : Position) (lit : Lit) : Jumpless [] (s.lowerLit pos lit) := by
  cases lit with
  | int negative n suffix =>
    simp only [lowerLit]
    split
    · exact s.jumpless_refuse _ _ _
    · exact jumpless_pure _
  | str text => exact ((jumpless_modifyGet _).zoom _ _).bind fun _ => jumpless_pure _
  | bytes => exact s.jumpless_refuse _ _ _
  | _ => exact jumpless_pure _

theorem jumpless_lowerPath (p : Ast.Path) (pos : Position) : Jumpless [] (s.lowerPath p pos) := by
  unfold lowerPath
  split
  · exact s.jumpless_refuse _ _ _
  · exact jumpless_get.bind fun _ => jumpless_pure _

theorem jumpless_lowerBound (bound : Option Ast.Bound) : Jumpless [] (s.lowerBound bound) := by
  rcases bound with _ | ⟨pos, lit⟩ | p | pos
  · exact jumpless_pure _
  · exact (s.jumpless_lowerLit pos lit).map _
  · exact (s.jumpless_lowerPath p p.pos).map _
  · exact s.jumpless_refuse _ _ _

mutual

theorem jumpless_lowerPat : ∀ p : Pat, Jumpless [] (s.lowerPat p)
  | .binding .. | .path .. | .rest _ | .wild _ => by
    exact jumpless_pure _
  | .reference _ _ p => by
    exact (jumpless_lowerPat p).bind fun _ => jumpless_pure _
  | .struct pos p fields rest => by
    simp only [lowerPat]
    split
    · exact s.jumpless_refuse _ _ _
    · refine jumpless_get.bind fun _ => ?_
      exact (jumpless_lowerFieldPats fields).bind fun _ => jumpless_pure _
  | .tupleStruct pos p ps => by
    simp only [lowerPat]
    split
    · exact s.jumpless_refuse _ _ _
    · exact (jumpless_lowerPats ps).bind fun _ => jumpless_pure _
  | .tuple _ ps | .alternatives _ ps => by
    exact (jumpless_lowerPats ps).bind fun _ => jumpless_pure _
  | .literal pos lit => by
    exact (s.jumpless_lowerLit pos lit).bind fun _ => jumpless_pure _
  | .range _ start stop _ => by
    exact (s.jumpless_lowerBound start).bind fun _ =>
      (s.jumpless_lowerBound stop).bind fun _ => jumpless_pure _
  | .paren _ p => by
    exact jumpless_lowerPat p
  | .other pos what => by
    exact s.jumpless_refuse _ _ _

theorem jumpless_lowerPats : ∀ ps : List Pat, Jumpless [] (s.lowerPats ps)
  | [] => by
    exact jumpless_pure _
  | p :: ps => by
    exact (jumpless_lowerPat p).bind fun _ => (jumpless_lowerPats ps).bind fun _ => jumpless_pure _

theorem jumpless_lowerFieldPats : ∀ fs : List FieldPat, Jumpless [] (s.lowerFieldPats fs)
  | [] => by
    exact jumpless_pure _
  | .mk _ p :: fs => by
    exact (jumpless_lowerPat p).bind fun _ =>
      (jumpless_lowerFieldPats fs).bind fun _ => jumpless_pure _

end

/-! ### Expressions -/

theorem jumpless_structTerm (a : Arena) (p : Ast.Path) (supplied : List (String × Term))
    (pos : Position) :
    Jumpless [] (match s.structTerm a p supplied pos with
      | .ok t => pure t
      | .error e => throw e : Attempt Context Term) := by
  have hpack (owner : String) (fields : List Field) (next : List Term → Term) (e : Error)
      (h : (do
        let values ← (packFields owner (fields.map Field.name) supplied).mapError
          (Error.unsupported · (s.locate pos))
        return next values : Except Error Term) = .error e) : e.isJump = false := by
    cases hp : packFields owner (fields.map Field.name) supplied with
    | ok values =>
      rw [hp] at h
      cases h
    | error what =>
      rw [hp] at h
      cases h
      rfl
  cases h : s.structTerm a p supplied pos with
  | ok t => exact jumpless_pure t
  | error e =>
    refine jumpless_throw ?_
    simp only [structTerm] at h
    split at h
    · split at h
      · exact hpack _ _ _ e h
      · cases h
        rfl
    · split at h
      · exact hpack _ _ _ e h
      · split at h
        · cases h
          rfl
        · cases h

mutual

/-- **An expression that becomes a term has no jump in it,** and one that does not is not
refused for a jump without a loop. -/
theorem jumpless_lowerExpr (loops : List (Option String)) : ∀ e : Expr,
    Jumpless (e.jumps loops) (s.lowerExpr e)
  | .literal pos lit => by
    exact s.jumpless_lowerLit pos lit
  | .path pos p => by
    exact s.jumpless_lowerPath p pos
  | .binary pos op l r | .compound pos op l r | .assign pos l r => by
    exact (jumpless_lowerExpr loops l).bind fun _ =>
      (jumpless_lowerExpr loops r).andThen fun _ => jumpless_pure _
  | .unary pos op e | .tupleField pos e _ | .field pos e _ => by
    exact (jumpless_lowerExpr loops e).andThen fun _ => jumpless_get.bind fun _ => jumpless_pure _
  | .borrow pos mutable e => by
    exact (jumpless_lowerExpr loops e).andThen fun _ =>
      ((jumpless_modifyGet _).zoom _ _).bind fun _ => jumpless_pure _
  | .cast pos e target => by
    exact (jumpless_lowerExpr loops e).andThen fun _ =>
      ((s.jumpless_resolve target.type).zoom _ _).bind fun _ =>
        jumpless_get.bind fun _ => jumpless_pure _
  | .range pos start stop inclusive => by
    exact (jumpless_lowerOption loops start).bind fun _ =>
      (jumpless_lowerOption loops stop).andThen fun _ => jumpless_pure _
  | .test pos p e => by
    exact (jumpless_lowerExpr loops e).andThen fun _ => (s.jumpless_lowerPat p).bind fun _ =>
      (jumpless_modify _).bind fun _ => jumpless_pure _
  | .index pos l r => by
    exact (jumpless_lowerExpr loops l).bind fun _ => (jumpless_lowerExpr loops r).andThen fun _ =>
      jumpless_get.bind fun _ => jumpless_pure _
  | .methodCall pos receiver method args => by
    exact (jumpless_lowerExpr loops receiver).bind fun _ =>
      (jumpless_lowerAll loops args).andThen fun _ => jumpless_pure _
  | .call pos callee args => by
    cases callee with
    | path _ p =>
      simp only [lowerExpr, Expr.jumps]
      split
      · exact s.jumpless_refuse _ _ _
      · refine (jumpless_lowerAll loops args).andThen fun _ => ?_
        exact jumpless_get.bind fun _ => jumpless_pure _
    | _ =>
      exact s.jumpless_refuse _ _ _
  | .structLit pos p fields rest => by
    simp only [lowerExpr, Expr.jumps]
    split
    · exact s.jumpless_refuse _ _ _
    · split
      · exact s.jumpless_refuse _ _ _
      · exact (jumpless_lowerInits loops fields).andThen fun supplied => jumpless_get.bind fun c =>
          s.jumpless_structTerm c.arena p supplied pos
  | .tuple pos es => by
    simp only [lowerExpr, Expr.jumps]
    split
    · rename_i hes
      rw [List.isEmpty_iff.1 hes, Ast.jumpsAll]
      exact jumpless_pure _
    · exact (jumpless_lowerAll loops es).andThen fun _ =>
        ((jumpless_modifyGet _).zoom _ _).bind fun _ => jumpless_pure _
  | .array pos es => by
    exact (jumpless_lowerAll loops es).andThen fun _ =>
      ((jumpless_modifyGet _).zoom _ _).bind fun _ => jumpless_pure _
  | .arrayRepeat pos e length => by
    cases length with
    | none =>
      exact s.jumpless_refuse _ _ _
    | some n =>
      exact (jumpless_lowerExpr loops e).andThen fun _ =>
        ((jumpless_modifyGet _).zoom _ _).bind fun _ => jumpless_pure _
  | .paren _ e => by
    exact jumpless_lowerExpr loops e
  | .macroCall pos p tokens _ => by
    exact jumpless_pure _
  | .block .. | .unsafeBlock .. | .branch .. | .matchOn .. | .whileLoop .. | .loop .. | .forLoop ..
  | .ret .. | .leave .. | .next .. | .other .. | .verbatim .. => by
    exact s.jumpless_refuse _ _ _

theorem jumpless_lowerOption (loops : List (Option String)) : ∀ o : Option Expr,
    Jumpless (Ast.jumpsOption loops o) (s.lowerOption o)
  | none => by
    exact jumpless_pure _
  | some e => by
    exact (jumpless_lowerExpr loops e).map _

theorem jumpless_lowerAll (loops : List (Option String)) : ∀ es : List Expr,
    Jumpless (Ast.jumpsAll loops es) (s.lowerAll es)
  | [] => by
    exact jumpless_pure _
  | e :: es => by
    exact (jumpless_lowerExpr loops e).bind fun _ =>
      (jumpless_lowerAll loops es).andThen fun _ => jumpless_pure _

theorem jumpless_lowerInits (loops : List (Option String)) : ∀ fs : List FieldInit,
    Jumpless (Ast.jumpsInits loops fs) (s.lowerInits fs)
  | [] => by
    exact jumpless_pure _
  | .mk name e :: fs => by
    exact (jumpless_lowerExpr loops e).bind fun _ =>
      (jumpless_lowerInits loops fs).andThen fun _ => jumpless_pure _

end

end Scope

namespace Body

open Attempt

variable (set : Setting)

theorem jumpless_armTest (loops : List (Option String)) (scrutinee : Term) (pat : Pat)
    (guard : Option Expr) :
    Jumpless (Ast.jumpsOption loops guard) (armTest set scrutinee pat guard) := by
  refine (set.scope.jumpless_lowerPat pat).bind fun p => (jumpless_modify _).bind fun _ => ?_
  cases guard with
  | none => exact jumpless_pure _
  | some e => exact (set.scope.jumpless_lowerExpr loops e).andThen fun _ => jumpless_pure _

theorem jumpless_resolveAscription (ascription : Option TypeAnn) :
    Jumpless [] (resolveAscription set ascription) := by
  cases ascription with
  | none => exact jumpless_pure _
  | some t => exact ((set.scope.jumpless_resolve t.type).zoom _ _).map _

end Body

end RustFlow
