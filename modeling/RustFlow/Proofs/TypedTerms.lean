/-
# Expressions are lowered to well-typed terms

Lowering an expression interns types as it goes.  `Keeps` says what a run does, also one
that fails half-way: the arena grows by interning, the state stays fit, and the result has
a property that is read off the arena that was reached.  A context is *fit* if its arena is
ordered, the members of its layouts are live, and so are the types of its variables, hidden
ones included; such a context gives live types to whatever is looked up in it.

Each literal, path, pattern and expression is then typed by the rule of the term it becomes
(`keeps_lowerExpr`).  A part is typed in the arena of its time, and stays well typed while
the other parts are lowered.
-/

import RustFlow.Proofs.AgreeingTerms
import RustFlow.Proofs.Typing

namespace RustFlow

open Arena Attempt Ast

/-! ### Runs in fit states -/

/-- An ordered arena in which the members of layouts and the type of the scope are live. -/
structure Arena.Stocked (scope : Scope) (a : Arena) : Prop extends a.Ordered where
  members : ∀ (t : TypeId) (l : Layout), a.layout? t = some l → ∀ x ∈ l.types, a.Live x
  self : scope.Within a

theorem Arena.Stocked.later {scope : Scope} {a b : Arena} (h : a.Stocked scope) (hab : Later a b) :
    b.Stocked scope where
  toOrdered := hab.ordered_right
  members t l hl x hx := (h.members t l (hab.layout?_eq t ▸ hl) x hx).mono hab.forms
  self t ht := (h.self t ht).mono hab.forms

/-- A context with a stocked arena and variables of live types. -/
structure Context.Fit (scope : Scope) (c : Context) : Prop where
  arena : c.arena.Stocked scope
  locals : ∀ x ∈ c.locals, c.arena.Live x.2.type

/-- A kind of state that holds an arena, and when such a state is fit. -/
class Workspace (σ : Type) where
  arena : σ → Arena
  Fit : Scope → σ → Prop
  stocked : ∀ {scope : Scope} {x : σ}, Fit scope x → (arena x).Stocked scope

instance : Workspace Arena := ⟨fun a => a, Arena.Stocked, fun h => h⟩

instance : Workspace Context := ⟨Context.arena, Context.Fit, Context.Fit.arena⟩

/-- A run that interns types and keeps its state fit, and what holds of its result. -/
structure Keeps {σ α : Type} [Workspace σ] (scope : Scope) (m : Attempt σ α) (x : σ)
    (V : Arena → α → Prop) : Prop where
  later : Later (Workspace.arena x) (Workspace.arena (m x).2)
  fit : Workspace.Fit scope (m x).2
  value : ∀ v, (m x).1 = .ok v → V (Workspace.arena (m x).2) v

namespace Keeps

variable {σ τ α β : Type} [Workspace σ] [Workspace τ] {scope : Scope} {m : Attempt σ α} {x : σ}
  {V : Arena → α → Prop} {W : Arena → β → Prop}

theorem pure {v : α} (hx : Workspace.Fit scope x) (h : V (Workspace.arena x) v) :
    Keeps scope (Pure.pure v) x V :=
  ⟨.refl (Workspace.stocked hx).toOrdered, hx, fun _ hw => by cases hw; exact h⟩

theorem throw {e : Error} (hx : Workspace.Fit scope x) : Keeps scope (MonadExcept.throw e) x V :=
  ⟨.refl (Workspace.stocked hx).toOrdered, hx, fun _ hv => by cases hv⟩

theorem refuse {what : Construct} {pos : Position} (hx : Workspace.Fit scope x) :
    Keeps scope (scope.refuse what pos) x V := .throw hx

theorem bind {next : α → Attempt σ β} (h : Keeps scope m x V)
    (hnext : ∀ v y, Later (Workspace.arena x) (Workspace.arena y) → Workspace.Fit scope y →
      V (Workspace.arena y) v → Keeps scope (next v) y W) :
    Keeps scope (m >>= next) x W := by
  obtain ⟨hlater, hfit, hv⟩ := h
  have hrun := bind_run m next x
  generalize m x = r at hlater hfit hv hrun
  obtain ⟨out, y⟩ := r
  cases out with
  | error e =>
    exact ⟨hrun ▸ hlater, hrun ▸ hfit, fun w hw => by rw [hrun] at hw; cases hw⟩
  | ok v =>
    obtain ⟨hlater', hfit', hw⟩ := hnext v y hlater hfit (hv v rfl)
    exact ⟨hrun ▸ hlater.trans hlater', hrun ▸ hfit', fun w h => by rw [hrun] at h ⊢; exact hw w h⟩

theorem map {f : α → β} (h : Keeps scope m x V) (hf : ∀ a v, V a v → W a (f v)) :
    Keeps scope (f <$> m) x W := by
  have hrun := map_run m f x
  refine ⟨hrun ▸ h.later, hrun ▸ h.fit, fun w hw => ?_⟩
  rw [hrun] at hw ⊢
  cases hout : (m x).1 with
  | error e =>
    rw [hout] at hw
    cases hw
  | ok v =>
    rw [hout] at hw
    cases hw
    exact hf _ v (h.value v hout)

theorem get {next : σ → Attempt σ β} (h : Keeps scope (next x) x W) :
    Keeps scope (MonadState.get >>= next) x W := by
  have hrun : (MonadState.get >>= next) x = next x x := bind_run ..
  exact ⟨hrun ▸ h.later, hrun ▸ h.fit, fun w hw => by rw [hrun] at hw ⊢; exact h.value w hw⟩

theorem change {f : σ → σ} (hx : Workspace.Fit scope x)
    (harena : Workspace.arena (f x) = Workspace.arena x) (hfit : Workspace.Fit scope (f x)) :
    Keeps scope (modify f : Attempt σ PUnit) x fun _ _ => True where
  later := by
    rw [modify_run, harena]
    exact .refl (Workspace.stocked hx).toOrdered
  fit := hfit
  value _ _ := trivial

theorem zoom {view : τ → σ} {put : σ → τ → τ} {y : τ} (h : Keeps scope m (view y) V)
    (hview : Workspace.arena (view y) = Workspace.arena y)
    (hput : ∀ x, Workspace.arena (put x y) = Workspace.arena x)
    (hfit : ∀ x, Later (Workspace.arena y) (Workspace.arena x) → Workspace.Fit scope x →
      Workspace.Fit scope (put x y)) :
    Keeps scope (m.zoom view put) y V := by
  obtain ⟨hlater, hx, hv⟩ := h
  rw [hview] at hlater
  refine ⟨?_, hfit _ hlater hx, fun v hm => ?_⟩
  · rw [zoom_run, hput]
    exact hlater
  · rw [zoom_run, hput]
    exact hv v hm

end Keeps

theorem Arena.RunInterns.keeps {α : Type} {scope : Scope} {m : Attempt Arena α} {a : Arena}
    {V : Arena → α → Prop} (h : RunInterns m a V) (ha : a.Stocked scope) : Keeps scope m a V :=
  have hlater : Later a (m a).2 := ⟨ha.toOrdered, h.interns⟩
  ⟨hlater, ha.later hlater, h.result⟩

variable {scope : Scope} {a : Arena} {c : Context} {f : TypeForm} {s t : TypeId} {pos : Position}

theorem Context.Fit.withArena (hc : c.Fit scope) {b : Arena} (hab : Later c.arena b) :
    Context.Fit scope { c with arena := b } :=
  ⟨hc.arena.later hab, fun x hx => (hc.locals x hx).mono hab.forms⟩

theorem Keeps.onArena {α : Type} {m : Attempt Arena α} {V : Arena → α → Prop} (hc : c.Fit scope)
    (h : RunInterns m c.arena V) : Keeps scope (Context.onArena m) c V :=
  (h.keeps hc.arena).zoom rfl (fun _ => rfl) fun _ hlater _ => hc.withArena hlater

theorem Keeps.intern (hc : c.Fit scope) (hf : ∀ t ∈ f.parts, c.arena.Live t) :
    Keeps scope (Context.onArena (modifyGet fun a => a.intern f)) c
      fun b t => b.Live t ∧ b.lookup f = some t := by
  refine .onArena hc ⟨interns_intern hf, fun t ht => ?_⟩
  cases ht
  exact ⟨live_of_forms (forms_intern c.arena f), lookup_intern c.arena f⟩

/-! ### What is looked up is live -/

namespace Arena.Stocked

variable (ha : a.Stocked scope)

include ha

theorem live_fields (t : TypeId) : ∀ x ∈ a.fields t, a.Live x.type := by
  intro x hx
  unfold Arena.fields at hx
  split at hx
  · rename_i fs hlayout
    exact ha.members t _ hlayout x.type (List.mem_map_of_mem hx)
  · cases hx

theorem live_found {fs : List Field} (hfs : ∀ x ∈ fs, a.Live x.type) (name : String) :
    a.Live (((fs.find? fun x => x.name == name).map Field.type).getD .unknown) := by
  cases hfound : fs.find? fun x => x.name == name with
  | none => exact ha.live_unknown
  | some x => exact hfs x (List.mem_of_find?_eq_some hfound)

theorem live_fieldType (t : TypeId) (name : String) : a.Live (a.fieldType t name) :=
  ha.live_found (ha.live_fields t) name

theorem live_patternFields (t : TypeId) (name : String) :
    ∀ x ∈ a.patternFields t name, a.Live x.type := by
  intro x hx
  unfold Arena.patternFields at hx
  split at hx
  · exact ha.live_fields t x hx
  · split at hx
    · rename_i fs hshape
      obtain ⟨v, hv, hshape⟩ := Option.map_eq_some_iff.1 hshape
      have hmem := List.mem_of_find?_eq_some hv
      unfold Arena.variants at hmem
      split at hmem
      · rename_i vs hlayout
        refine ha.members t _ hlayout x.type (List.mem_flatMap.2 ⟨v, hmem, ?_⟩)
        rw [hshape]
        exact List.mem_map_of_mem hx
      · cases hmem
    · cases hx

theorem live_elementTypes (ht : a.Live t) (n : Nat) : ∀ x ∈ a.elementTypes t n, a.Live x := by
  intro x hx
  have hunknown (hx : x ∈ List.replicate n TypeId.unknown) : a.Live x :=
    List.eq_of_mem_replicate hx ▸ ha.live_unknown
  unfold Arena.elementTypes at hx
  split at hx
  · rename_i ts hform
    split at hx
    · exact ha.live_part (ha.live_peel ht) (hform ▸ hx)
    · exact hunknown hx
  · exact hunknown hx

end Arena.Stocked

theorem Context.Fit.live_localType (hc : c.Fit scope) (name : String) :
    c.arena.Live (c.localType name) := by
  unfold Context.localType Context.local?
  cases hlocal : c.locals.lookup name with
  | none => exact hc.arena.live_unknown
  | some x =>
    obtain ⟨l, r, hsplit, -⟩ := List.lookup_eq_some_iff.1 hlocal
    exact hc.locals (name, x) (hsplit ▸ List.mem_append_right l List.mem_cons_self)

/-! ### Structs and enums -/

theorem display_struct {name : String} {owner : UnitId} (h : a.form t = .struct name owner) :
    a.display t = name := by
  rw [display, depth, displayWithin, h]

theorem display_enum {name : String} {owner : UnitId} (h : a.form t = .enum name owner) :
    a.display t = name := by
  rw [display, depth, displayWithin, h]

theorem structNamed_cases {name : String} (h : scope.structNamed a name = some t) :
    a.lookup (.struct name scope.owner) = some t ∨
      name = "Self" ∧ scope.selfType = some t ∧ ∃ declared owner, a.form t = .struct declared owner := by
  unfold Scope.structNamed at h
  split at h
  · rename_i hname
    obtain ⟨hself, hstruct⟩ := Option.filter_eq_some_iff.1 h
    refine .inr ⟨beq_iff_eq.1 hname, hself, ?_⟩
    unfold Arena.isStruct at hstruct
    split at hstruct
    · exact ⟨_, _, ‹_›⟩
    · cases hstruct
  · exact .inl h

theorem enumNamed_cases {name : String} (h : scope.enumNamed a name = some t) :
    a.lookup (.enum name scope.owner) = some t ∨
      scope.selfType = some t ∧ ∃ declared owner, a.form t = .enum declared owner := by
  unfold Scope.enumNamed at h
  split at h
  · obtain ⟨hself, henum⟩ := Option.filter_eq_some_iff.1 h
    refine .inr ⟨hself, ?_⟩
    unfold Arena.isEnum at henum
    split at henum
    · exact ⟨_, _, ‹_›⟩
    · cases henum
  · exact .inl h

theorem live_structNamed (ha : a.Stocked scope) {name : String}
    (h : scope.structNamed a name = some t) : a.Live t := by
  rcases structNamed_cases h with hlookup | ⟨-, hself, -⟩
  · exact live_of_forms (lookup_eq_some hlookup)
  · exact ha.self t hself

theorem typing_structNamed {name : String} (h : scope.structNamed a name = some t)
    (fields : List Term) : Typing scope a (.structLit name fields) t := by
  rcases structNamed_cases h with hlookup | ⟨hname, hself, declared, owner, hform⟩
  · exact .structLit fields hlookup
  · exact .selfStruct fields hself hform (.inr hname)

theorem typing_displayed {name : String} (h : scope.structNamed a name = some t)
    (fields : List Term) : Typing scope a (.structLit (a.display t) fields) t := by
  rcases structNamed_cases h with hlookup | ⟨-, hself, declared, owner, hform⟩
  · rw [display_struct (form_of_forms (lookup_eq_some hlookup))]
    exact .structLit fields hlookup
  · rw [display_struct hform]
    exact .selfStruct fields hself hform (.inl rfl)

theorem variantOf_cases {p : Ast.Path} {v : Scope.EnumVariant} (h : scope.variantOf a p = some v) :
    ∃ name, scope.enumNamed a name = some v.type ∧ v.enumName = a.display v.type ∧
      a.variant? v.type v.variant.name = some v.variant := by
  unfold Scope.variantOf at h
  simp only [Option.bind_eq_bind, Option.bind_eq_some_iff, Option.pure_def, Option.some.injEq] at h
  obtain ⟨owner, -, type, htype, variant, hvariant, rfl⟩ := h
  refine ⟨owner.name, htype, rfl, ?_⟩
  have hname := List.find?_some hvariant
  rw [beq_iff_eq] at hname
  rw [hname]
  exact hvariant

theorem live_variantOf (ha : a.Stocked scope) {p : Ast.Path} {v : Scope.EnumVariant}
    (h : scope.variantOf a p = some v) : a.Live v.type := by
  obtain ⟨name, henum, -, -⟩ := variantOf_cases h
  rcases enumNamed_cases henum with hlookup | ⟨hself, -⟩
  · exact live_of_forms (lookup_eq_some hlookup)
  · exact ha.self _ hself

theorem typing_variantOf {p : Ast.Path} {v : Scope.EnumVariant} (h : scope.variantOf a p = some v)
    (payload : Payload) (values : List Term) :
    Typing scope a (.enumLit v.enumName v.variant.name payload values) v.type := by
  obtain ⟨name, henum, hname, hvariant⟩ := variantOf_cases h
  have hsome : (a.variant? v.type v.variant.name).isSome = true := by rw [hvariant]; rfl
  rw [hname]
  rcases enumNamed_cases henum with hlookup | ⟨hself, declared, owner, hform⟩
  · rw [display_enum (form_of_forms (lookup_eq_some hlookup))]
    exact .enumLit payload values hlookup hsome
  · rw [display_enum hform]
    exact .selfEnum payload values hself hform hsome

/-! ### Literals and paths -/

theorem isPrimitive_of_primitive? {name : String} (h : TypeId.primitive? name = some t) :
    t.isPrimitive = true := by
  unfold TypeId.primitive? at h
  split at h <;> cases h <;> decide

theorem suffixType_cases (suffix : String) {t : TypeId}
    (ht : (if suffix == "" then .i32 else (TypeId.primitive? suffix).getD .unknown) = t) :
    t = .unknown ∨ t.isPrimitive = true := by
  subst ht
  split
  · exact .inr (by decide)
  · cases hprim : TypeId.primitive? suffix with
    | none => exact .inl rfl
    | some t => exact .inr (isPrimitive_of_primitive? hprim)

theorem live_of_fixed (ha : a.Ordered) (h : t = .unknown ∨ t.isPrimitive = true) : a.Live t := by
  rcases h with rfl | h
  · exact ha.live_unknown
  · rw [TypeId.isPrimitive, Bool.and_eq_true, decide_eq_true_iff] at h
    exact ha.live_of_lt h.1

theorem keeps_lowerLit (hc : c.Fit scope) (pos : Position) (lit : Lit) :
    Keeps scope (scope.lowerLit pos lit) c (Term.WellTyped scope) := by
  have ha := hc.arena.toOrdered
  unfold Scope.lowerLit
  cases lit with
  | int negative n suffix =>
    dsimp only
    split
    · exact .refuse hc
    · have hfixed := suffixType_cases suffix rfl
      exact .pure hc (.mk (live_of_fixed ha hfixed) (.int n hfixed) .nil)
  | float x suffix =>
    refine .pure hc (.mk ?_ (.float x ?_) .nil)
    · split <;> exact ha.live_of_lt (by decide)
    · split
      · exact .inl rfl
      · exact .inr rfl
  | bool v => exact .pure hc (.mk (ha.live_of_lt (by decide)) (.bool v) .nil)
  | char v => exact .pure hc (.mk (ha.live_of_lt (by decide)) (.char v) .nil)
  | byte n =>
    exact .pure hc (.mk (ha.live_of_lt (by decide)) (.int n (.inr (by decide))) .nil)
  | str text =>
    have hstr : c.arena.Live .str := ha.live_of_lt (by decide)
    refine (Keeps.intern (f := .reference .str false) hc
      (List.forall_mem_singleton.2 hstr)).bind fun t c _ hc ht => ?_
    exact .pure hc (.mk ht.1 (.str text ht.2) .nil)
  | bytes => exact .refuse hc

theorem wellTyped_pathTerm (hc : c.Fit scope) (p : Ast.Path) (pos : Position) :
    (scope.pathTerm c p pos).WellTyped scope c.arena := by
  unfold Scope.pathTerm
  split
  · rename_i name _
    split
    · rename_i t _ hstruct
      exact .mk (live_structNamed hc.arena hstruct) (typing_structNamed hstruct []) .nil
    · exact .mk (hc.live_localType name) (.var _ _) .nil
  · split
    · rename_i v hv
      exact .mk (live_variantOf hc.arena hv) (typing_variantOf hv .unit []) .nil
    · exact .mk hc.arena.live_unknown (.path _) .nil

theorem keeps_lowerPath (hc : c.Fit scope) (p : Ast.Path) (pos : Position) :
    Keeps scope (scope.lowerPath p pos) c (Term.WellTyped scope) := by
  unfold Scope.lowerPath
  split
  · exact .refuse hc
  · exact .get (.pure hc (wellTyped_pathTerm hc p pos))

/-! ### Binding -/

mutual

/-- **A pattern gives live types to its variables**, from a value of a live type. -/
theorem live_bindPattern (ha : a.Stocked scope) {l : Locals} (hl : ∀ x ∈ l, a.Live x.2.type)
    {t : TypeId} (ht : a.Live t) : ∀ p : Pattern, ∀ x ∈ l.bindPattern a p t, a.Live x.2.type
  | .binding v => by
    exact List.forall_mem_cons.2 ⟨ht, hl⟩
  | .reference _ p => by
    exact live_bindPattern ha hl (ha.live_pointee ht) p
  | .struct name own fields _ => by
    exact live_bindFields ha hl (ha.live_patternFields own name) fields
  | .tuple ps => by
    exact live_bindElements ha hl (ha.live_elementTypes ht ps.length) ps
  | .tupleStruct _ ps | .alternatives ps => by
    rw [Locals.bindPattern, Locals.bindAll_eq_bindElements]
    exact live_bindElements ha hl (fun t ht => List.eq_of_mem_replicate ht ▸ ha.live_unknown) ps
  | .path _ | .literal _ | .range .. | .rest | .wildcard => by
    exact hl

theorem live_bindFields (ha : a.Stocked scope) {l : Locals} (hl : ∀ x ∈ l, a.Live x.2.type)
    {declared : List Field} (hdeclared : ∀ x ∈ declared, a.Live x.type) :
    ∀ fs : List FieldPattern, ∀ x ∈ l.bindFields a declared fs, a.Live x.2.type
  | [] => by
    exact hl
  | .mk name p :: fs => by
    exact live_bindFields ha (live_bindPattern ha hl (ha.live_found hdeclared name) p) hdeclared fs

theorem live_bindElements (ha : a.Stocked scope) {l : Locals} (hl : ∀ x ∈ l, a.Live x.2.type)
    {ts : List TypeId} (hts : ∀ t ∈ ts, a.Live t) :
    ∀ ps : List Pattern, ∀ x ∈ l.bindElements a ps ts, a.Live x.2.type
  | [] => by
    exact hl
  | p :: ps => by
    cases ts with
    | nil => exact hl
    | cons t ts =>
      obtain ⟨ht, hts⟩ := List.forall_mem_cons.1 hts
      exact live_bindElements ha (live_bindPattern ha hl ht p) hts ps

end

theorem Context.Fit.bindPattern (hc : c.Fit scope) (p : Pattern) (ht : c.arena.Live t) :
    (c.bindPattern p t).Fit scope :=
  ⟨hc.arena, live_bindPattern hc.arena hc.locals ht p⟩

theorem Context.Fit.bind (hc : c.Fit scope) (v : Variable) (ht : c.arena.Live t) :
    (c.bind v t).Fit scope :=
  ⟨hc.arena, List.forall_mem_cons.2 ⟨ht, hc.locals⟩⟩

theorem Keeps.bindPattern (hc : c.Fit scope) (p : Pattern) (ht : c.arena.Live t) :
    Keeps scope (modify fun c => c.bindPattern p t : Attempt Context PUnit) c fun _ _ => True :=
  .change hc rfl (hc.bindPattern p ht)

/-! ### Patterns -/

theorem live_patternType (ha : a.Stocked scope) (p : Ast.Path) :
    a.Live (match scope.variantOf a p with
      | some v => v.type
      | none => (scope.structOf a p).getD .unknown) := by
  split
  · rename_i v hv
    exact live_variantOf ha hv
  · cases hstruct : scope.structOf a p with
    | none => exact ha.live_unknown
    | some t =>
      obtain ⟨name, -, hnamed⟩ := Option.bind_eq_some_iff.1 hstruct
      exact live_structNamed ha hnamed

theorem keeps_lowerBound (hc : c.Fit scope) (o : Option Ast.Bound) :
    Keeps scope (scope.lowerBound o) c fun a v => TermsTyped scope a v.toList := by
  unfold Scope.lowerBound
  split
  · exact .pure hc .nil
  · exact (keeps_lowerLit hc _ _).map fun _ _ => .single
  · exact (keeps_lowerPath hc _ _).map fun _ _ => .single
  · exact .refuse hc

mutual

theorem keeps_lowerPat {c : Context} (hc : c.Fit scope) :
    ∀ p : Pat, Keeps scope (scope.lowerPat p) c (Pattern.WellTyped scope)
  | .binding _ name mutable => by
    exact .pure hc ⟨hc.arena.live_unknown, .nil⟩
  | .reference _ mutable p => by
    refine (keeps_lowerPat hc p).bind fun q c _ (hc : c.Fit scope) hq => ?_
    exact .pure hc ⟨hc.arena.live_unknown, hq.terms⟩
  | .struct pos p fields rest => by
    simp only [Scope.lowerPat]
    split
    · exact .refuse hc
    · have hlive := live_patternType hc.arena p
      refine .get ?_
      refine (keeps_lowerFieldPats hc fields).bind fun qs c hlater hc hqs => ?_
      exact .pure hc ⟨hlive.mono hlater.forms, hqs⟩
  | .tupleStruct pos p ps => by
    simp only [Scope.lowerPat]
    split
    · exact .refuse hc
    · refine (keeps_lowerPats hc ps).bind fun qs c _ (hc : c.Fit scope) hqs => ?_
      exact .pure hc ⟨hc.arena.live_unknown, hqs⟩
  | .path _ p => by
    exact .pure hc ⟨hc.arena.live_unknown, .nil⟩
  | .tuple _ ps => by
    refine (keeps_lowerPats hc ps).bind fun qs c _ (hc : c.Fit scope) hqs => ?_
    exact .pure hc ⟨hc.arena.live_unknown, hqs⟩
  | .literal pos lit => by
    refine (keeps_lowerLit hc pos lit).bind fun v c _ hc hv => ?_
    exact .pure hc ⟨hv.live, .single hv⟩
  | .range _ start stop inclusive => by
    refine (keeps_lowerBound hc start).bind fun u c _ hc hu => ?_
    refine (keeps_lowerBound hc stop).bind fun v c hlater (hc : c.Fit scope) hv => ?_
    exact .pure hc ⟨hc.arena.live_unknown, (hu.mono hlater).append hv⟩
  | .alternatives _ ps => by
    refine (keeps_lowerPats hc ps).bind fun qs c _ (hc : c.Fit scope) hqs => ?_
    exact .pure hc ⟨hc.arena.live_unknown, hqs⟩
  | .rest _ => by
    exact .pure hc ⟨hc.arena.live_unknown, .nil⟩
  | .wild _ => by
    exact .pure hc ⟨hc.arena.live_unknown, .nil⟩
  | .paren _ p => by
    exact keeps_lowerPat hc p
  | .other pos what => by
    exact .refuse hc

theorem keeps_lowerPats {c : Context} (hc : c.Fit scope) :
    ∀ ps : List Pat, Keeps scope (scope.lowerPats ps) c
      fun a qs => TermsTyped scope a (termsOfPatterns qs)
  | [] => by
    exact .pure hc .nil
  | p :: ps => by
    refine (keeps_lowerPat hc p).bind fun q c _ hc hq => ?_
    refine (keeps_lowerPats hc ps).bind fun qs c hlater hc hqs => ?_
    exact .pure hc ((hq.terms.mono hlater).append hqs)

theorem keeps_lowerFieldPats {c : Context} (hc : c.Fit scope) :
    ∀ fs : List FieldPat, Keeps scope (scope.lowerFieldPats fs) c
      fun a qs => TermsTyped scope a (termsOfFields qs)
  | [] => by
    exact .pure hc .nil
  | .mk name p :: fs => by
    refine (keeps_lowerPat hc p).bind fun q c _ hc hq => ?_
    refine (keeps_lowerFieldPats hc fs).bind fun qs c hlater hc hqs => ?_
    exact .pure hc ((hq.terms.mono hlater).append hqs)

end

/-! ### Types of expressions -/

theorem wellTyped_binary (ha : a.Ordered) (op : BinaryOp) {l r : Term} (hl : l.WellTyped scope a)
    (hr : r.WellTyped scope a) (pos : Position) : (Term.binary op l r pos).WellTyped scope a := by
  unfold Term.binary
  dsimp only
  split
  · exact .mk (ha.live_of_lt (by decide)) (.truth l r ‹_›) (.pair hl hr)
  · rename_i hop
    rw [Bool.not_eq_true] at hop
    split
    · exact .mk hl.live (.common hop ‹_›) (.pair hl hr)
    · exact .mk ha.live_unknown (.mixed hop ‹_›) (.pair hl hr)

theorem wellTyped_assign (ha : a.Ordered) {l r : Term} (hl : l.WellTyped scope a)
    (hr : r.WellTyped scope a) (pos : Position) :
    (Term.mk (.assign l r) .unit pos).WellTyped scope a :=
  .mk (ha.live_of_lt (by decide)) (.assign l r) (.pair hl hr)

theorem wellTyped_test (ha : a.Ordered) {p : Pattern} (hp : p.WellTyped scope a) {e : Term}
    (he : e.WellTyped scope a) (pos : Position) : (Term.mk (.test p e) .bool pos).WellTyped scope a :=
  .mk (ha.live_of_lt (by decide)) (.test p e) (hp.terms.append (.single he))

theorem wellTyped_call (ha : a.Ordered) (target : String) (qualifier : Option String) (method : Bool)
    {args : List Term} (hargs : TermsTyped scope a args) (pos : Position) :
    (Term.mk (.call target qualifier method args) .unknown pos).WellTyped scope a :=
  .mk ha.live_unknown (.call target qualifier method args) hargs

theorem wellTyped_unary (ha : a.Ordered) (op : UnaryOp) {e : Term} (he : e.WellTyped scope a)
    (pos : Position) :
    (Term.mk (.unary op e) (Scope.unaryType a op e.type) pos).WellTyped scope a := by
  cases op with
  | neg => exact .mk he.live (.neg e) (.single he)
  | not => exact .mk he.live (.not e) (.single he)
  | deref =>
    refine .mk (ha.live_pointee he.live) ?_ (.single he)
    show Typing scope a (.unary .deref e) (a.pointee e.type)
    rcases a.refers_pointee e.type with href | ⟨hnone, hunknown⟩
    · exact .deref href
    · rw [hunknown]
      exact .derefOther hnone

theorem wellTyped_index (ha : a.Ordered) {base idx : Term} (hbase : base.WellTyped scope a)
    (hidx : idx.WellTyped scope a) (pos : Position) :
    (Term.mk (.index base idx) (Scope.indexedType a base.type) pos).WellTyped scope a := by
  have hstripped := ha.stripped_peel base.type
  have hpeel := ha.live_peel hbase.live
  unfold Scope.indexedType
  cases hform : a.form (a.peel base.type) with
  | array e length =>
    have he : a.Live e := ha.live_part hpeel (hform ▸ List.mem_singleton.2 rfl)
    exact .mk he (.element idx hstripped hform) (.pair hbase hidx)
  | _ =>
    refine .mk ha.live_unknown (.noElement idx hstripped fun e length h => ?_) (.pair hbase hidx)
    cases hform.symm.trans h

theorem wellTyped_tupleField (ha : a.Stocked scope) {base : Term} (hbase : base.WellTyped scope a)
    (i : Nat) (pos : Position) :
    (Term.mk (.tupleField base i) (Scope.positionType a base.type i) pos).WellTyped scope a := by
  have hstripped := ha.stripped_peel base.type
  have hpeel := ha.live_peel hbase.live
  unfold Scope.positionType
  dsimp only
  cases hform : a.form (a.peel base.type) with
  | tuple ts =>
    have hlive : a.Live (ts[i]?.getD .unknown) := by
      cases hi : ts[i]? with
      | none => exact ha.live_unknown
      | some t => exact ha.live_part hpeel (hform ▸ List.mem_of_getElem? hi)
    exact .mk hlive (.component i hstripped hform) (.single hbase)
  | _ =>
    refine .mk (ha.live_fieldType _ _) (.position i hstripped fun ts h => ?_) (.single hbase)
    cases hform.symm.trans h

theorem live_commonType (ha : a.Ordered) {ts : List Term} (hts : TermsTyped scope a ts) :
    a.Live (Term.commonType ts) := by
  cases ts with
  | nil => exact ha.live_unknown
  | cons t ts =>
    simp only [Term.commonType]
    split
    · exact (hts t List.mem_cons_self).live
    · exact ha.live_unknown

theorem typing_array {ts : List Term} (h : a.lookup (.array (Term.commonType ts) ts.length) = some t) :
    Typing scope a (.array ts) t := by
  cases ts with
  | nil => exact .mixedArray (.inl rfl) h
  | cons x xs =>
    simp only [Term.commonType] at h
    split at h
    · rename_i hall
      refine .array (List.cons_ne_nil _ _) (List.forall_mem_cons.2 ⟨rfl, fun y hy => ?_⟩) h
      exact beq_iff_eq.1 (List.all_eq_true.1 hall y hy)
    · rename_i hall
      obtain ⟨y, hy, hne⟩ : ∃ y ∈ xs, y.type ≠ x.type := by
        simpa only [List.all_eq_true, beq_iff_eq, not_forall, exists_prop] using hall
      exact .mixedArray (.inr ⟨y, List.mem_cons_of_mem _ hy, x, List.mem_cons_self, hne⟩) h

theorem typeText_cases (a : Arena) (written : TypeAnn) (t : TypeId) :
    t = .unknown ∨ Scope.typeText a written t = a.display t := by
  by_cases h : t = .unknown
  · exact .inl h
  · exact .inr (if_neg h)

/-! ### Literals of structs and enums -/

theorem wellTyped_applied (ha : a.Stocked scope) (p : Ast.Path) {args : List Term}
    (hargs : TermsTyped scope a args) (pos : Position) :
    (scope.applied a p args pos).WellTyped scope a := by
  unfold Scope.applied
  split
  · rename_i v hv
    exact .mk (live_variantOf ha hv) (typing_variantOf hv .tuple args) hargs
  · split
    · rename_i name t hident hstruct
      rw [Scope.structOf, hident] at hstruct
      exact .mk (live_structNamed ha hstruct) (typing_structNamed hstruct args) hargs
    · exact wellTyped_call ha.toOrdered _ _ _ hargs pos

theorem typed_packFields {owner : String} {names : List String} {xs : List (String × Term)}
    {values : List Term} (h : packFields owner names xs = .ok values)
    (hxs : ∀ x ∈ xs, x.2.WellTyped scope a) : TermsTyped scope a values := by
  have hsame := alike_packFields (P := fun t _ => t.WellTyped scope a) owner names
    (List.forall₂_same.2 fun x hx => ⟨rfl, hxs x hx⟩)
  rw [h] at hsame
  cases hsame with
  | ok hvalues =>
    have hself := List.forall₂_same.1 hvalues
    exact hself

/-- **What named values make**: a literal of a variant with named fields, of a struct, or,
where types need not be known, of a name that is no type. -/
theorem structTerm_cases {p : Ast.Path} {xs : List (String × Term)} {pos : Position} {t : Term}
    (h : scope.structTerm a p xs pos = .ok t) :
    (∃ v fields values, scope.variantOf a p = some v ∧ v.variant.shape = .struct fields ∧
      packFields (v.enumName ++ "::" ++ v.variant.name) (fields.map Field.name) xs = .ok values ∧
      t = .mk (.enumLit v.enumName v.variant.name .struct values) v.type pos) ∨
    (∃ name type values, scope.structNamed a name = some type ∧
      packFields (a.display type) ((a.fields type).map Field.name) xs = .ok values ∧
      t = .mk (.structLit (a.display type) values) type pos) ∨
    scope.strict = false ∧ t = .mk (.structLit p.joined (xs.map Prod.snd)) .unknown pos := by
  unfold Scope.structTerm at h
  dsimp only at h
  split at h
  · rename_i v hv
    split at h
    · rename_i fields hshape
      cases hpack : packFields (v.enumName ++ "::" ++ v.variant.name) (fields.map Field.name) xs with
      | error e =>
        rw [hpack] at h
        cases h
      | ok values =>
        rw [hpack] at h
        exact .inl ⟨v, fields, values, hv, hshape, hpack, (Except.ok.inj h).symm⟩
    · cases h
  · split at h
    · rename_i type hstruct
      obtain ⟨name, -, hnamed⟩ := Option.bind_eq_some_iff.1 hstruct
      cases hpack : packFields (a.display type) ((a.fields type).map Field.name) xs with
      | error e =>
        rw [hpack] at h
        cases h
      | ok values =>
        rw [hpack] at h
        exact .inr (.inl ⟨name, type, values, hnamed, hpack, (Except.ok.inj h).symm⟩)
    · split at h
      · cases h
      · rename_i hstrict
        exact .inr (.inr ⟨Bool.eq_false_iff.2 hstrict, (Except.ok.inj h).symm⟩)

theorem wellTyped_structTerm (ha : a.Stocked scope) {p : Ast.Path} {xs : List (String × Term)}
    (hxs : ∀ x ∈ xs, x.2.WellTyped scope a) {pos : Position} {t : Term}
    (h : scope.structTerm a p xs pos = .ok t) : t.WellTyped scope a := by
  rcases structTerm_cases h with ⟨v, fields, values, hv, -, hpack, rfl⟩ |
    ⟨name, type, values, hnamed, hpack, rfl⟩ | ⟨hstrict, rfl⟩
  · exact .mk (live_variantOf ha hv) (typing_variantOf hv .struct values) (typed_packFields hpack hxs)
  · exact .mk (live_structNamed ha hnamed) (typing_displayed hnamed values)
      (typed_packFields hpack hxs)
  · refine .mk ha.live_unknown (.otherStruct _ _ hstrict) fun u hu => ?_
    obtain ⟨x, hx, rfl⟩ := List.mem_map.1 hu
    exact hxs x hx

/-! ### Expressions -/

mutual

/-- **An expression is lowered to a well-typed term**, one rule for each construct. -/
theorem keeps_lowerExpr {c : Context} (hc : c.Fit scope) :
    ∀ e : Expr, Keeps scope (scope.lowerExpr e) c (Term.WellTyped scope)
  | .literal pos lit => by
    exact keeps_lowerLit hc pos lit
  | .path pos p => by
    exact keeps_lowerPath hc p pos
  | .binary pos op l r => by
    refine (keeps_lowerExpr hc l).bind fun u c _ hc hu => ?_
    refine (keeps_lowerExpr hc r).bind fun v c hlater (hc : c.Fit scope) hv => ?_
    exact .pure hc (wellTyped_binary hc.arena.toOrdered op (hu.mono hlater) hv pos)
  | .compound pos op l r => by
    refine (keeps_lowerExpr hc l).bind fun u c _ hc hu => ?_
    refine (keeps_lowerExpr hc r).bind fun v c hlater (hc : c.Fit scope) hv => ?_
    have ha := hc.arena.toOrdered
    have hu := hu.mono hlater
    exact .pure hc (wellTyped_assign ha hu (wellTyped_binary ha op hu hv pos) pos)
  | .unary pos op e => by
    refine (keeps_lowerExpr hc e).bind fun u c _ (hc : c.Fit scope) hu => ?_
    exact .get (.pure hc (wellTyped_unary hc.arena.toOrdered op hu pos))
  | .borrow pos mutable e => by
    refine (keeps_lowerExpr hc e).bind fun u c _ hc hu => ?_
    refine (Keeps.intern (f := .reference u.type mutable) hc
      (List.forall_mem_singleton.2 hu.live)).bind fun t c hlater hc ht => ?_
    exact .pure hc (.mk ht.1 (.borrow ht.2) (.single (hu.mono hlater)))
  | .cast pos e target => by
    refine (keeps_lowerExpr hc e).bind fun u c _ (hc : c.Fit scope) hu => ?_
    refine (Keeps.onArena hc (runInterns_resolve hc.arena.self hc.arena.toOrdered
      target.type)).bind fun t c hlater hc ht => ?_
    refine .get (.pure hc (.mk ht (.cast u ?_) (.single (hu.mono hlater))))
    exact typeText_cases c.arena target t
  | .range pos start stop inclusive => by
    refine (keeps_lowerOption hc start).bind fun u c _ hc hu => ?_
    refine (keeps_lowerOption hc stop).bind fun v c hlater (hc : c.Fit scope) hv => ?_
    exact .pure hc (.mk hc.arena.live_unknown (.range u v inclusive) ((hu.mono hlater).append hv))
  | .assign pos l r => by
    refine (keeps_lowerExpr hc l).bind fun u c _ hc hu => ?_
    refine (keeps_lowerExpr hc r).bind fun v c hlater (hc : c.Fit scope) hv => ?_
    exact .pure hc (wellTyped_assign hc.arena.toOrdered (hu.mono hlater) hv pos)
  | .test pos p e => by
    refine (keeps_lowerExpr hc e).bind fun u c _ hc hu => ?_
    refine (keeps_lowerPat hc p).bind fun q c hlater hc hq => ?_
    have hu := hu.mono hlater
    refine (Keeps.bindPattern hc q hu.live).bind fun _ c hlater (hc : c.Fit scope) _ => ?_
    exact .pure hc (wellTyped_test hc.arena.toOrdered (hq.mono hlater) (hu.mono hlater) pos)
  | .index pos l r => by
    refine (keeps_lowerExpr hc l).bind fun u c _ hc hu => ?_
    refine (keeps_lowerExpr hc r).bind fun v c hlater (hc : c.Fit scope) hv => ?_
    exact .get (.pure hc (wellTyped_index hc.arena.toOrdered (hu.mono hlater) hv pos))
  | .tupleField pos e i => by
    refine (keeps_lowerExpr hc e).bind fun u c _ (hc : c.Fit scope) hu => ?_
    exact .get (.pure hc (wellTyped_tupleField hc.arena hu i pos))
  | .field pos e name => by
    refine (keeps_lowerExpr hc e).bind fun u c _ (hc : c.Fit scope) hu => ?_
    have hstripped := hc.arena.stripped_peel u.type
    exact .get (.pure hc (.mk (hc.arena.live_fieldType _ name) (.field name hstripped) (.single hu)))
  | .methodCall pos receiver method args => by
    refine (keeps_lowerExpr hc receiver).bind fun u c _ hc hu => ?_
    refine (keeps_lowerAll hc args).bind fun vs c hlater (hc : c.Fit scope) hvs => ?_
    exact .pure hc (wellTyped_call hc.arena.toOrdered _ _ _ (.cons (hu.mono hlater) hvs.2) pos)
  | .call pos callee args => by
    cases callee with
    | path _ p =>
      simp only [Scope.lowerExpr]
      split
      · exact .refuse hc
      · refine (keeps_lowerAll hc args).bind fun vs c _ (hc : c.Fit scope) hvs => ?_
        exact .get (.pure hc (wellTyped_applied hc.arena p hvs.2 pos))
    | _ =>
      exact .refuse hc
  | .structLit pos p fields rest => by
    simp only [Scope.lowerExpr]
    split
    · exact .refuse hc
    · split
      · exact .refuse hc
      · refine (keeps_lowerInits hc fields).bind fun xs c _ (hc : c.Fit scope) hxs => ?_
        refine .get ?_
        split
        · exact .pure hc (wellTyped_structTerm hc.arena hxs ‹_›)
        · exact .throw hc
  | .tuple pos es => by
    simp only [Scope.lowerExpr]
    split
    · exact .pure hc (.mk (hc.arena.live_of_lt (by decide)) .unit .nil)
    · rename_i hes
      refine (keeps_lowerAll hc es).bind fun vs c _ hc hvs => ?_
      obtain ⟨hlength, hvs⟩ := hvs
      cases vs with
      | nil => exact absurd (List.isEmpty_iff_length_eq_zero.2 hlength.symm) hes
      | cons v vs =>
        have hlive : ∀ t ∈ (v :: vs).map Term.type, c.arena.Live t := by
          intro t ht
          obtain ⟨u, hu, rfl⟩ := List.mem_map.1 ht
          exact (hvs u hu).live
        refine (Keeps.intern (f := .tuple ((v :: vs).map Term.type)) hc hlive).bind
          fun t c hlater hc ht => ?_
        exact .pure hc (.mk ht.1 (.tuple (List.cons_ne_nil _ _) ht.2) (hvs.mono hlater))
  | .array pos es => by
    refine (keeps_lowerAll hc es).bind fun vs c _ (hc : c.Fit scope) hvs => ?_
    have hcommon := live_commonType hc.arena.toOrdered hvs.2
    refine (Keeps.intern (f := .array (Term.commonType vs) vs.length) hc
      (List.forall_mem_singleton.2 hcommon)).bind fun t c hlater hc ht => ?_
    exact .pure hc (.mk ht.1 (typing_array ht.2) (hvs.2.mono hlater))
  | .arrayRepeat pos e length => by
    cases length with
    | none =>
      exact .refuse hc
    | some n =>
      refine (keeps_lowerExpr hc e).bind fun u c _ hc hu => ?_
      refine (Keeps.intern (f := .array u.type n) hc
        (List.forall_mem_singleton.2 hu.live)).bind fun t c hlater hc ht => ?_
      exact .pure hc (.mk ht.1 (.arrayRepeat ht.2) (.single (hu.mono hlater)))
  | .paren _ e => by
    exact keeps_lowerExpr hc e
  | .macroCall pos p tokens _ => by
    exact .pure hc (.mk hc.arena.live_unknown (.macroCall p tokens) .nil)
  | .block .. | .unsafeBlock .. | .branch .. | .matchOn .. | .whileLoop .. | .loop .. | .forLoop ..
  | .ret .. | .leave .. | .next .. | .other .. | .verbatim .. => by
    exact .refuse hc

theorem keeps_lowerOption {c : Context} (hc : c.Fit scope) :
    ∀ o : Option Expr, Keeps scope (scope.lowerOption o) c fun a v => TermsTyped scope a v.toList
  | none => by
    exact .pure hc .nil
  | some e => by
    exact (keeps_lowerExpr hc e).map fun _ _ => .single

theorem keeps_lowerAll {c : Context} (hc : c.Fit scope) :
    ∀ es : List Expr, Keeps scope (scope.lowerAll es) c
      fun a vs => vs.length = es.length ∧ TermsTyped scope a vs
  | [] => by
    exact .pure hc ⟨rfl, .nil⟩
  | e :: es => by
    refine (keeps_lowerExpr hc e).bind fun u c _ hc hu => ?_
    refine (keeps_lowerAll hc es).bind fun vs c hlater hc hvs => ?_
    exact .pure hc ⟨congrArg (· + 1) hvs.1, .cons (hu.mono hlater) hvs.2⟩

theorem keeps_lowerInits {c : Context} (hc : c.Fit scope) :
    ∀ fs : List FieldInit, Keeps scope (scope.lowerInits fs) c
      fun a xs => ∀ x ∈ xs, x.2.WellTyped scope a
  | [] => by
    exact .pure hc fun _ hx => by cases hx
  | .mk name e :: fs => by
    refine (keeps_lowerExpr hc e).bind fun u c _ hc hu => ?_
    refine (keeps_lowerInits hc fs).bind fun xs c hlater hc hxs => ?_
    exact .pure hc (List.forall_mem_cons.2 ⟨hu.mono hlater, hxs⟩)

end

end RustFlow
