/-
# Lowering agrees in arenas that grew apart

The same computation is run in two states whose arenas grew from two that correspond:
the one may be that of a file on its own, the other that of a program in which the file
stands after others.  `Agree` says that it fails in both with one error, or succeeds in
both with related results, and that it leaves two such states again.  What was related
before stays related, since arenas only grow (`Agree.bind`).

Here this is shown for the resolution of types; patterns, expressions and bodies follow.
-/

import RustFlow.Lowering.Expr
import RustFlow.Proofs.Alike
import RustFlow.Proofs.Attempt
import RustFlow.Proofs.Relocation

namespace RustFlow

open Arena Attempt

/-- A state that holds an arena. -/
class Typed (σ : Type) where
  arena : σ → Arena
  /-- The same state with related types. -/
  Alike : (TypeId → TypeId → Prop) → σ → σ → Prop
  mono : ∀ {R S : TypeId → TypeId → Prop} {x y : σ}, (∀ s t, R s t → S s t) → Alike R x y → Alike S x y

instance : Typed Arena := ⟨id, fun _ _ _ => True, fun _ h => h⟩

/-- The arenas that two runs start from, and by how many units the owners of the second
are behind those of the first. -/
structure Ground where
  shift : Nat
  left : Arena
  right : Arena

/-- One arena for both runs. -/
def Ground.same (a : Arena) : Ground := ⟨0, a, a⟩

/-- The types that correspond in two states. -/
def Types {σ : Type} [Typed σ] (base : Ground) (x y : σ) : TypeId → TypeId → Prop :=
  Same ((Typed.arena x).shift base.shift) (Typed.arena y)

/-- Arenas whose corresponding types have alike layouts. -/
structure Ground.Linked (base : Ground) : Prop where
  left : base.left.Sound
  right : base.right.Sound
  layouts : ∀ s t, Types base base.left base.right s t →
    Option.Rel (Layout.Alike (Types base base.left base.right)) (base.left.layout? s)
      (base.right.layout? t)

/-- Two states that differ in types only and whose arenas grew from linked ones. -/
structure Aligned {σ : Type} [Typed σ] (base : Ground) (x y : σ) : Prop where
  linked : base.Linked
  left : Grown base.left (Typed.arena x)
  right : Grown base.right (Typed.arena y)
  alike : Typed.Alike (Types base x y) x y

/-- Two runs with one outcome up to types. -/
structure Agree {σ α : Type} [Typed σ] (base : Ground)
    (V : (TypeId → TypeId → Prop) → α → α → Prop) (m m' : Attempt σ α) (x y : σ) : Prop where
  left : (Typed.arena x).forms <+: (Typed.arena (m x).2).forms
  right : (Typed.arena y).forms <+: (Typed.arena (m' y).2).forms
  aligned : Aligned base (m x).2 (m' y).2
  same : SameOutcome (V (Types base (m x).2 (m' y).2)) (m x).1 (m' y).1

section Rules

variable {σ τ α β : Type} [Typed σ] [Typed τ] {base : Ground} {x y x' y' : σ} {s t : TypeId}
  {V : (TypeId → TypeId → Prop) → α → α → Prop} {W : (TypeId → TypeId → Prop) → β → β → Prop}
  {m m' : Attempt σ α}

theorem types_mono {z w : τ} (h : Types base x y s t)
    (hl : (Typed.arena x).forms <+: (Typed.arena z).forms)
    (hr : (Typed.arena y).forms <+: (Typed.arena w).forms) : Types base z w s t :=
  Same.mono h (prefix_shift _ hl) hr

namespace Agree

theorem pure {v w : α} (hxy : Aligned base x y) (h : V (Types base x y) v w) :
    Agree base V (Pure.pure v) (Pure.pure w) x y :=
  ⟨List.prefix_refl _, List.prefix_refl _, hxy, .ok h⟩

theorem throw {e : Error} (hxy : Aligned base x y) :
    Agree base V (MonadExcept.throw e) (MonadExcept.throw e) x y :=
  ⟨List.prefix_refl _, List.prefix_refl _, hxy, .error e⟩

/-- **Sequences agree if their parts do.**  The second part may use all that was
related before the first. -/
theorem bind {next next' : α → Attempt σ β} (h : Agree base V m m' x y)
    (hnext : ∀ v w x' y', (∀ s t, Types base x y s t → Types base x' y' s t) → Aligned base x' y' →
      V (Types base x' y') v w → Agree base W (next v) (next' w) x' y') :
    Agree base W (m >>= next) (m' >>= next') x y := by
  obtain ⟨hl, hr, hxy, hsame⟩ := h
  have hrun := bind_run m next x
  have hrun' := bind_run m' next' y
  have hmono : ∀ s t, Types base x y s t → Types base (m x).2 (m' y).2 s t := fun _ _ h => types_mono h hl hr
  generalize m x = r at hl hxy hsame hrun hmono
  generalize m' y = r' at hr hxy hsame hrun' hmono
  obtain ⟨out, x'⟩ := r
  obtain ⟨out', y'⟩ := r'
  cases hsame with
  | error e =>
    refine ⟨?_, ?_, ?_, ?_⟩
    all_goals simp only [hrun, hrun']
    · exact hl
    · exact hr
    · exact hxy
    · exact .error e
  | @ok v w hvw =>
    obtain ⟨hl', hr', hxy', hsame'⟩ := hnext v w x' y' hmono hxy hvw
    refine ⟨?_, ?_, ?_, ?_⟩
    all_goals simp only [hrun, hrun']
    · exact hl.trans hl'
    · exact hr.trans hr'
    · exact hxy'
    · exact hsame'

theorem map {f : α → β} (h : Agree base V m m' x y)
    (hf : ∀ R v w, V R v w → W R (f v) (f w)) : Agree base W (f <$> m) (f <$> m') x y := by
  obtain ⟨hl, hr, hxy, hsame⟩ := h
  refine ⟨?_, ?_, ?_, ?_⟩
  all_goals simp only [map_run]
  · exact hl
  · exact hr
  · exact hxy
  · exact hsame.map (hf _)

theorem of_run {k k' : Attempt σ α} (hx : m x = k x) (hy : m' y = k' y)
    (h : Agree base V k k' x y) : Agree base V m m' x y := by
  obtain ⟨hl, hr, hxy, hsame⟩ := h
  exact ⟨hx ▸ hl, hy ▸ hr, hx ▸ hy ▸ hxy, hx ▸ hy ▸ hsame⟩

theorem get {next next' : σ → Attempt σ β} (h : Agree base W (next x) (next' y) x y) :
    Agree base W (MonadState.get >>= next) (MonadState.get >>= next') x y :=
  h.of_run (bind_run _ _ _) (bind_run _ _ _)

theorem change {f f' : σ → σ} (hf : Typed.arena (f x) = Typed.arena x)
    (hf' : Typed.arena (f' y) = Typed.arena y) (hxy : Aligned base x y)
    (h : Typed.Alike (Types base x y) (f x) (f' y)) :
    Agree base (fun _ _ _ => True) (modify f : Attempt σ PUnit) (modify f') x y := by
  have htypes : Types base (f x) (f' y) = Types base x y := by rw [Types, Types, hf, hf']
  refine ⟨?_, ?_, ⟨hxy.linked, ?_, ?_, ?_⟩, .ok trivial⟩
  · exact hf ▸ List.prefix_refl _
  · exact hf' ▸ List.prefix_refl _
  · exact hf ▸ hxy.left
  · exact hf' ▸ hxy.right
  · exact htypes ▸ h

theorem zoom {view : σ → τ} {put : τ → σ → σ} {k k' : Attempt τ α} (hxy : Aligned base x y)
    (hview : ∀ z, Typed.arena (view z) = Typed.arena z)
    (hput : ∀ t z, Typed.arena (put t z) = Typed.arena t)
    (halike : ∀ R t t', Typed.Alike R t t' → Typed.Alike R x y → Typed.Alike R (put t x) (put t' y))
    (h : Agree base V k k' (view x) (view y)) :
    Agree base V (k.zoom view put) (k'.zoom view put) x y := by
  have htypes : Types base (put (k (view x)).2 x) (put (k' (view y)).2 y) =
      Types base (k (view x)).2 (k' (view y)).2 := by rw [Types, Types, hput, hput]
  have hleft := h.left
  have hright := h.right
  rw [hview] at hleft hright
  have hmono : ∀ s t, Types base x y s t → Types base (k (view x)).2 (k' (view y)).2 s t :=
    fun _ _ hst => types_mono hst hleft hright
  refine ⟨?_, ?_, ⟨hxy.linked, ?_, ?_, ?_⟩, ?_⟩
  all_goals simp only [zoom_run, hput, htypes]
  · exact hleft
  · exact hright
  · exact h.aligned.left
  · exact h.aligned.right
  · exact halike _ _ _ h.aligned.alike (Typed.mono hmono hxy.alike)
  · exact h.same

end Agree

end Rules

/-! ### Types -/

section Reading

variable {base : Ground} {a b : Arena} {f g : TypeForm} {s s' t t' : TypeId}

theorem Aligned.grown_left (h : Aligned base a b) : Grown base.left a := h.left

theorem Aligned.grown_right (h : Aligned base a b) : Grown base.right b := h.right

theorem Aligned.same_of_base (h : Aligned base a b) (hst : Types base base.left base.right s t) :
    Types base a b s t := types_mono hst h.left.forms h.right.forms

theorem Aligned.same_of_lt (h : Aligned base a b) {i : Nat} (hi : i < TypeForm.primitives.length) :
    Types base a b ⟨i⟩ ⟨i⟩ := Arena.same_of_lt (h.left.sound.shift _) h.right.sound hi

theorem Aligned.same_unknown (h : Aligned base a b) : Types base a b .unknown .unknown :=
  h.same_of_lt (by decide)

theorem Aligned.same_unit (h : Aligned base a b) : Types base a b .unit .unit :=
  h.same_of_lt (by decide)

theorem Aligned.eq_iff (h : Aligned base a b) (hst : Types base a b s t)
    (hst' : Types base a b s' t') : s = s' ↔ t = t' :=
  Same.eq_iff (h.left.sound.shift _) h.right.sound hst hst'

theorem Aligned.isStruct_eq (_ : Aligned base a b) (hst : Types base a b s t) :
    a.isStruct s = b.isStruct t := (isStruct_shift _ a s).symm.trans (Same.isStruct_eq hst)

theorem Aligned.isEnum_eq (_ : Aligned base a b) (hst : Types base a b s t) :
    a.isEnum s = b.isEnum t := (isEnum_shift _ a s).symm.trans (Same.isEnum_eq hst)

theorem Aligned.pointee (h : Aligned base a b) (hst : Types base a b s t) :
    Types base a b (a.pointee s) (b.pointee t) := by
  rw [← pointee_shift base.shift]
  exact Same.pointee (h.left.sound.shift _) h.right.sound hst

theorem Aligned.peel (h : Aligned base a b) (hst : Types base a b s t) :
    Types base a b (a.peel s) (b.peel t) := by
  rw [← peel_shift base.shift]
  exact Same.peel (h.left.sound.shift _) h.right.sound hst

theorem Aligned.display_eq (h : Aligned base a b) (hst : Types base a b s t) :
    a.display s = b.display t := by
  rw [← display_shift base.shift]
  exact Same.display_eq (h.left.sound.shift _) h.right.sound hst

theorem alike_shift_form (hst : Types base a b s t) :
    ((a.form s).shift base.shift).Alike (Types base a b) (b.form t) :=
  form_shift base.shift a s ▸ Same.form hst

theorem live_left (hst : Types base a b s t) : a.Live s := live_shift.1 (Same.live_left hst)

theorem live_right (hst : Types base a b s t) : b.Live t := Same.live_right hst

/-- **Corresponding types have alike layouts.** -/
theorem Aligned.layout? (h : Aligned base a b) (hst : Types base a b s t) :
    Option.Rel (Layout.Alike (Types base a b)) (a.layout? s) (b.layout? t) := by
  have ha := h.grown_left
  have hb := h.grown_right
  refine layout?_rel ha.sound hb.sound hst fun f hf hg hn => ?_
  have hright := hb.forms_of_isNamed hg ((TypeForm.isNamed_shift _ f).trans hn)
  have hrel := h.linked.layouts s t (same_of_isNamed (ha.forms_of_isNamed hf hn) hright hn)
  rw [Arena.layout?, Arena.layout?, ha.layouts, hb.layouts]
  exact optionRel_imp hrel fun _ _ => .mono fun _ _ => h.same_of_base

theorem agree_intern (hab : Aligned base a b) (hf : f.isNamed = false)
    (h : f.Alike (Types base a b) g) :
    Agree base (fun R => R) (modifyGet fun a => a.intern f) (modifyGet fun b => b.intern g) a b := by
  have hparts : ∀ t ∈ f.parts, a.Live t := fun t ht => by
    obtain ⟨u, -, hsame⟩ := forall₂_left h.related ht
    exact live_left hsame
  have hparts' : ∀ t ∈ g.parts, b.Live t := fun t ht => by
    obtain ⟨u, -, hsame⟩ := forall₂_left h.symm.related ht
    exact live_right hsame
  have hleft := prefix_intern a f
  have hright := prefix_intern b g
  refine ⟨hleft, hright, ⟨hab.linked, hab.left.intern hf hparts,
    hab.right.intern (h.isNamed_eq ▸ hf) hparts', trivial⟩, .ok ?_⟩
  have hform := congrArg (Option.map (TypeForm.shift base.shift)) (forms_intern a f)
  rw [Option.map_some, TypeForm.shift_eq_self hf] at hform
  exact same_of_forms ((getElem?_shift ..).trans hform) (forms_intern b g)
    (h.mono fun _ _ h => types_mono h hleft hright)

theorem agree_tuple (hab : Aligned base a b) {ss ts : List TypeId}
    (h : List.Forall₂ (Types base a b) ss ts) :
    Agree base (fun R => R) (modifyGet fun a => a.tuple ss) (modifyGet fun b => b.tuple ts) a b := by
  cases h with
  | nil => exact .pure hab hab.same_unit
  | cons hst h => exact agree_intern hab rfl (.tuple (.cons hst h))

end Reading

/-! ### One arena -/

section Own

variable {base a : Arena} {s t : TypeId}

theorem types_same {a b : Arena} : Types (.same base) a b = Same a b :=
  congrArg (Same · b) (shift_zero a)

theorem linked_same (ha : a.Sound) : (Ground.same a).Linked := by
  refine ⟨ha, ha, fun s t hst => ?_⟩
  rw [types_same] at hst ⊢
  have hself {u : TypeId} (hu : a.Live u) : Same a a u u :=
    Arena.same_of_base ha (List.prefix_refl _) (List.prefix_refl _) hu
  obtain rfl := Same.right_unique ha (hself hst.live_left) hst
  show Option.Rel (Layout.Alike (Same a a)) (a.layout? s) (a.layout? s)
  cases hl : a.layout? s with
  | none => exact .none
  | some l =>
    obtain ⟨l₁, l₂, heq, -⟩ := List.lookup_eq_some_iff.1 hl
    have hmem : (s, l) ∈ a.layouts := heq ▸ List.mem_append_right _ List.mem_cons_self
    exact .some (Layout.alike_self fun x hx => hself (ha.members s l hmem x hx))

theorem aligned_self (ha : a.Sound) : Aligned (.same a) a a :=
  ⟨linked_same ha, .refl ha, .refl ha, trivial⟩

end Own

/-! ### Scopes -/

/-- The type that `Self` stands for is a type of the base. -/
def Scope.Within (scope : Scope) (base : Arena) : Prop :=
  ∀ t, scope.selfType = some t → base.Live t

/-- Scopes in which names stand for corresponding types. -/
structure Scope.Agrees (base : Ground) (scope scope' : Scope) : Prop where
  structs : ∀ name, Option.Rel (Types base base.left base.right)
    (base.left.findStruct name scope.owner) (base.right.findStruct name scope'.owner)
  enums : ∀ name, Option.Rel (Types base base.left base.right)
    (base.left.findEnum name scope.owner) (base.right.findEnum name scope'.owner)
  selfType : Option.Rel (Types base base.left base.right) scope.selfType scope'.selfType
  generics : scope'.generics = scope.generics
  strict : scope'.strict = scope.strict
  file : scope'.file = scope.file

section Scopes

variable {base : Ground} {a b : Arena} {scope scope' : Scope} {t : TypeId}

theorem Scope.Agrees.locate_eq (hs : scope.Agrees base scope') (pos : Position) :
    scope'.locate pos = scope.locate pos := by rw [Scope.locate, Scope.locate, hs.file]

theorem Agree.refuse {σ α : Type} [Typed σ] {V : (TypeId → TypeId → Prop) → α → α → Prop} {x y : σ}
    {what : Construct} {pos : Position} (hs : scope.Agrees base scope') (hxy : Aligned base x y) :
    Agree base V (scope.refuse what pos) (scope'.refuse what pos) x y := by
  rw [Scope.refuse, Scope.refuse, hs.locate_eq]
  exact .throw hxy

theorem Scope.Agrees.withGenerics (hs : scope.Agrees base scope') (names : List String) :
    (scope.withGenerics names).Agrees base (scope'.withGenerics names) :=
  ⟨hs.structs, hs.enums, hs.selfType, congrArg (· ++ names) hs.generics, hs.strict, hs.file⟩

theorem Scope.Within.agrees {base : Arena} (hs : scope.Within base) (hbase : base.Sound) :
    scope.Agrees (.same base) scope := by
  have hlive {o : Option TypeId} (ho : ∀ t, o = some t → base.Live t) :
      Option.Rel (Types (.same base) base base) o o := by
    cases o with
    | none => exact .none
    | some t =>
      refine .some ?_
      rw [types_same]
      exact Arena.same_of_base hbase (List.prefix_refl _) (List.prefix_refl _) (ho t rfl)
  refine ⟨fun name => hlive fun t ht => ?_, fun name => hlive fun t ht => ?_, hlive hs, rfl, rfl, rfl⟩
  · exact live_of_forms (lookup_eq_some ht)
  · exact live_of_forms (lookup_eq_some ht)

theorem Aligned.findStruct (h : Aligned base a b) (hs : scope.Agrees base scope') (name : String) :
    Option.Rel (Types base a b) (a.findStruct name scope.owner) (b.findStruct name scope'.owner) := by
  rw [Arena.findStruct, Arena.findStruct, h.grown_left.widened.lookup_named rfl,
    h.grown_right.widened.lookup_named rfl]
  exact optionRel_imp (hs.structs name) fun _ _ => h.same_of_base

theorem Aligned.findEnum (h : Aligned base a b) (hs : scope.Agrees base scope') (name : String) :
    Option.Rel (Types base a b) (a.findEnum name scope.owner) (b.findEnum name scope'.owner) := by
  rw [Arena.findEnum, Arena.findEnum, h.grown_left.widened.lookup_named rfl,
    h.grown_right.widened.lookup_named rfl]
  exact optionRel_imp (hs.enums name) fun _ _ => h.same_of_base

theorem Aligned.selfType (h : Aligned base a b) (hs : scope.Agrees base scope') :
    Option.Rel (Types base a b) scope.selfType scope'.selfType :=
  optionRel_imp hs.selfType fun _ _ => h.same_of_base

theorem Scope.Agrees.same_self (hs : scope.Agrees base scope') (h : Aligned base a b) :
    Types base a b (scope.selfType.getD .unknown) (scope'.selfType.getD .unknown) :=
  optionRel_getD (h.selfType hs) h.same_unknown

theorem lt_of_primitive? {name : String} (h : TypeId.primitive? name = some t) :
    t.index < TypeForm.primitives.length := by
  unfold TypeId.primitive? at h
  split at h <;> cases h <;> decide

theorem agree_resolvePath (hs : scope.Agrees base scope') (hab : Aligned base a b) (p : Ast.Path) :
    Agree base (fun R => R) (scope.resolvePath p) (scope'.resolvePath p) a b := by
  refine .get ?_
  dsimp only
  rw [hs.generics, hs.strict, hs.locate_eq]
  split
  · rename_i t ht
    split at ht
    · exact .pure hab (hab.same_of_lt (lt_of_primitive? ht))
    · cases ht
  · split
    · exact .pure hab (hs.same_self hab)
    · split
      · exact .pure hab hab.same_unknown
      · have hfind : Option.Rel (Types base a b) (a.findNamed p.last.name scope.owner)
            (b.findNamed p.last.name scope'.owner) :=
          optionRel_or (hab.findStruct hs _) (hab.findEnum hs _)
        rcases optionRel_cases hfind with ⟨ha, hb⟩ | ⟨t, u, ha, hb, htu⟩
        · rw [ha, hb]
          dsimp only
          split
          · exact .throw hab
          · exact .pure hab hab.same_unknown
        · rw [ha, hb]
          exact .pure hab htu

mutual

/-- **A written type resolves to corresponding types.** -/
theorem agree_resolve (hs : scope.Agrees base scope') {a b : Arena} (hab : Aligned base a b) :
    ∀ t : Ast.TypeExpr, Agree base (fun R => R) (scope.resolve t) (scope'.resolve t) a b
  | .paren t => by
    exact agree_resolve hs hab t
  | .tuple ts => by
    exact (agree_resolveAll hs hab ts).bind fun es es' a b _ hab hes => agree_tuple hab hes
  | .array t length => by
    refine (agree_resolve hs hab t).bind fun e e' a b _ hab he => ?_
    cases length with
    | some n => exact agree_intern hab rfl (.array n he)
    | none => exact .pure hab hab.same_unknown
  | .pointer mutable t => by
    refine (agree_resolve hs hab t).bind fun e e' a b _ hab he => ?_
    exact agree_intern hab rfl (.pointer mutable he)
  | .reference mutable t => by
    refine (agree_resolve hs hab t).bind fun e e' a b _ hab he => ?_
    exact agree_intern hab rfl (.reference mutable he)
  | .path p => by
    simp only [Scope.resolve]
    split
    · exact .pure hab hab.same_unknown
    · exact agree_resolvePath hs hab p
  | .bareBound _ => by
    exact .pure hab hab.same_unknown
  | .other => by
    exact .pure hab hab.same_unknown

theorem agree_resolveAll (hs : scope.Agrees base scope') {a b : Arena} (hab : Aligned base a b) :
    ∀ ts : List Ast.TypeExpr,
      Agree base (fun R => List.Forall₂ R) (scope.resolveAll ts) (scope'.resolveAll ts) a b
  | [] => by
    exact .pure hab .nil
  | t :: ts => by
    refine (agree_resolve hs hab t).bind fun e e' a b _ hab he => ?_
    refine (agree_resolveAll hs hab ts).bind fun es es' a b hmono hab hes => ?_
    exact .pure hab (.cons (hmono _ _ he) hes)

end

end Scopes

end RustFlow
