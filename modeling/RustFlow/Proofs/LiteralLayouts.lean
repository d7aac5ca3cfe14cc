/-
# Which literals fit the layouts of their types

A literal of a struct or an enum is written in one of three ways: a bare path, a path
applied to arguments, and a path with named fields.  Named fields are packed by the layout,
so such a literal has one value for each declared field and is only made for a variant that
has named fields.  The other two are taken as they are written: a bare path becomes a literal
without values, an applied path one with its arguments, whatever the layout declares.

So a literal that does not fit its layout comes from a bare or an applied path whose count
or form is not the declared one (`Scope.suits`), and each such path makes one, unless it
names a variable.  That is decided where the literal is made (`fits_or_mention`,
`fitsLayout_mention`); for terms at any depth it follows since the terms in a term are those
of the expressions in the expression (`covers_lowerExpr`).
-/

import RustFlow.Proofs.Coverage

namespace RustFlow

open Arena Ast

/-- How the values of a variant are written. -/
def VariantShape.payload : VariantShape → Payload
  | unit => .unit
  | tuple _ => .tuple
  | struct _ => .struct

/-- Whether a literal holds what the layout of its type declares: one value for each field of
a struct that has a layout, and for an enum the form and the number of values of the variant.
Terms of other forms always fit. -/
def Term.fitsLayout (a : Arena) (t : Term) : Bool :=
  match t.form with
  | .structLit _ values =>
    !a.isStruct t.type || (a.layout? t.type).isNone || values.length == (a.fields t.type).length
  | .enumLit _ name payload values =>
    match a.variant? t.type name with
    | some v => payload == v.shape.payload && values.length == v.shape.types.length
    | none => false
  | _ => true

/-- A path that may name a struct or a variant, and how many arguments follow it, if any do.
Parentheses leave no trace. -/
def Ast.Expr.mention? : Expr → Option (Path × Option Nat)
  | .path _ p => some (p, none)
  | .call _ (.path _ p) args => some (p, some args.length)
  | .paren _ x => x.mention?
  | _ => none

/-- Whether the struct or the variant that a path names is declared with as many values as
arguments follow it.  A variant also has to be one with a tuple, or without values if none
follow. -/
def Scope.suits (scope : Scope) (a : Arena) (p : Path) (count : Option Nat) : Bool :=
  match scope.variantOf a p, scope.structOf a p with
  | some v, _ =>
    (if count.isSome then .tuple else .unit) == v.variant.shape.payload &&
      count.getD 0 == v.variant.shape.types.length
  | none, some type => (a.layout? type).isNone || count.getD 0 == (a.fields type).length
  | none, none => true

variable {scope : Scope} {a b : Arena} {c d : Context} {x : Expr} {p : Path} {t u : Term}
  {pos : Position} {type : TypeId} {name : String} {values : List Term}

/-! ### What growing keeps -/

theorem Term.fitsLayout_enlarged (h : Enlarged a b) (t : Term) : t.fitsLayout b = t.fitsLayout a := by
  unfold fitsLayout
  simp only [h.isStruct_eq, h.layout?_eq, fields, h.variant?_eq]

theorem Term.fitsLayout_operation (h : t.isOperation = true) : t.fitsLayout a = true := by
  unfold isOperation at h
  unfold fitsLayout
  split at h
  · rename_i hform
    rw [hform]
  · cases h

theorem Context.Grew.local?_eq_none (h : c.Grew d) (hd : d.local? name = none) :
    c.local? name = none := by
  unfold Context.local? at hd ⊢
  rw [List.lookup_eq_none_iff] at hd ⊢
  exact fun v hv => hd v (h.locals.subset hv)

theorem Scope.suits_enlarged (h : Enlarged a b) (p : Path) (count : Option Nat) :
    scope.suits b p count = scope.suits a p count := by
  have hvariant := @variantOf_enlarged scope a b h p
  unfold suits
  rw [structOf_enlarged h]
  cases ha : scope.variantOf a p with
  | some v =>
    rw [ha] at hvariant
    obtain ⟨w, hw, hsame⟩ := Option.map_eq_some_iff.1 hvariant
    simp only [hw, hsame]
  | none =>
    rw [ha] at hvariant
    rw [Option.map_eq_none_iff.1 hvariant]
    simp only [h.layout?_eq, fields]

/-! ### Literals where they are made -/

theorem Scope.isStruct_structNamed (h : scope.structNamed a name = some type) :
    a.isStruct type = true := by
  unfold Arena.isStruct
  rcases structNamed_cases h with hlookup | ⟨-, -, declared, owner, hform⟩
  · rw [form_of_forms (lookup_eq_some hlookup)]
  · rw [hform]

theorem fitsLayout_structNamed (h : scope.structNamed a name = some type) (written : String) :
    (Term.mk (.structLit written values) type pos).fitsLayout a =
      ((a.layout? type).isNone || values.length == (a.fields type).length) := by
  show (!a.isStruct type || (a.layout? type).isNone || values.length == (a.fields type).length) = _
  rw [Scope.isStruct_structNamed h, Bool.not_true, Bool.false_or]

theorem fitsLayout_variantOf {v : Scope.EnumVariant} (h : scope.variantOf a p = some v)
    (payload : Payload) :
    (Term.mk (.enumLit v.enumName v.variant.name payload values) v.type pos).fitsLayout a =
      (payload == v.variant.shape.payload && values.length == v.variant.shape.types.length) := by
  obtain ⟨-, -, -, hvariant⟩ := variantOf_cases h
  show (match a.variant? v.type v.variant.name with
    | some w => payload == w.shape.payload && values.length == w.shape.types.length
    | none => false) = _
  rw [hvariant]

theorem Scope.variantOf_ident (h : p.ident? = some name) : scope.variantOf a p = none := by
  have hplain : p.isPlain = true := by
    unfold Path.ident? at h
    split at h
    · rename_i hboth
      exact (Bool.and_eq_true _ _ ▸ hboth).1
    · cases h
  have hempty : p.qualifier = [] := by
    rw [Path.isPlain, Bool.and_eq_true] at hplain
    exact List.isEmpty_iff.1 hplain.1
  rw [variantOf, hempty]
  rfl

theorem fitsLayout_pathTerm (hfree : ∀ name, p.ident? = some name → c.local? name = none) :
    (scope.pathTerm c p pos).fitsLayout c.arena = scope.suits c.arena p none := by
  unfold Scope.pathTerm Scope.suits
  cases hident : p.ident? with
  | some name =>
    rw [Scope.variantOf_ident hident, Scope.structOf, hident]
    simp only [hfree name hident, Option.bind_some]
    cases hstruct : scope.structNamed c.arena name with
    | none => rfl
    | some type => exact fitsLayout_structNamed hstruct name
  | none =>
    rw [Scope.structOf, hident]
    cases hvariant : scope.variantOf c.arena p with
    | none => rfl
    | some v => exact fitsLayout_variantOf hvariant .unit

theorem fitsLayout_variable (hident : p.ident? = some name) (hlocal : c.local? name ≠ none) :
    (scope.pathTerm c p pos).fitsLayout a = true := by
  unfold Scope.pathTerm
  rw [hident]
  dsimp only
  split
  · exact absurd ‹_› hlocal
  · rfl

theorem fitsLayout_applied (values : List Term) :
    (scope.applied a p values pos).fitsLayout a = scope.suits a p (some values.length) := by
  unfold Scope.applied Scope.suits
  cases hvariant : scope.variantOf a p with
  | some v => exact fitsLayout_variantOf hvariant .tuple
  | none =>
    cases hident : p.ident? with
    | none =>
      rw [Scope.structOf, hident]
      rfl
    | some name =>
      rw [Scope.structOf, hident]
      cases hstruct : scope.structNamed a name with
      | none => simp only [Option.bind_some, hstruct]; rfl
      | some type =>
        simp only [Option.bind_some, hstruct]
        exact fitsLayout_structNamed hstruct name

/-- **A literal with named fields fits.**  One that names no declared type has no layout to
fit. -/
theorem fitsLayout_structTerm (hunknown : a.isStruct .unknown = false)
    {supplied : List (String × Term)} (h : scope.structTerm a p supplied pos = .ok t) :
    t.fitsLayout a = true := by
  rcases structTerm_cases h with ⟨v, fields, values, hv, hshape, hpack, rfl⟩ |
    ⟨name, type, values, hnamed, hpack, rfl⟩ | ⟨-, rfl⟩
  · have hlength := (perm_packFields hpack).2
    rw [fitsLayout_variantOf hv, hshape]
    simpa [VariantShape.payload, VariantShape.types] using hlength
  · have hlength := (perm_packFields hpack).2
    rw [List.length_map] at hlength
    rw [fitsLayout_structNamed hnamed, hlength, beq_self_eq_true, Bool.or_true]
  · show (!a.isStruct .unknown || _ || _) = true
    rw [hunknown]
    rfl

/-! ### Expressions -/

theorem fitsLayout_mention {count : Option Nat} (hx : x.mention? = some (p, count))
    (hfree : count = none → ∀ name, p.ident? = some name → c.local? name = none) :
    Grows (scope.lowerExpr x) c fun u d => u.fitsLayout d.arena = scope.suits d.arena p count := by
  fun_induction Expr.mention? x with
  | case1 pos q =>
    cases hx
    simp only [Scope.lowerExpr, Scope.lowerPath]
    split
    · exact .refuse _ _
    · exact .get (.pure (fitsLayout_pathTerm (hfree rfl)))
  | case2 pos at' q args =>
    cases hx
    simp only [Scope.lowerExpr]
    split
    · exact .refuse _ _
    · refine (length_lowerAll args).bind fun values d _ hlength => .get (.pure ?_)
      rw [fitsLayout_applied, hlength]
  | case3 pos x ih =>
    exact ih hx
  | case4 => cases hx

/-- **A literal that an expression becomes fits its layout**, or the expression is a path that
does not suit. -/
theorem fits_or_mention (hunknown : c.arena.isStruct .unknown = false) : ∀ x : Expr,
    Grows (scope.lowerExpr x) c fun u d => u.fitsLayout d.arena = true ∨
      ∃ p count, x.mention? = some (p, count) ∧ scope.suits d.arena p count = false
  | .path pos p => by
    simp only [Scope.lowerExpr, Scope.lowerPath]
    split
    · exact .refuse _ _
    · refine .get (.pure ?_)
      by_cases hfree : ∀ name, p.ident? = some name → c.local? name = none
      · rw [fitsLayout_pathTerm hfree]
        cases hsuits : scope.suits c.arena p none with
        | true => exact .inl rfl
        | false => exact .inr ⟨p, none, rfl, hsuits⟩
      · obtain ⟨name, hname⟩ := not_forall.1 hfree
        obtain ⟨hident, hlocal⟩ := Classical.not_imp.1 hname
        exact .inl (fitsLayout_variable hident hlocal)
  | .call pos callee args => by
    simp only [Scope.lowerExpr]
    split
    · rename_i at' p
      split
      · exact .refuse _ _
      · refine (length_lowerAll args).bind fun values d _ hlength => .get (.pure ?_)
        rw [fitsLayout_applied, hlength]
        cases hsuits : scope.suits d.arena p (some args.length) with
        | true => exact .inl rfl
        | false => exact .inr ⟨p, some args.length, rfl, hsuits⟩
    · exact .refuse _ _
  | .structLit pos p fields rest => by
    simp only [Scope.lowerExpr]
    split
    · exact .refuse _ _
    · split
      · exact .refuse _ _
      · refine (covers_lowerInits fields).bind fun supplied d hcd _ => .get ?_
        split
        · rename_i t ht
          refine .pure (.inl (fitsLayout_structTerm ?_ ht))
          rw [hcd.arena.isStruct_eq]
          exact hunknown
        · exact .throw _
  | .paren _ x => by
    exact fits_or_mention hunknown x
  -- No other form of expression becomes a literal of a struct or an enum.
  | .literal pos lit => by
    simp only [Scope.lowerExpr, Scope.lowerLit]
    split
    · split
      · exact .refuse _ _
      · exact .pure (.inl rfl)
    · exact .pure (.inl rfl)
    · exact .pure (.inl rfl)
    · exact .pure (.inl rfl)
    · exact .pure (.inl rfl)
    · exact (Grows.onArena fun a => enlarged_intern a rfl).bind fun _ _ _ _ => .pure (.inl rfl)
    · exact .refuse _ _
  | .binary pos op l r | .compound pos op l r | .assign pos l r => by
    refine (covers_lowerExpr l).bind fun _ _ _ _ => ?_
    exact (covers_lowerExpr r).bind fun _ _ _ _ => .pure (.inl rfl)
  | .index pos l r => by
    refine (covers_lowerExpr l).bind fun _ _ _ _ => ?_
    exact (covers_lowerExpr r).bind fun _ _ _ _ => .get (.pure (.inl rfl))
  | .unary pos op x => by
    exact (covers_lowerExpr x).bind fun _ _ _ _ => .get (.pure (.inl rfl))
  | .tupleField pos x i => by
    exact (covers_lowerExpr x).bind fun _ _ _ _ => .get (.pure (.inl rfl))
  | .field pos x name => by
    exact (covers_lowerExpr x).bind fun _ _ _ _ => .get (.pure (.inl rfl))
  | .borrow pos mutable x => by
    refine (covers_lowerExpr x).bind fun _ _ _ _ => ?_
    exact (Grows.onArena fun a => enlarged_intern a rfl).bind fun _ _ _ _ => .pure (.inl rfl)
  | .cast pos x target => by
    refine (covers_lowerExpr x).bind fun _ _ _ _ => ?_
    refine (Grows.onArena (upward_enlarged.rises_resolve scope target.type)).bind fun _ _ _ _ => ?_
    exact .get (.pure (.inl rfl))
  | .range pos start stop inclusive => by
    refine (covers_lowerOption start).bind fun _ _ _ _ => ?_
    exact (covers_lowerOption stop).bind fun _ _ _ _ => .pure (.inl rfl)
  | .test pos p x => by
    refine (covers_lowerExpr x).bind fun _ _ _ _ => ?_
    refine (covers_lowerPat p).bind fun _ _ _ _ => ?_
    exact (Grows.bindPattern _ _).bind fun _ _ _ _ => .pure (.inl rfl)
  | .methodCall pos receiver method args => by
    refine (covers_lowerExpr receiver).bind fun _ _ _ _ => ?_
    exact (covers_lowerAll args).bind fun _ _ _ _ => .pure (.inl rfl)
  | .tuple pos xs => by
    simp only [Scope.lowerExpr]
    split
    · exact .pure (.inl rfl)
    · refine (covers_lowerAll xs).bind fun _ _ _ _ => ?_
      exact (Grows.onArena (upward_enlarged.rises_tuple _)).bind fun _ _ _ _ => .pure (.inl rfl)
  | .array pos xs => by
    refine (covers_lowerAll xs).bind fun _ _ _ _ => ?_
    exact (Grows.onArena fun a => enlarged_intern a rfl).bind fun _ _ _ _ => .pure (.inl rfl)
  | .arrayRepeat pos x length => by
    simp only [Scope.lowerExpr]
    split
    · exact .refuse _ _
    · refine (covers_lowerExpr x).bind fun _ _ _ _ => ?_
      exact (Grows.onArena fun a => enlarged_intern a rfl).bind fun _ _ _ _ => .pure (.inl rfl)
  | .macroCall pos p tokens _ => by
    exact .pure (.inl rfl)
  | .block .. | .unsafeBlock .. | .branch .. | .matchOn .. | .whileLoop .. | .loop .. | .forLoop ..
  | .ret .. | .leave .. | .next .. | .other .. | .verbatim .. => by
    exact .refuse _ _

/-- **The literals that do not fit.**  Of the terms that stand in what an expression becomes,
each fits the layout of its type, or it was made by a bare or applied path that does not
suit.  Each such path that names no variable makes a term that does not fit. -/
theorem lowerExpr_fitsLayout (hunknown : c.arena.isStruct .unknown = false)
    (h : scope.lowerExpr x c = (.ok t, d)) :
    (∀ u : Term, u.Within t → u.fitsLayout d.arena = true ∨
      ∃ y ∈ x.evaluated, Became scope c d y u ∧
        ∃ p count, y.mention? = some (p, count) ∧ scope.suits d.arena p count = false) ∧
    ∀ y ∈ x.evaluated, ∀ p count, y.mention? = some (p, count) →
      scope.suits d.arena p count = false →
      (count = none → ∀ name, p.ident? = some name → d.local? name = none) →
      ∃ u : Term, u.Within t ∧ Became scope c d y u ∧ u.fitsLayout d.arena = false := by
  obtain ⟨-, hcovers⟩ := covers_lowerExpr x t d h
  constructor
  · intro u hu
    rcases hcovers.made u ⟨t, List.mem_singleton.2 rfl, hu⟩ with ⟨y, hy, hbecame⟩ | hoperation
    · obtain ⟨c₁, d₁, hc₁, hrun, hd₁⟩ := id hbecame
      have hunknown₁ : c₁.arena.isStruct .unknown = false := by
        rw [hc₁.arena.isStruct_eq]
        exact hunknown
      rw [Term.fitsLayout_enlarged hd₁.arena]
      refine ((fits_or_mention hunknown₁ y u d₁ hrun).2).imp_right fun ⟨p, count, hp, hsuits⟩ => ?_
      rw [← Scope.suits_enlarged hd₁.arena] at hsuits
      exact ⟨y, hy, hbecame, p, count, hp, hsuits⟩
    · exact .inl (Term.fitsLayout_operation hoperation)
  · intro y hy p count hp hsuits hfree
    obtain ⟨u, ⟨v, hv, hu⟩, hbecame⟩ := hcovers.kept y hy
    obtain rfl := List.mem_singleton.1 hv
    obtain ⟨c₁, d₁, hc₁, hrun, hd₁⟩ := id hbecame
    have hgrew : c₁.Grew d := (covers_lowerExpr y u d₁ hrun).1.trans hd₁
    have hfits := (fitsLayout_mention hp (fun hcount name hname =>
      hgrew.local?_eq_none (hfree hcount name hname)) u d₁ hrun).2
    refine ⟨u, hu, hbecame, ?_⟩
    rw [Term.fitsLayout_enlarged hd₁.arena, hfits, ← Scope.suits_enlarged hd₁.arena]
    exact hsuits

/-- The arena of `struct P(i32, i32)` and `enum E { U, T(i32), S { x: i32 } }`. -/
def constructors : Arena where
  forms := TypeForm.primitives ++ [.struct "P" ⟨0⟩, .enum "E" ⟨0⟩]
  layouts := [(⟨20⟩, .enum [⟨"U", .unit⟩, ⟨"T", .tuple [.i32]⟩, ⟨"S", .struct [⟨"x", .i32⟩]⟩]),
    (⟨19⟩, .struct [⟨"0", .i32⟩, ⟨"1", .i32⟩])]

def constructorScope : Scope := ⟨⟨0⟩, none, [], true, "a.rs"⟩

/-- The path of `P`, or of a variant of `E`. -/
def constructorPath (qualifier : List Segment) (name : String) : Path :=
  ⟨default, false, false, qualifier, ⟨name, false⟩, name⟩

/-- A constructor as a bare path, and applied to arguments. -/
def bareConstructor (qualifier : List Segment) (name : String) : Expr :=
  .path default (constructorPath qualifier name)

def appliedConstructor (qualifier : List Segment) (name : String) (args : List Expr) : Expr :=
  .call default (bareConstructor qualifier name) args

/-- `(P(E::T(1), E::U), E::S { x: 1 })` -/
def nestedLiterals : Expr :=
  let one : Expr := .literal default (.int false 1 "")
  .tuple default
    [appliedConstructor [] "P" [appliedConstructor [⟨"E", false⟩] "T" [one],
      bareConstructor [⟨"E", false⟩] "U"],
      .structLit default (constructorPath [⟨"E", false⟩] "S") [.mk "x" one] false]

/-- All constructors are used as declared, so all literals fit. -/
theorem lowerExpr_fitsLayout_nestedLiterals :
    constructors.isStruct .unknown = false ∧
    ∃ t d, constructorScope.lowerExpr nestedLiterals ⟨constructors, []⟩ = (.ok t, d) ∧
      ∀ u : Term, u.Within t → u.fitsLayout d.arena = true := by
  have hunknown : constructors.isStruct .unknown = false := by decide
  obtain ⟨t, d, hrun⟩ : ∃ t d,
      constructorScope.lowerExpr nestedLiterals ⟨constructors, []⟩ = (.ok t, d) := ⟨_, _, rfl⟩
  refine ⟨hunknown, t, d, hrun, fun u hu => ?_⟩
  have hgrew := (covers_lowerExpr nestedLiterals t d hrun).1
  rcases (lowerExpr_fitsLayout hunknown hrun).1 u hu with hfits | ⟨y, hy, -, p, count, hp, hsuits⟩
  · exact hfits
  · rw [Scope.suits_enlarged hgrew.arena] at hsuits
    have hall : ∀ z ∈ nestedLiterals.evaluated, ∀ m ∈ z.mention?,
        constructorScope.suits constructors m.1 m.2 = true := by
      decide
    rw [hall y hy (p, count) hp] at hsuits
    cases hsuits

/-- An expression that becomes a literal whose values do not fit the declaration. -/
def Misfits (x : Expr) : Prop :=
  ∃ t d, constructorScope.lowerExpr x ⟨constructors, []⟩ = (.ok t, d) ∧ t.fitsLayout d.arena = false

/-- **Not every literal fits**: a constructor with values becomes a literal without any if it
is named and not called, and a wrong number of arguments is taken as it is. -/
theorem lowerExpr_unfit :
    Misfits (bareConstructor [] "P") ∧ Misfits (bareConstructor [⟨"E", false⟩] "T") ∧
      Misfits (appliedConstructor [] "P" [.literal default (.int false 1 "")]) ∧
      Misfits (appliedConstructor [⟨"E", false⟩] "U" [.literal default (.int false 1 "")]) := by
  refine ⟨?_, ?_, ?_, ?_⟩
  · exact ⟨_, _, rfl, by decide⟩
  · exact ⟨_, _, rfl, by decide⟩
  · exact ⟨_, _, rfl, by decide⟩
  · exact ⟨_, _, rfl, by decide⟩

end RustFlow
