/-
# An expression and its term have the same parts

Lowering turns an expression into a term, and the expressions in it into the terms in that
term.  Nothing else happens: every part of the expression that has a value becomes a term
that stands in the whole term, and every term that stands there came from such a part
(`Covers`, `covers_lowerExpr`).  One term has no expression of its own, the operation that a
compound assignment stands for.

Parts are lowered one after the other, so a part is lowered in a context that the parts
before it have reached and that the parts after it go on from (`Became`).  All that happens
to a context on the way is that composites are interned and variables are bound
(`Context.Grew`).  So what structs and enums there are, and what their members are, is the
same whenever it is looked up.
-/

import RustFlow.Proofs.Bindings
import RustFlow.Proofs.FieldOrder
import RustFlow.Proofs.Growth
import RustFlow.Proofs.TypedTerms

namespace RustFlow

open Attempt

/-! ### Arenas that grow by composites -/

namespace Arena

variable {a b c : Arena} {f : TypeForm} {t : TypeId}

/-- An arena and what it becomes when forms other than structs and enums are added. -/
structure Enlarged (a b : Arena) : Prop where
  forms : ∃ new : List TypeForm, a.forms ++ new = b.forms ∧ ∀ f ∈ new, f.isNamed = false
  layouts : b.layouts = a.layouts

theorem Enlarged.refl (a : Arena) : Enlarged a a := ⟨⟨[], List.append_nil _, by simp⟩, rfl⟩

theorem Enlarged.trans (hab : Enlarged a b) (hbc : Enlarged b c) : Enlarged a c := by
  obtain ⟨new, hforms, hnew⟩ := hab.forms
  obtain ⟨new', hforms', hnew'⟩ := hbc.forms
  refine ⟨⟨new ++ new', ?_, List.forall_mem_append.2 ⟨hnew, hnew'⟩⟩,
    hbc.layouts.trans hab.layouts⟩
  rw [← List.append_assoc, hforms, hforms']

theorem enlarged_intern (a : Arena) (hf : f.isNamed = false) : Enlarged a (a.intern f).2 := by
  refine ⟨?_, layouts_intern a f⟩
  unfold intern
  split
  · exact ⟨[], List.append_nil _, by simp⟩
  · exact ⟨[f], rfl, List.forall_mem_singleton.2 hf⟩

theorem upward_enlarged : Upward Enlarged := ⟨.refl, .trans, fun a _ hf => enlarged_intern a hf⟩

theorem Enlarged.lookup_eq (h : Enlarged a b) (hf : f.isNamed = true) : b.lookup f = a.lookup f := by
  obtain ⟨new, hforms, hnew⟩ := h.forms
  cases ha : a.lookup f with
  | some t => exact lookup_mono ⟨new, hforms⟩ ha
  | none =>
    rw [lookup_eq_none] at ha ⊢
    rw [← hforms, List.mem_append, not_or]
    refine ⟨ha, fun hmem => ?_⟩
    rw [hnew f hmem] at hf
    cases hf

theorem Enlarged.form_cases (h : Enlarged a b) (t : TypeId) :
    b.form t = a.form t ∨ a.form t = .unknown ∧ (b.form t).isNamed = false := by
  obtain ⟨new, hforms, hnew⟩ := h.forms
  by_cases ht : a.Live t
  · exact .inl (ht.form_eq ⟨new, hforms⟩)
  · have hnone : a.forms[t.index]? = none := List.getElem?_eq_none (Nat.not_lt.1 ht)
    refine .inr ⟨by rw [form, hnone]; rfl, ?_⟩
    unfold form
    rw [← hforms, List.getElem?_append_right (Nat.not_lt.1 ht)]
    cases hget : new[t.index - a.forms.length]? with
    | none => rfl
    | some f => exact hnew f (List.mem_of_getElem? hget)

theorem Enlarged.isStruct_eq (h : Enlarged a b) (t : TypeId) : b.isStruct t = a.isStruct t := by
  unfold isStruct
  rcases h.form_cases t with hsame | ⟨hunknown, hnamed⟩
  · rw [hsame]
  · rw [hunknown]
    cases hform : b.form t with
    | struct => rw [hform] at hnamed; cases hnamed
    | _ => rfl

theorem Enlarged.isEnum_eq (h : Enlarged a b) (t : TypeId) : b.isEnum t = a.isEnum t := by
  unfold isEnum
  rcases h.form_cases t with hsame | ⟨hunknown, hnamed⟩
  · rw [hsame]
  · rw [hunknown]
    cases hform : b.form t with
    | enum => rw [hform] at hnamed; cases hnamed
    | _ => rfl

theorem Enlarged.layout?_eq (h : Enlarged a b) (t : TypeId) : b.layout? t = a.layout? t := by
  rw [layout?, layout?, h.layouts]

theorem Enlarged.variant?_eq (h : Enlarged a b) (t : TypeId) (name : String) :
    b.variant? t name = a.variant? t name := by
  rw [variant?, variant?, variants, variants, h.layout?_eq]

end Arena

open Arena

namespace Scope

variable {scope : Scope} {a b : Arena}

theorem structNamed_enlarged (h : Enlarged a b) (name : String) :
    scope.structNamed b name = scope.structNamed a name := by
  have hsame : b.isStruct = a.isStruct := funext h.isStruct_eq
  rw [structNamed, structNamed, hsame, findStruct, findStruct, h.lookup_eq rfl]

theorem structOf_enlarged (h : Enlarged a b) (p : Ast.Path) :
    scope.structOf b p = scope.structOf a p :=
  congrArg p.ident?.bind (funext (structNamed_enlarged h))

theorem enumNamed_enlarged (h : Enlarged a b) (name : String) :
    scope.enumNamed b name = scope.enumNamed a name := by
  have hsame : b.isEnum = a.isEnum := funext h.isEnum_eq
  rw [enumNamed, enumNamed, hsame, findEnum, findEnum, h.lookup_eq rfl]

theorem variantOf_enlarged (h : Enlarged a b) (p : Ast.Path) :
    (scope.variantOf b p).map EnumVariant.variant = (scope.variantOf a p).map EnumVariant.variant := by
  unfold variantOf
  cases p.qualifier.getLast? with
  | none => rfl
  | some owner =>
    simp only [Option.bind_eq_bind, Option.bind_some, enumNamed_enlarged h]
    cases scope.enumNamed a owner.name with
    | none => rfl
    | some type =>
      simp only [Option.bind_some, h.variant?_eq]
      cases a.variant? type p.last.name <;> rfl

end Scope

/-! ### Contexts that grow -/

namespace Context

variable {c d e : Context}

/-- A context and what it becomes when composites are interned and variables bound. -/
structure Grew (c d : Context) : Prop where
  arena : Enlarged c.arena d.arena
  locals : c.locals <:+ d.locals

theorem Grew.refl (c : Context) : c.Grew c := ⟨.refl _, List.suffix_refl _⟩

theorem Grew.trans (hcd : c.Grew d) (hde : d.Grew e) : c.Grew e :=
  ⟨hcd.arena.trans hde.arena, hcd.locals.trans hde.locals⟩

end Context

/-- A run that, if it succeeds, only grows its context, and what then holds of its result and
of the context it leaves. -/
def Grows {α : Type} (m : Attempt Context α) (c : Context) (Q : α → Context → Prop) : Prop :=
  ∀ v d, m c = (.ok v, d) → c.Grew d ∧ Q v d

namespace Grows

variable {α β : Type} {m : Attempt Context α} {c : Context} {Q : α → Context → Prop}
  {S : β → Context → Prop}

theorem pure {v : α} (h : Q v c) : Grows (Pure.pure v) c Q := by
  intro w d hrun
  cases hrun
  exact ⟨.refl c, h⟩

theorem throw (e : Error) : Grows (MonadExcept.throw e) c Q := fun _ _ hrun => by cases hrun

theorem refuse {scope : Scope} (what : Construct) (pos : Position) :
    Grows (scope.refuse what pos) c Q := .throw _

theorem bind {next : α → Attempt Context β} (h : Grows m c Q)
    (hnext : ∀ v d, c.Grew d → Q v d → Grows (next v) d S) : Grows (m >>= next) c S := by
  intro w e hrun
  obtain ⟨v, d, hm, hn⟩ := bind_ok hrun
  obtain ⟨hcd, hv⟩ := h v d hm
  obtain ⟨hde, hw⟩ := hnext v d hcd hv w e hn
  exact ⟨hcd.trans hde, hw⟩

theorem map {g : α → β} (h : Grows m c Q) (hg : ∀ v d, Q v d → S (g v) d) : Grows (g <$> m) c S := by
  intro w d hrun
  obtain ⟨v, hm, rfl⟩ := map_ok hrun
  obtain ⟨hcd, hv⟩ := h v d hm
  exact ⟨hcd, hg v d hv⟩

theorem get {next : Context → Attempt Context β} (h : Grows (next c) c S) :
    Grows (MonadState.get >>= next) c S := h

theorem onArena {m : Attempt Arena α} (h : Rises Enlarged m) :
    Grows (Context.onArena m) c fun _ _ => True := by
  intro v d hrun
  obtain ⟨a, hm, rfl⟩ := zoom_ok hrun
  refine ⟨⟨?_, List.suffix_refl _⟩, trivial⟩
  have hrise := h c.arena
  rwa [hm] at hrise

theorem bindPattern (p : Pattern) (type : TypeId) :
    Grows (modify fun c => c.bindPattern p type) c fun _ _ => True := by
  intro v d hrun
  cases hrun
  obtain ⟨typed, -, hfront⟩ := Locals.recorded_bindPattern c.arena p type
  exact ⟨⟨.refl _, ⟨_, (hfront c.locals).symm⟩⟩, trivial⟩

end Grows

/-! ### Expressions with a value -/

namespace Ast

/-- The end of a range pattern as an expression. -/
def Bound.constants : Option Bound → List Expr
  | some (.literal pos lit) => [.literal pos lit]
  | some (.path p) => [.path p.pos p]
  | some (.constBlock _) | none => []

mutual

/-- The constants that a pattern compares with, left to right. -/
def Pat.constants : Pat → List Expr
  | .binding .. | .path .. | .rest .. | .wild .. | .other .. => []
  | .reference _ _ p | .paren _ p => p.constants
  | .struct _ _ fields _ => constantsOfFields fields
  | .tupleStruct _ _ ps | .tuple _ ps | .alternatives _ ps => constantsOfAll ps
  | .literal pos lit => [.literal pos lit]
  | .range _ start stop _ => Bound.constants start ++ Bound.constants stop

def constantsOfAll : List Pat → List Expr
  | [] => []
  | p :: ps => p.constants ++ constantsOfAll ps

def constantsOfFields : List FieldPat → List Expr
  | [] => []
  | .mk _ p :: fields => p.constants ++ constantsOfFields fields

end

/-- Whether an expression becomes one term.  Parentheses leave no trace, and what branches or
jumps, or assigns what does, becomes nodes. -/
def Expr.isTerm : Expr → Bool
  | .paren .. | .block .. => false
  | .assign _ _ r => !r.isControlFlow
  | e => !e.isControlFlow

mutual

/-- The expressions whose values are computed when an expression is evaluated, at any depth.
A callee is a name and has no value; the arguments of a macro are only tokens. -/
def Expr.evaluated (e : Expr) : List Expr :=
  (if e.isTerm then [e] else []) ++
    match e with
    | .literal .. | .path .. | .macroCall .. | .next .. | .verbatim .. => []
    | .binary _ _ l r | .compound _ _ l r | .assign _ l r | .index _ l r => l.evaluated ++ r.evaluated
    | .unary _ _ e | .borrow _ _ e | .cast _ e _ | .tupleField _ e _ | .field _ e _
    | .arrayRepeat _ e _ | .paren _ e => e.evaluated
    | .range _ start stop _ => evaluatedOption start ++ evaluatedOption stop
    | .test _ p e => p.constants ++ e.evaluated
    | .methodCall _ e _ es => e.evaluated ++ evaluatedAll es
    | .call _ _ es | .tuple _ es | .array _ es | .other _ _ es => evaluatedAll es
    | .structLit _ _ fields _ => evaluatedInits fields
    | .block _ _ body | .unsafeBlock _ body | .loop _ _ body => body.evaluated
    | .branch _ clauses otherwise =>
      evaluatedClauses clauses ++ if clauses.isEmpty then [] else evaluatedOtherwise otherwise
    | .matchOn _ e arms => e.evaluated ++ evaluatedArms arms
    | .whileLoop _ _ e body => e.evaluated ++ body.evaluated
    | .forLoop _ _ p e body => e.evaluated ++ p.constants ++ body.evaluated
    | .ret _ e | .leave _ _ e => evaluatedOption e

def evaluatedOption : Option Expr → List Expr
  | none => []
  | some e => e.evaluated

def evaluatedAll : List Expr → List Expr
  | [] => []
  | e :: es => e.evaluated ++ evaluatedAll es

def evaluatedInits : List FieldInit → List Expr
  | [] => []
  | .mk _ e :: fields => e.evaluated ++ evaluatedInits fields

def Block.evaluated : Block → List Expr
  | .mk _ stmts => evaluatedStmts stmts

def evaluatedStmts : List Stmt → List Expr
  | [] => []
  | s :: stmts => s.evaluated ++ evaluatedStmts stmts

def Stmt.evaluated : Stmt → List Expr
  | .bind _ p _ init _ => p.constants ++ evaluatedOption init
  | .expr e _ => e.evaluated
  | .useDecl | .item _ => []

def evaluatedClauses : List Clause → List Expr
  | [] => []
  | .mk e body :: clauses => e.evaluated ++ body.evaluated ++ evaluatedClauses clauses

def evaluatedOtherwise : Option Block → List Expr
  | none => []
  | some body => body.evaluated

def evaluatedArms : List Arm → List Expr
  | [] => []
  | .mk p guard body :: arms =>
    p.constants ++ evaluatedOption guard ++ body.evaluated ++ evaluatedArms arms

end

end Ast

open Ast

/-! ### Parts of expressions and of terms -/

variable {scope : Scope} {c d e : Context} {x : Expr} {xs ys : List Expr} {t u : Term}
  {ts us : List Term}

/-- A term that stands in one of a list. -/
def Term.Among (u : Term) (ts : List Term) : Prop := ∃ t ∈ ts, u.Within t

theorem Term.among_cons : u.Among (t :: ts) ↔ u.Within t ∨ u.Among ts := by
  simp [Term.Among]

theorem Term.among_append : u.Among (ts ++ us) ↔ u.Among ts ∨ u.Among us := by
  simp only [Term.Among, List.mem_append, or_and_right, exists_or]

theorem Term.not_among_nil : ¬u.Among [] := by simp [Term.Among]

theorem Term.within_iff : u.Within t ↔ u = t ∨ u.Among t.form.parts := by
  constructor
  · intro h
    cases h with
    | self => exact .inl rfl
    | part hmem hu => exact .inr ⟨_, hmem, hu⟩
  · rintro (rfl | ⟨v, hmem, hu⟩)
    · exact .self u
    · exact .part hmem hu

/-- What an expression became, somewhere between two contexts. -/
def Became (scope : Scope) (c d : Context) (x : Expr) (u : Term) : Prop :=
  ∃ c₁ d₁, c.Grew c₁ ∧ scope.lowerExpr x c₁ = (.ok u, d₁) ∧ d₁.Grew d

theorem Became.mono {c' d' : Context} (h : Became scope c d x u) (hc : c'.Grew c) (hd : d.Grew d') :
    Became scope c' d' x u := by
  obtain ⟨c₁, d₁, hc₁, hrun, hd₁⟩ := h
  exact ⟨c₁, d₁, hc.trans hc₁, hrun, hd₁.trans hd⟩

/-- Whether a term is an operation on two operands. -/
def Term.isOperation (t : Term) : Bool :=
  match t.form with
  | .binary .. => true
  | _ => false

/-- **Expressions and terms with the same parts**: each of the expressions became a term that
stands among the terms, and each term that stands there came from one of them or is the
operation of a compound assignment. -/
structure Covers (scope : Scope) (c d : Context) (xs : List Expr) (ts : List Term) : Prop where
  kept : ∀ x ∈ xs, ∃ u : Term, u.Among ts ∧ Became scope c d x u
  made : ∀ u : Term, u.Among ts → (∃ x ∈ xs, Became scope c d x u) ∨ u.isOperation = true

namespace Covers

theorem nil : Covers scope c d [] [] :=
  ⟨fun _ hx => (List.not_mem_nil hx).elim, fun _ hu => (Term.not_among_nil hu).elim⟩

theorem mono {c' d' : Context} (h : Covers scope c d xs ts) (hc : c'.Grew c) (hd : d.Grew d') :
    Covers scope c' d' xs ts where
  kept x hx := by
    obtain ⟨u, hu, hbecame⟩ := h.kept x hx
    exact ⟨u, hu, hbecame.mono hc hd⟩
  made u hu := (h.made u hu).imp_left fun ⟨x, hx, hbecame⟩ => ⟨x, hx, hbecame.mono hc hd⟩

theorem append (h : Covers scope c d xs ts) (h' : Covers scope c d ys us) :
    Covers scope c d (xs ++ ys) (ts ++ us) where
  kept x hx := by
    rcases List.mem_append.1 hx with hx | hx
    · obtain ⟨u, hu, hbecame⟩ := h.kept x hx
      exact ⟨u, Term.among_append.2 (.inl hu), hbecame⟩
    · obtain ⟨u, hu, hbecame⟩ := h'.kept x hx
      exact ⟨u, Term.among_append.2 (.inr hu), hbecame⟩
  made u hu := by
    rcases Term.among_append.1 hu with hu | hu
    · exact (h.made u hu).imp_left fun ⟨x, hx, hb⟩ => ⟨x, List.mem_append_left _ hx, hb⟩
    · exact (h'.made u hu).imp_left fun ⟨x, hx, hb⟩ => ⟨x, List.mem_append_right _ hx, hb⟩

theorem andThen (h : Covers scope c d xs ts) (hcd : c.Grew d) (h' : Covers scope d e ys us)
    (hde : d.Grew e) : Covers scope c e (xs ++ ys) (ts ++ us) :=
  (h.mono (.refl c) hde).append (h'.mono hcd (.refl e))

theorem perm (h : Covers scope c d xs ts) (hperm : ts.Perm us) : Covers scope c d xs us := by
  have hamong (u : Term) : u.Among us ↔ u.Among ts := by
    simp only [Term.Among, hperm.mem_iff]
  exact ⟨fun x hx => by simpa only [hamong] using h.kept x hx, fun u hu => h.made u ((hamong u).1 hu)⟩

theorem whole (hrun : scope.lowerExpr x c = (.ok t, d)) (h : Covers scope c d xs t.form.parts) :
    Covers scope c d (x :: xs) [t] where
  kept y hy := by
    rcases List.mem_cons.1 hy with rfl | hy
    · exact ⟨t, Term.among_cons.2 (.inl (.self t)), c, d, .refl c, hrun, .refl d⟩
    · obtain ⟨u, hu, hbecame⟩ := h.kept y hy
      exact ⟨u, Term.among_cons.2 (.inl (Term.within_iff.2 (.inr hu))), hbecame⟩
  made u hu := by
    rcases Term.among_cons.1 hu with hu | hu
    · rcases Term.within_iff.1 hu with rfl | hu
      · exact .inl ⟨x, List.mem_cons_self, c, d, .refl c, hrun, .refl d⟩
      · exact (h.made u hu).imp_left fun ⟨y, hy, hb⟩ => ⟨y, List.mem_cons_of_mem _ hy, hb⟩
    · exact (Term.not_among_nil hu).elim

theorem operation {op : BinaryOp} {l r : Term} {type : TypeId} {pos : Position}
    (h : Covers scope c d xs [l, r]) : Covers scope c d xs [l, .mk (.binary op l r) type pos] := by
  have hinner (u : Term) : u.Within (.mk (.binary op l r) type pos) ↔
      u = .mk (.binary op l r) type pos ∨ u.Among [l, r] := Term.within_iff
  refine ⟨fun x hx => ?_, fun u hu => ?_⟩
  · obtain ⟨u, hu, hbecame⟩ := h.kept x hx
    refine ⟨u, Term.among_cons.2 (.inr (Term.among_cons.2 (.inl ?_))), hbecame⟩
    exact (hinner u).2 (.inr hu)
  · rcases Term.among_cons.1 hu with hu | hu
    · exact h.made u (Term.among_cons.2 (.inl hu))
    · rcases Term.among_cons.1 hu with hu | hu
      · rcases (hinner u).1 hu with rfl | hu
        · exact .inr rfl
        · exact h.made u hu
      · exact (Term.not_among_nil hu).elim

end Covers

theorem Grows.whole (hx : x.evaluated = x :: xs)
    (h : Grows (scope.lowerExpr x) c fun t d => Covers scope c d xs t.form.parts) :
    Grows (scope.lowerExpr x) c fun t d => Covers scope c d x.evaluated [t] := by
  intro t d hrun
  obtain ⟨hgrew, hparts⟩ := h t d hrun
  rw [hx]
  exact ⟨hgrew, .whole hrun hparts⟩

/-! ### Literals, paths and patterns -/

theorem covers_lowerLit (pos : Position) (lit : Lit) :
    Grows (scope.lowerLit pos lit) c fun t d => Covers scope c d [.literal pos lit] [t] := by
  have hparts : Grows (scope.lowerExpr (.literal pos lit)) c fun t d =>
      Covers scope c d [] t.form.parts := by
    simp only [Scope.lowerExpr, Scope.lowerLit]
    split
    · split
      · exact .refuse _ _
      · exact .pure .nil
    · exact .pure .nil
    · exact .pure .nil
    · exact .pure .nil
    · exact .pure .nil
    · exact (Grows.onArena fun a => enlarged_intern a rfl).bind fun _ _ _ _ => .pure .nil
    · exact .refuse _ _
  have hwhole := hparts.whole rfl
  simp only [Scope.lowerExpr] at hwhole
  exact hwhole

theorem parts_pathTerm (c : Context) (p : Path) (pos : Position) :
    (scope.pathTerm c p pos).form.parts = [] := by
  unfold Scope.pathTerm
  split
  · split <;> rfl
  · split <;> rfl

theorem covers_lowerPath (p : Path) (pos : Position) :
    Grows (scope.lowerPath p pos) c fun t d => Covers scope c d [.path pos p] [t] := by
  have hparts : Grows (scope.lowerExpr (.path pos p)) c fun t d =>
      Covers scope c d [] t.form.parts := by
    simp only [Scope.lowerExpr, Scope.lowerPath]
    split
    · exact .refuse _ _
    · refine .get (.pure ?_)
      rw [parts_pathTerm]
      exact .nil
  have hwhole := hparts.whole rfl
  simp only [Scope.lowerExpr] at hwhole
  exact hwhole

theorem covers_lowerBound (o : Option Bound) :
    Grows (scope.lowerBound o) c fun v d => Covers scope c d (Bound.constants o) v.toList := by
  unfold Scope.lowerBound
  split
  · exact .pure .nil
  · exact (covers_lowerLit _ _).map fun _ _ h => h
  · exact (covers_lowerPath _ _).map fun _ _ h => h
  · exact .refuse _ _

mutual

theorem covers_lowerPat {c : Context} : ∀ p : Pat,
    Grows (scope.lowerPat p) c fun q d => Covers scope c d p.constants q.terms
  | .binding _ name mutable => by
    exact .pure .nil
  | .reference _ mutable p => by
    exact (covers_lowerPat p).bind fun q d _ hq => .pure hq
  | .struct pos p fields rest => by
    simp only [Scope.lowerPat]
    split
    · exact .refuse _ _
    · exact .get ((covers_lowerFieldPats fields).bind fun qs d _ hqs => .pure hqs)
  | .tupleStruct pos p ps => by
    simp only [Scope.lowerPat]
    split
    · exact .refuse _ _
    · exact (covers_lowerPats ps).bind fun qs d _ hqs => .pure hqs
  | .path _ p => by
    exact .pure .nil
  | .tuple _ ps => by
    exact (covers_lowerPats ps).bind fun qs d _ hqs => .pure hqs
  | .literal pos lit => by
    exact (covers_lowerLit pos lit).bind fun v d _ hv => .pure hv
  | .range _ start stop inclusive => by
    refine (covers_lowerBound start).bind fun u d hcd hu => ?_
    refine (covers_lowerBound stop).bind fun v e hde hv => ?_
    exact .pure (hu.andThen hcd hv hde)
  | .alternatives _ ps => by
    exact (covers_lowerPats ps).bind fun qs d _ hqs => .pure hqs
  | .rest _ => by
    exact .pure .nil
  | .wild _ => by
    exact .pure .nil
  | .paren _ p => by
    exact covers_lowerPat p
  | .other pos what => by
    exact .refuse _ _

theorem covers_lowerPats {c : Context} : ∀ ps : List Pat,
    Grows (scope.lowerPats ps) c fun qs d => Covers scope c d (constantsOfAll ps) (termsOfPatterns qs)
  | [] => by
    exact .pure .nil
  | p :: ps => by
    refine (covers_lowerPat p).bind fun q d hcd hq => ?_
    refine (covers_lowerPats ps).bind fun qs e hde hqs => ?_
    exact .pure (hq.andThen hcd hqs hde)

theorem covers_lowerFieldPats {c : Context} : ∀ fields : List FieldPat,
    Grows (scope.lowerFieldPats fields) c fun qs d =>
      Covers scope c d (constantsOfFields fields) (termsOfFields qs)
  | [] => by
    exact .pure .nil
  | .mk name p :: fields => by
    refine (covers_lowerPat p).bind fun q d hcd hq => ?_
    refine (covers_lowerFieldPats fields).bind fun qs e hde hqs => ?_
    exact .pure (hq.andThen hcd hqs hde)

end

/-! ### Literals of structs and enums -/

theorem parts_applied (a : Arena) (p : Path) (args : List Term) (pos : Position) :
    (scope.applied a p args pos).form.parts = args := by
  unfold Scope.applied
  split
  · rfl
  · split <;> rfl

/-- **A literal holds exactly the values that were supplied**, one for each declared field. -/
theorem perm_packFields {α : Type} {owner : String} {names : List String} {ps : List (String × α)}
    {values : List α} (h : packFields owner names ps = .ok values) :
    (ps.map Prod.snd).Perm values ∧ values.length = names.length := by
  obtain ⟨hlength, hpairs⟩ := packFields_ok h
  have hvalues : (names.zip values).map Prod.snd = values := List.map_snd_zip (Nat.le_of_eq hlength)
  exact ⟨hvalues ▸ (hpairs.map Prod.snd).symm, hlength⟩

theorem perm_structTerm {a : Arena} {p : Path} {supplied : List (String × Term)} {pos : Position}
    (h : scope.structTerm a p supplied pos = .ok t) :
    (supplied.map Prod.snd).Perm t.form.parts := by
  rcases structTerm_cases h with ⟨v, fields, values, -, -, hpack, rfl⟩ |
    ⟨name, type, values, -, hpack, rfl⟩ | ⟨-, rfl⟩
  · exact (perm_packFields hpack).1
  · exact (perm_packFields hpack).1
  · exact .refl _

/-! ### Expressions -/

mutual

/-- **Nothing in an expression is lost, and nothing comes in**: what has a value in the
expression and what stands in its term correspond. -/
theorem covers_lowerExpr {c : Context} : ∀ x : Expr,
    Grows (scope.lowerExpr x) c fun t d => Covers scope c d x.evaluated [t]
  | .literal pos lit => by
    exact covers_lowerLit pos lit
  | .path pos p => by
    exact covers_lowerPath p pos
  | .binary pos op l r => by
    refine .whole rfl ?_
    refine (covers_lowerExpr l).bind fun u d hcd hu => ?_
    refine (covers_lowerExpr r).bind fun v e hde hv => ?_
    exact .pure (hu.andThen hcd hv hde)
  | .compound pos op l r => by
    refine .whole rfl ?_
    refine (covers_lowerExpr l).bind fun u d hcd hu => ?_
    refine (covers_lowerExpr r).bind fun v e hde hv => ?_
    exact .pure (hu.andThen hcd hv hde).operation
  | .unary pos op x => by
    refine .whole rfl ?_
    exact (covers_lowerExpr x).bind fun u d _ hu => .get (.pure hu)
  | .borrow pos mutable x => by
    refine .whole rfl ?_
    refine (covers_lowerExpr x).bind fun u d _ hu => ?_
    refine (Grows.onArena fun a => enlarged_intern a rfl).bind fun _ e hde _ => ?_
    exact .pure (hu.mono (.refl c) hde)
  | .cast pos x target => by
    refine .whole rfl ?_
    refine (covers_lowerExpr x).bind fun u d _ hu => ?_
    refine (Grows.onArena (upward_enlarged.rises_resolve scope target.type)).bind fun _ e hde _ => ?_
    exact .get (.pure (hu.mono (.refl c) hde))
  | .range pos start stop inclusive => by
    refine .whole rfl ?_
    refine (covers_lowerOption start).bind fun u d hcd hu => ?_
    refine (covers_lowerOption stop).bind fun v e hde hv => ?_
    exact .pure (hu.andThen hcd hv hde)
  | .assign pos l r => by
    have hparts : Grows (scope.lowerExpr (.assign pos l r)) c fun t d =>
        Covers scope c d (l.evaluated ++ r.evaluated) t.form.parts := by
      refine (covers_lowerExpr l).bind fun u d hcd hu => ?_
      refine (covers_lowerExpr r).bind fun v e hde hv => ?_
      exact .pure (hu.andThen hcd hv hde)
    cases hflow : r.isControlFlow with
    | false => exact hparts.whole (by simp [Expr.evaluated, Expr.isTerm, hflow])
    | true =>
      intro t d hrun
      rw [Scope.lowerExpr] at hrun
      obtain ⟨_, c₁, -, hrun⟩ := bind_ok hrun
      obtain ⟨v, c₂, hrun, -⟩ := bind_ok hrun
      exact absurd hrun (scope.lowerExpr_isControlFlow hflow c₁ v c₂)
  | .test pos p x => by
    refine .whole rfl ?_
    refine (covers_lowerExpr x).bind fun u d hcd hu => ?_
    refine (covers_lowerPat p).bind fun q e hde hq => ?_
    refine (Grows.bindPattern q u.type).bind fun _ f hef _ => ?_
    exact .pure (((hq.mono hcd (.refl e)).append (hu.mono (.refl c) hde)).mono (.refl c) hef)
  | .index pos b i => by
    refine .whole rfl ?_
    refine (covers_lowerExpr b).bind fun u d hcd hu => ?_
    refine (covers_lowerExpr i).bind fun v e hde hv => ?_
    exact .get (.pure (hu.andThen hcd hv hde))
  | .tupleField pos b i => by
    refine .whole rfl ?_
    exact (covers_lowerExpr b).bind fun u d _ hu => .get (.pure hu)
  | .field pos b name => by
    refine .whole rfl ?_
    exact (covers_lowerExpr b).bind fun u d _ hu => .get (.pure hu)
  | .methodCall pos receiver method args => by
    refine .whole rfl ?_
    refine (covers_lowerExpr receiver).bind fun u d hcd hu => ?_
    refine (covers_lowerAll args).bind fun vs e hde hvs => ?_
    exact .pure (hu.andThen hcd hvs hde)
  | .call pos callee args => by
    refine .whole rfl ?_
    simp only [Scope.lowerExpr]
    split
    · split
      · exact .refuse _ _
      · refine (covers_lowerAll args).bind fun vs d _ hvs => .get (.pure ?_)
        rw [parts_applied]
        exact hvs
    · exact .refuse _ _
  | .structLit pos p fields rest => by
    refine .whole rfl ?_
    simp only [Scope.lowerExpr]
    split
    · exact .refuse _ _
    · split
      · exact .refuse _ _
      · refine (covers_lowerInits fields).bind fun supplied d _ hvs => .get ?_
        split
        · rename_i t ht
          exact .pure (hvs.perm (perm_structTerm ht))
        · exact .throw _
  | .tuple pos xs => by
    refine .whole rfl ?_
    simp only [Scope.lowerExpr]
    split
    · rename_i hempty
      obtain rfl := List.isEmpty_iff.1 hempty
      exact .pure .nil
    · refine (covers_lowerAll xs).bind fun vs d _ hvs => ?_
      refine (Grows.onArena (upward_enlarged.rises_tuple _)).bind fun _ e hde _ => ?_
      exact .pure (hvs.mono (.refl c) hde)
  | .array pos xs => by
    refine .whole rfl ?_
    refine (covers_lowerAll xs).bind fun vs d _ hvs => ?_
    refine (Grows.onArena fun a => enlarged_intern a rfl).bind fun _ e hde _ => ?_
    exact .pure (hvs.mono (.refl c) hde)
  | .arrayRepeat pos x length => by
    refine .whole rfl ?_
    simp only [Scope.lowerExpr]
    split
    · exact .refuse _ _
    · refine (covers_lowerExpr x).bind fun u d _ hu => ?_
      refine (Grows.onArena fun a => enlarged_intern a rfl).bind fun _ e hde _ => ?_
      exact .pure (hu.mono (.refl c) hde)
  | .paren _ x => by
    exact covers_lowerExpr x
  | .macroCall pos p tokens _ => by
    refine .whole rfl ?_
    exact .pure .nil
  | .block .. | .unsafeBlock .. | .branch .. | .matchOn .. | .whileLoop .. | .loop .. | .forLoop ..
  | .ret .. | .leave .. | .next .. | .other .. | .verbatim .. => by
    exact .refuse _ _

theorem covers_lowerOption {c : Context} : ∀ o : Option Expr,
    Grows (scope.lowerOption o) c fun v d => Covers scope c d (evaluatedOption o) v.toList
  | none => by
    exact .pure .nil
  | some x => by
    exact (covers_lowerExpr x).map fun _ _ h => h

theorem covers_lowerAll {c : Context} : ∀ xs : List Expr,
    Grows (scope.lowerAll xs) c fun ts d => Covers scope c d (evaluatedAll xs) ts
  | [] => by
    exact .pure .nil
  | x :: xs => by
    refine (covers_lowerExpr x).bind fun u d hcd hu => ?_
    refine (covers_lowerAll xs).bind fun vs e hde hvs => ?_
    exact .pure (hu.andThen hcd hvs hde)

theorem covers_lowerInits {c : Context} : ∀ fields : List FieldInit,
    Grows (scope.lowerInits fields) c fun ps d =>
      Covers scope c d (evaluatedInits fields) (ps.map Prod.snd)
  | [] => by
    exact .pure .nil
  | .mk name x :: fields => by
    refine (covers_lowerExpr x).bind fun u d hcd hu => ?_
    refine (covers_lowerInits fields).bind fun vs e hde hvs => ?_
    exact .pure (hu.andThen hcd hvs hde)

end

theorem length_lowerAll (xs : List Expr) :
    Grows (scope.lowerAll xs) c fun ts _ => ts.length = xs.length := by
  induction xs generalizing c with
  | nil =>
    exact .pure rfl
  | cons x xs ih =>
    refine (covers_lowerExpr x).bind fun t d _ _ => ?_
    exact ih.bind fun ts e _ hts => .pure (congrArg (· + 1) hts)

end RustFlow
