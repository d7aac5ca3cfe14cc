/-
# The declarations of a file

The first two passes over a file declare its types and resolve their members.  They
skip functions and `impl` blocks (`each_declarations`), so what they leave depends on
the other items alone.  What an item comes to in the second pass is one of four cases
(`resolveItem_cases`), and the members of types are resolved alike in arenas that agree
(`agree_resolveFields`, `agree_resolveShapes`).
-/

import RustFlow.Program.Build
import RustFlow.Proofs.AgreeingBodies

namespace RustFlow

open Arena Attempt Ast

/-- Whether an item is a function or a block of methods. -/
def Ast.Item.isCode : Item → Bool
  | .function _ => true
  | .impl _ _ _ => true
  | _ => false

/-- The items that are neither functions nor blocks of methods. -/
def Ast.declarations (items : List Item) : List Item := items.filter fun i => !i.isCode

namespace Arena

variable {a : Arena} {f : TypeForm} {t : TypeId} {l : Layout}

theorem named_of_findNamed {name : String} {owner : UnitId} (h : a.findNamed name owner = some t) :
    ∃ f : TypeForm, a.forms[t.index]? = some f ∧ f.isNamed = true := by
  rcases Option.or_eq_some_iff.1 h with hs | ⟨-, he⟩
  · exact ⟨_, lookup_eq_some hs, rfl⟩
  · exact ⟨_, lookup_eq_some he, rfl⟩

theorem Sound.setLayout (ha : a.Sound) (hf : a.forms[t.index]? = some f) (hn : f.isNamed = true)
    (hl : ∀ x ∈ l.types, a.Live x) : (a.setLayout t l).Sound := by
  refine ⟨ha.toCanonical.of_forms rfl, fun u k hk => ?_, fun u k hk => ?_⟩
  · rcases List.mem_cons.1 hk with heq | hk
    · cases heq
      exact ⟨f, hf, hn⟩
    · exact ha.named u k hk
  · rcases List.mem_cons.1 hk with heq | hk
    · cases heq
      exact hl
    · exact ha.members u k hk

end Arena

namespace Program

variable {p : Program} {u : SourceUnit} {g : SourceUnit → SourceUnit}

/-- The graphs of a unit; none for an index past the end. -/
def graphs (p : Program) (id : UnitId) : List Cfg := ((p.unit? id).map SourceUnit.cfgs).getD []

theorem length_modifyUnit (p : Program) (id : UnitId) :
    (p.modifyUnit id g).units.length = p.units.length := List.length_modify ..

theorem length_addUnit (p : Program) (u : SourceUnit) :
    (p.addUnit u).units.length = p.units.length + 1 := List.length_append ..

theorem getElem?_modifyUnit (p : Program) (id : UnitId) (i : Nat) :
    (p.modifyUnit id g).units[i]? = p.units[i]?.map fun u => if id.index = i then g u else u :=
  List.getElem?_modify ..

theorem graphs_modifyUnit (hg : ∀ u, (g u).cfgs = u.cfgs) (id other : UnitId) :
    (p.modifyUnit id g).graphs other = p.graphs other := by
  unfold graphs unit?
  rw [getElem?_modifyUnit, Option.map_map]
  congr 2
  funext u
  split
  · exact hg u
  · rfl

theorem graphs_addUnit (hu : u.cfgs = []) (id : UnitId) : (p.addUnit u).graphs id = p.graphs id := by
  unfold graphs unit? addUnit
  rcases Nat.lt_trichotomy id.index p.units.length with h | h | h
  · rw [List.getElem?_append_left h]
  · rw [h, List.getElem?_concat_length, List.getElem?_eq_none (Nat.le_refl _)]
    exact hu
  · rw [List.getElem?_eq_none (Nat.le_of_lt h), List.getElem?_eq_none]
    exact Nat.le_trans (Nat.le_of_eq (length_addUnit p u)) h

end Program

theorem SourceUnit.id_addGlobal (u : SourceUnit) (g : Global) : (u.addGlobal g).id = u.id := by
  unfold addGlobal
  split <;> rfl

theorem SourceUnit.cfgs_addGlobal (u : SourceUnit) (g : Global) : (u.addGlobal g).cfgs = u.cfgs := by
  unfold addGlobal
  split <;> rfl

theorem SourceUnit.id_addGlobals (gs : List Global) (u : SourceUnit) :
    (gs.foldl addGlobal u).id = u.id := by
  induction gs generalizing u with
  | nil => rfl
  | cons g gs ih => exact (ih _).trans (u.id_addGlobal g)

theorem SourceUnit.cfgs_addGlobals (gs : List Global) (u : SourceUnit) :
    (gs.foldl addGlobal u).cfgs = u.cfgs := by
  induction gs generalizing u with
  | nil => rfl
  | cons g gs ih => exact (ih _).trans (u.cfgs_addGlobal g)

section Own

variable {α : Type} {m : Attempt Arena α} {V : (TypeId → TypeId → Prop) → α → α → Prop} {a b : Arena}

theorem Agree.grown {out : Except Error α} (h : Agree (.same a) V m m a a) (hm : m a = (out, b)) :
    Grown a b := by
  have hgrown := h.aligned.grown_left
  rwa [hm] at hgrown

theorem Agree.value {v : α} (h : Agree (.same a) V m m a a) (hm : m a = (.ok v, b)) :
    V (Same b b) v v := by
  have hsame := h.same
  rw [hm, types_same] at hsame
  cases hsame with
  | ok hvalue => exact hvalue

end Own

namespace Assembly

open Program

/-! ### What the passes skip -/

/-- A pass over items that skips code is a pass over the declarations. -/
theorem each_declarations {m : Item → Attempt Program Unit}
    (hskip : ∀ i p, i.isCode = true → m i p = (.ok (), p)) (items : List Item) (p : Program) :
    each m items p = each m (Ast.declarations items) p := by
  induction items generalizing p with
  | nil => rfl
  | cons i items ih =>
    cases hcode : i.isCode with
    | true =>
      have hrest : Ast.declarations (i :: items) = Ast.declarations items :=
        List.filter_cons_of_neg (by rw [hcode]; decide)
      rw [hrest, ← ih p, each, bind_run, hskip i p hcode]
    | false =>
      have hrest : Ast.declarations (i :: items) = i :: Ast.declarations items :=
        List.filter_cons_of_pos (by rw [hcode]; rfl)
      rw [hrest, each, each, bind_run, bind_run]
      rcases m i p with ⟨_ | _, q⟩
      · rfl
      · exact ih q

theorem declareItem_code (f : FileSetting) (i : Item) (p : Program) (h : i.isCode = true) :
    declareItem f i p = (.ok (), p) := by
  cases i <;> first | rfl | cases h

theorem resolveItem_code (f : FileSetting) (i : Item) (p : Program) (h : i.isCode = true) :
    resolveItem f i p = (.ok (), p) := by
  cases i <;> first | rfl | cases h

/-! ### What the passes do -/

variable {f : FileSetting} {p q : Program} {scope : Scope} {t : TypeId} {unit : UnitId}

theorem ok_isolate (hff : f.config.failFast = false) (item : String) (m : Attempt Program Unit)
    (p : Program) : (isolate f unit item m p).1 = .ok () := by
  unfold isolate
  rcases m p with ⟨_ | _, q⟩
  · dsimp only
    rw [hff]
    rfl
  · rfl

theorem isolate_error (hff : f.config.failFast = false) (item : String) {m : Attempt Program Unit}
    {e : Error} (h : m p = (.error e, q)) :
    isolate f unit item m p = (.ok (), q.addDiagnostic ⟨q.unitName unit, item, e⟩) := by
  rw [isolate, h]
  rw [hff]
  rfl

theorem isolate_ok (item : String) {m : Attempt Program Unit} (h : m p = (.ok (), q)) :
    isolate f unit item m p = (.ok (), q) := by rw [isolate, h]

theorem within_scope (base : Arena) : f.scope.Within base := fun _ h => by cases h

theorem within_withSelf {base : Arena} (ht : base.Live t) (generics : List String) :
    ((f.scope.withSelf t).withGenerics generics).Within base := fun _ h => by
  cases h
  exact ht

section Members

variable {base : Ground} {a b : Arena} {scope' : Scope}

theorem agree_resolveFields (hs : scope.Agrees base scope') (hab : Aligned base a b) (i : Nat)
    (decls : List FieldDecl) :
    Agree base (fun R => List.Forall₂ (Field.Alike R)) (resolveFields scope i decls)
      (resolveFields scope' i decls) a b := by
  induction decls generalizing a b i with
  | nil => exact .pure hab .nil
  | cons d decls ih =>
    refine (agree_resolve hs hab d.type.type).bind fun t t' a b _ hab ht => ?_
    refine (ih hab (i + 1)).bind fun fs fs' a b hmono hab hfs => ?_
    exact .pure hab (.cons ⟨rfl, hmono _ _ ht⟩ hfs)

theorem agree_resolveShape (hs : scope.Agrees base scope') (hab : Aligned base a b)
    (fields : Ast.Fields) :
    Agree base VariantShape.Alike (resolveShape scope fields) (resolveShape scope' fields) a b := by
  cases fields with
  | unit => exact .pure hab .unit
  | positional ds =>
    exact (agree_resolveFields hs hab 0 ds).bind fun fs fs' a b _ hab h =>
      .pure hab (.tuple (forall₂_types h))
  | named ds =>
    exact (agree_resolveFields hs hab 0 ds).bind fun fs fs' a b _ hab h => .pure hab (.struct h)

theorem agree_resolveShapes (hs : scope.Agrees base scope') (hab : Aligned base a b)
    (variants : List VariantDecl) :
    Agree base (fun R => List.Forall₂ (VariantShape.Alike R)) (resolveShapes scope variants)
      (resolveShapes scope' variants) a b := by
  induction variants generalizing a b with
  | nil => exact .pure hab .nil
  | cons v variants ih =>
    refine (agree_resolveShape hs hab v.fields).bind fun x y a b _ hab hx => ?_
    refine (ih hab).bind fun xs ys a b hmono hab hxs => ?_
    exact .pure hab (.cons (hx.mono hmono) hxs)

end Members

theorem live_of_fieldsAlike {a : Arena} {fields : List Field}
    (h : List.Forall₂ (Field.Alike (Same a a)) fields fields) :
    ∀ x ∈ (Layout.struct fields).types, a.Live x := fun x hx => by
  obtain ⟨field, hfield, rfl⟩ := List.mem_map.1 hx
  obtain ⟨_, -, hsame⟩ := forall₂_left h hfield
  exact hsame.type.live_left

theorem live_of_shapesAlike {a : Arena} {shapes : List VariantShape}
    (h : List.Forall₂ (VariantShape.Alike (Same a a)) shapes shapes) (names : List String) :
    ∀ x ∈ (Layout.enum (List.zipWith Variant.mk names shapes)).types, a.Live x := fun x hx => by
  obtain ⟨v, hv, hx⟩ := List.mem_flatMap.1 hx
  have hshape : v.shape ∈ shapes := by
    rw [← List.map_uncurry_zip_eq_zipWith] at hv
    obtain ⟨⟨n, shape⟩, hmem, rfl⟩ := List.mem_map.1 hv
    exact (List.of_mem_zip hmem).2
  obtain ⟨_, -, hshapes⟩ := forall₂_left h hshape
  obtain ⟨_, -, hsame⟩ := forall₂_left hshapes.types hx
  exact hsame.live_left

theorem declared?_eq_some {name : String} {u : SourceUnit} (h : declared? f p name = some (t, u)) :
    p.arena.findNamed name f.module = some t ∧ p.unitOfType? t = some u := by
  obtain ⟨t', ht, h⟩ := Option.bind_eq_some_iff.1 h
  obtain ⟨u', hu, h⟩ := Option.bind_eq_some_iff.1 h
  cases h
  exact ⟨ht, hu⟩

/-- **What resolving an item does.**  A struct or an enum that stands where its name was
registered is resolved for its unit, a constant for the module; nothing else is done. -/
theorem resolveItem_cases {motive : Item → Except Error Unit × Program → Prop}
    (skip : ∀ i, motive i (.ok (), p))
    (struct : ∀ name pos generics fields t u, registered? f p name pos = some (t, u) →
      motive (.struct name pos generics fields)
        (isolate f u.id name (resolveStruct f t u.id generics fields.toList) p))
    (enum : ∀ name pos generics variants t u, registered? f p name pos = some (t, u) →
      motive (.enum name pos generics variants)
        (isolate f u.id name (resolveEnum f t generics variants) p))
    (const : ∀ name pos type, motive (.const name pos type)
      (resolveConst f f.scope f.module name pos type p)) (i : Item) :
    motive i (resolveItem f i p) := by
  cases i with
  | struct name pos generics fields =>
    rw [resolveItem, bind_run, get_run]
    dsimp only
    cases hfound : registered? f p name pos with
    | none => exact skip _
    | some found => exact struct name pos generics fields _ _ hfound
  | enum name pos generics variants =>
    rw [resolveItem, bind_run, get_run]
    dsimp only
    cases hfound : registered? f p name pos with
    | none => exact skip _
    | some found => exact enum name pos generics variants _ _ hfound
  | const name pos type => exact const name pos type
  | _ => exact skip _

theorem findNamed_of_registered {name : String} {pos : Position} {u : SourceUnit}
    (h : registered? f p name pos = some (t, u)) : p.arena.findNamed name f.module = some t :=
  (declared?_eq_some (Option.filter_eq_some_iff.1 h).1).1

theorem ok_each {α : Type} {m : α → Attempt Program Unit} (hm : ∀ x p, (m x p).1 = .ok ())
    (xs : List α) (p : Program) : (each m xs p).1 = .ok () := by
  induction xs generalizing p with
  | nil => rfl
  | cons x xs ih =>
    have hx := hm x p
    rw [each, bind_run]
    generalize m x p = out at hx
    obtain ⟨out, q⟩ := out
    cases hx
    exact ih q

theorem ok_declareItem (hff : f.config.failFast = false) (i : Item) (p : Program) :
    (declareItem f i p).1 = .ok () := by
  cases i <;> first | rfl | exact ok_isolate hff ..

theorem ok_resolveItem (hff : f.config.failFast = false) (i : Item) (p : Program) :
    (resolveItem f i p).1 = .ok () := by
  refine resolveItem_cases (motive := fun _ out => out.1 = .ok ()) (fun _ => rfl) ?_ ?_ ?_ i
  · exact fun _ _ _ _ _ _ _ => ok_isolate hff ..
  · exact fun _ _ _ _ _ _ _ => ok_isolate hff ..
  · exact fun _ _ _ => ok_isolate hff ..

end Assembly

end RustFlow
