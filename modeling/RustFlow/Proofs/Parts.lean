/-
# The parts of a file

The three passes of assembly come by an item more than once.  A `Part` is one such
stop, and the parts of a file are read off its items alone (`parts`).  What a part does
is said once (`settled_run`): it succeeds and reports nothing, or it fails and leaves no
more than types that it had interned.

To assemble a file is to run its parts one after the other (`assemble_parts`), so what
every part keeps is kept by files, whether or not they end in a failure
(`Assembled.indexed`).
-/

import RustFlow.Proofs.Catalogue

namespace RustFlow

open Arena Program Attempt Ast

namespace Ast

/-- The name under which the type of an `impl` block is looked up. -/
def TypeExpr.implName? : TypeExpr → Option String
  | .path p => if p.qualified then none else some p.last.name
  | _ => none

/-- Whether an `impl` block is for one of these structs and enums. -/
def TypeAnn.isFor (self : TypeAnn) (ds : List TypeDecl) : Bool :=
  ds.any fun d => self.type.implName? == some d.name

/-- The name that reports give an item. -/
def Item.name : Item → String
  | .struct name _ _ _ => name
  | .enum name _ _ _ => name
  | .const name _ _ => name
  | .other _ _ name => name
  | .function fn => fn.name
  | .impl _ self _ => self.text
  | .useDecl => ""
  | .externCrate => ""

/-- The name that reports give a member of an `impl` block. -/
def Member.name : Member → String
  | .method fn => fn.name
  | .const name _ _ => name
  | .other _ => "impl"

/-- The names of fields, of which a positional one is named by its index. -/
def fieldNames : Nat → List FieldDecl → List String
  | _, [] => []
  | i, d :: rest => d.name.getD (toString i) :: fieldNames (i + 1) rest

end Ast

/-- Where a function of a file stands. -/
inductive Site where
  | module
  /-- In an `impl` block with generic parameters for a type. -/
  | impl (generics : List String) (self : TypeAnn)

/-! ### Outcomes of functions -/

/-- What became of a function: an error or a graph. -/
structure FnOutcome where
  site : Site
  fn : FnDecl
  unit : UnitId
  result : Except Error Cfg

def FnOutcome.function (r : FnOutcome) : Site × FnDecl := (r.site, r.fn)

namespace Site

/-- The unit that the functions at a site belong to.  Those of a refused block are
reported with the file. -/
def unit (f : FileSetting) (p : Program) : Site → UnitId
  | .module => f.module
  | .impl _ self =>
    match Assembly.implTarget? f p self.type with
    | some (_, u) => u.id
    | none => f.module

/-- Lowers a function that stands at a site. -/
def lower (f : FileSetting) (p : Program) (fn : FnDecl) : Site → Attempt Arena Cfg
  | .module => (f.scope.withGenerics fn.generics).lowerFunction f.config f.module fn
  | .impl generics self =>
    match Assembly.implTarget? f p self.type with
    | some (t, u) =>
      (((f.scope.withSelf t).withGenerics generics).withGenerics fn.generics).lowerFunction
        f.config u.id fn
    | none => f.scope.refuse (.implFor self.text) self.pos

/-- What becomes of a function when it is lowered into a program. -/
def outcome (f : FileSetting) (p : Program) (site : Site) (fn : FnDecl) : FnOutcome :=
  ⟨site, fn, site.unit f p, (site.lower f p fn p.arena).1⟩

end Site

namespace Assembly

/-- The graphs of a unit among some outcomes. -/
def graphsOf (id : UnitId) (log : List FnOutcome) : List Cfg :=
  log.filterMap fun r => if r.unit = id then r.result.toOption else none

theorem graphsOf_append (id : UnitId) (l l' : List FnOutcome) :
    graphsOf id (l ++ l') = graphsOf id l ++ graphsOf id l' := List.filterMap_append ..

/-! ### Parts -/

/-- A stop of assembly at an item of a file. -/
inductive Part where
  | declare (item : Item)
  | resolve (item : Item)
  | function (fn : FnDecl)
  /-- A member of an `impl` block for a type of the file. -/
  | member (generics : List String) (self : TypeAnn) (member : Member)
  /-- An `impl` block for any other type. -/
  | refused (self : TypeAnn)

/-- The parts of an item in the third pass. -/
def lowerParts (ds : List TypeDecl) : Item → List Part
  | .function fn => [.function fn]
  | .impl generics self members =>
    if self.isFor ds then members.map (.member generics self) else [.refused self]
  | _ => []

/-- The parts of a file in the order of assembly. -/
def parts (items : List Item) : List Part :=
  items.map .declare ++ items.map .resolve ++ items.flatMap (lowerParts (Ast.types items))

namespace Part

/-- The unit and the item that a report of a part names. -/
def label (file : String) : Part → String × String
  | declare item => (moduleName file, item.name)
  | resolve item => ((item.type?.map TypeDecl.name).getD (moduleName file), item.name)
  | function fn => (moduleName file, fn.name)
  | member _ self m => (self.type.implName?.getD "", m.name)
  | refused self => (moduleName file, self.text)

/-- The module of the unit that a part belongs to; none for the module itself. -/
def owner? (module : UnitId) : Part → Option UnitId
  | member _ _ _ => some module
  | resolve item => item.type?.map fun _ => module
  | _ => none

/-- What is done for a part. -/
def run (f : FileSetting) : Part → Attempt Program Unit
  | declare item => declareItem f item
  | resolve item => resolveItem f item
  | function fn => lowerFunction f f.scope f.module fn
  | member generics self m => do
    match implTarget? f (← get) self.type with
    | some (t, u) => lowerMember f ((f.scope.withSelf t).withGenerics generics) u.id m
    | none => return
  | refused self => isolate f f.module self.text (f.scope.refuse (.implFor self.text) self.pos)

/-- What becomes of the function of a part. -/
def outcome? (f : FileSetting) (p : Program) : Part → Option FnOutcome
  | function fn => some (Site.module.outcome f p fn)
  | member generics self (.method fn) => some ((Site.impl generics self).outcome f p fn)
  | _ => none

/-- A part that stands in a file with these structs and enums. -/
def Stands (ds : List TypeDecl) : Part → Prop
  | member _ self _ => self.isFor ds = true
  | _ => True

end Part

/-! ### What a part does -/

variable {α : Type} {f : FileSetting} {p q : Program} {ds : List TypeDecl} {d : TypeDecl}
  {S S' : Program → Prop} {E E' : Error → Arena → Prop}

/-- A run that succeeds with a program, or that fails and leaves an arena. -/
inductive Tried (p : Program) (S : Program → Prop) (E : Error → Arena → Prop) :
    Except Error Unit × Program → Prop where
  | done {q : Program} : S q → Tried p S E (.ok (), q)
  | failed {e : Error} {a : Arena} : E e a → Tried p S E (.error e, { p with arena := a })

/-- The same of a part, whose failure is reported unless it ends the assembly. -/
inductive Settled (f : FileSetting) (label : String × String) (p : Program) (S : Program → Prop)
    (E : Error → Arena → Prop) : Except Error Unit × Program → Prop where
  | done {q : Program} : S q → Settled f label p S E (.ok (), q)
  | reported {e : Error} {a : Arena} : f.config.failFast = false → E e a →
      Settled f label p S E (.ok (), { p with arena := a }.addDiagnostic ⟨label.1, label.2, e⟩)
  | ended {e : Error} {a : Arena} : f.config.failFast = true → E e a →
      Settled f label p S E (.error e, { p with arena := a })

theorem Settled.mono {label : String × String} {r : Except Error Unit × Program}
    (h : Settled f label p S E r) (hS : ∀ q, S q → S' q) (hE : ∀ e a, E e a → E' e a) :
    Settled f label p S' E' r := by
  cases h with
  | done h => exact .done (hS _ h)
  | reported hff h => exact .reported hff (hE _ _ h)
  | ended hff h => exact .ended hff (hE _ _ h)

theorem Tried.isolate {m : Attempt Program Unit} {unit : UnitId} {item : String}
    {label : String × String} (h : Tried p S E (m p)) (hunit : p.unitName unit = label.1)
    (hitem : item = label.2) : Settled f label p S E (isolate f unit item m p) := by
  generalize hr : m p = r at h
  cases h with
  | done hq =>
    rw [isolate_ok item hr]
    exact .done hq
  | @failed e a he =>
    cases hff : f.config.failFast with
    | false =>
      have hname : ({ p with arena := a } : Program).unitName unit = label.1 := hunit
      rw [isolate_error hff item hr, hname, hitem]
      exact .reported hff he
    | true =>
      have hrun : Assembly.isolate f unit item m p = (.error e, { p with arena := a }) := by
        rw [Assembly.isolate, hr]
        rw [hff]
        rfl
      rw [hrun]
      exact .ended hff he

theorem tried_onArena {m : Attempt Arena α} {next : α → Attempt Program Unit}
    (hfail : ∀ e a, m p.arena = (.error e, a) → E e a)
    (hnext : ∀ v a, m p.arena = (.ok v, a) → Tried p S E (next v { p with arena := a })) :
    Tried p S E ((onArena m >>= next) p) := by
  rw [bind_run, onArena, zoom_run]
  rcases hm : m p.arena with ⟨e | v, a⟩
  · exact .failed (hfail e a hm)
  · exact hnext v a hm

theorem tried_refuse (scope : Scope) (what : Construct) (pos : Position)
    (hE : E (.unsupported what (scope.locate pos)) p.arena) :
    Tried p S E ((scope.refuse what pos : Attempt Program Unit) p) := .failed hE

/-- The program after a part other than a function that succeeded. -/
structure Amended (p q : Program) : Prop where
  kept : Kept p q
  diagnostics : q.diagnostics = p.diagnostics
  graphs : ∀ id, q.graphs id = p.graphs id

theorem amended_refl (h : p.Indexed) : Amended p p := ⟨.refl h.arena, rfl, fun _ => rfl⟩

theorem amended_modifyUnit {a : Arena} (h : p.Indexed) (ha : Widened p.arena a)
    {g : SourceUnit → SourceUnit} (hbare : ∀ u, (g u).bare = u.bare)
    (hcfgs : ∀ u, (g u).cfgs = u.cfgs) (unit : UnitId) :
    Amended p ({ p with arena := a }.modifyUnit unit g) :=
  ⟨((Kept.refl h.arena).withArena ha).modifyUnit hbare unit, rfl,
    graphs_modifyUnit (p := { p with arena := a }) hcfgs unit⟩

variable {name : String} {t : TypeId} {unit : UnitId}

/-- The program in which a struct has got these fields. -/
def withFields (f : FileSetting) (p : Program) (a : Arena) (t : TypeId) (unit : UnitId)
    (decls : List FieldDecl) (fields : List Field) : Program :=
  { p with arena := a.setLayout t (.struct fields) }.modifyUnit unit fun u =>
    (List.zipWith (fieldGlobal f) decls fields).foldl SourceUnit.addGlobal u

/-- The program in which a unit has got a global. -/
def withGlobal (p : Program) (a : Arena) (unit : UnitId) (g : Global) : Program :=
  { p with arena := a }.modifyUnit unit fun u => u.addGlobal g

/-- What a part other than a declaration or a function does to layouts and units when it
succeeds. -/
inductive Edit (f : FileSetting) (p : Program) : Part → Program → Prop where
  | none {part : Part} : Edit f p part p
  | fields {name : String} {pos : Position} {generics : List String} {decls : Ast.Fields}
      {t : TypeId} {u : SourceUnit} {fields : List Field} {a : Arena} :
      registered? f p name pos = some (t, u) →
      fields.map Field.name = Ast.fieldNames 0 decls.toList → Grown p.arena a →
      Edit f p (.resolve (.struct name pos generics decls))
        (withFields f p a t u.id decls.toList fields)
  | variants {name : String} {pos : Position} {generics : List String}
      {variants : List VariantDecl} {t : TypeId} {u : SourceUnit} {vs : List Variant}
      {a : Arena} : registered? f p name pos = some (t, u) → Grown p.arena a →
      Edit f p (.resolve (.enum name pos generics variants))
        { p with arena := a.setLayout t (.enum vs) }
  | constant {name : String} {pos : Position} {type : TypeAnn} {t : TypeId} {a : Arena} :
      Grown p.arena a → Edit f p (.resolve (.const name pos type))
        (withGlobal p a f.module ⟨name, t, f.locate pos⟩)
  | member {generics : List String} {self : TypeAnn} {owner name : String} {pos : Position}
      {type : TypeAnn} {s t : TypeId} {u : SourceUnit} {a : Arena} :
      self.type.implName? = some owner → declared? f p owner = some (s, u) → Grown p.arena a →
      Edit f p (.member generics self (.const name pos type))
        (withGlobal p a u.id ⟨name, t, f.locate pos⟩)

theorem names_resolveFields (scope : Scope) {i : Nat} {decls : List FieldDecl}
    {fields : List Field} {a b : Arena} (h : resolveFields scope i decls a = (.ok fields, b)) :
    fields.map Field.name = Ast.fieldNames i decls := by
  induction decls generalizing i fields a b with
  | nil =>
    cases h
    rfl
  | cons d rest ih =>
    obtain ⟨t, a₁, -, h⟩ := bind_ok h
    obtain ⟨others, a₂, hothers, h⟩ := bind_ok h
    cases h
    exact congrArg _ (ih hothers)

theorem tried_resolveStruct (hp : p.Indexed) (ht : p.arena.findNamed name f.module = some t)
    (unit : UnitId) (generics : List String) (decls : List FieldDecl)
    (hS : ∀ fields a, fields.map Field.name = Ast.fieldNames 0 decls → Grown p.arena a →
      S (withFields f p a t unit decls fields)) :
    Tried p (fun q => Amended p q ∧ S q) (fun _ a => Grown p.arena a)
      (resolveStruct f t unit generics decls p) := by
  obtain ⟨form, hform, hnamed⟩ := named_of_findNamed ht
  have hs := within_withSelf (f := f) (live_of_forms hform) generics
  have hagree := agree_resolveFields (hs.agrees hp.arena) (aligned_self hp.arena) 0 decls
  refine tried_onArena (fun e a h => hagree.grown h) fun fields a h => ?_
  have ha := (hagree.grown h).setLayout hform hnamed (live_of_fieldsAlike (hagree.value h))
  exact .done ⟨amended_modifyUnit hp ha (SourceUnit.bare_addGlobals _) (SourceUnit.cfgs_addGlobals _)
    unit, hS fields a (names_resolveFields _ h) (hagree.grown h)⟩

theorem tried_resolveEnum (hp : p.Indexed) (ht : p.arena.findNamed name f.module = some t)
    (generics : List String) (variants : List VariantDecl)
    (hS : ∀ vs a, Grown p.arena a → S { p with arena := a.setLayout t (.enum vs) }) :
    Tried p (fun q => Amended p q ∧ S q) (fun _ a => Grown p.arena a)
      (resolveEnum f t generics variants p) := by
  obtain ⟨form, hform, hnamed⟩ := named_of_findNamed ht
  have hs := within_withSelf (f := f) (live_of_forms hform) generics
  have hagree := agree_resolveShapes (hs.agrees hp.arena) (aligned_self hp.arena) variants
  refine tried_onArena (fun e a h => hagree.grown h) fun shapes a h => ?_
  rw [bind_run, get_run]
  dsimp only [defineEnum]
  split
  · have ha := (hagree.grown h).setLayout hform hnamed
      (live_of_shapesAlike (hagree.value h) (variants.map VariantDecl.name))
    exact .done ⟨⟨(Kept.refl hp.arena).withArena ha, rfl, fun _ => rfl⟩, hS _ a (hagree.grown h)⟩
  · exact .failed (hagree.grown h)

theorem tried_resolveConst {scope : Scope} (hp : p.Indexed) (hs : scope.Within p.arena)
    (unit : UnitId) (name : String) (location : Location) (type : TypeExpr)
    (hS : ∀ t a, Grown p.arena a → S (withGlobal p a unit ⟨name, t, location⟩)) :
    Tried p (fun q => Amended p q ∧ S q) (fun _ a => Grown p.arena a)
      ((onArena (scope.resolve type) >>= fun t => addGlobal unit ⟨name, t, location⟩) p) := by
  have hagree := agree_resolve (hs.agrees hp.arena) (aligned_self hp.arena) type
  refine tried_onArena (fun e a h => hagree.grown h) fun t a h => ?_
  exact .done ⟨amended_modifyUnit hp (hagree.grown h).widened (fun u => u.bare_addGlobal _)
    (fun u => u.cfgs_addGlobal _) unit, hS t a (hagree.grown h)⟩

/-- What lowering the function of an outcome comes to: its result and a grown arena. -/
structure Lowered (f : FileSetting) (p : Program) (r : FnOutcome) (out : Except Error Cfg)
    (a : Arena) : Prop where
  result : r.result = out
  run : r.site.lower f p r.fn p.arena = (out, a)
  grown : Grown p.arena a

/-- The program after a function that was lowered: its unit has got one more graph. -/
def Appended (f : FileSetting) (p : Program) (r : FnOutcome) (q : Program) : Prop :=
  ∃ c a, Lowered f p r (.ok c) a ∧ q = { p with arena := a }.modifyUnit r.unit fun u => u.addCfg c

theorem tried_lowerFunction {scope : Scope} (hp : p.Indexed) (hs : scope.Within p.arena)
    {r : FnOutcome} (hr : r.result = (r.site.lower f p r.fn p.arena).1)
    (hlower : r.site.lower f p r.fn =
      (scope.withGenerics r.fn.generics).lowerFunction f.config r.unit r.fn) :
    Tried p (Appended f p r) (fun e a => Lowered f p r (.error e) a)
      ((onArena ((scope.withGenerics r.fn.generics).lowerFunction f.config r.unit r.fn) >>= fun c =>
        modify fun p => p.modifyUnit r.unit fun u => u.addCfg c) p) := by
  have hagree := agree_lowerFunction ((hs.agrees hp.arena).withGenerics r.fn.generics)
    (aligned_self hp.arena) f.config r.unit rfl r.fn
  rw [hlower] at hr
  refine tried_onArena (fun e a h => ?_) fun c a h => ?_
  · exact ⟨hr.trans (congrArg Prod.fst h), hlower ▸ h, hagree.grown h⟩
  · exact .done ⟨c, a, ⟨hr.trans (congrArg Prod.fst h), hlower ▸ h, hagree.grown h⟩, rfl⟩

/-! ### Parts of a catalogued file -/

theorem implTarget?_eq (f : FileSetting) (p : Program) (type : TypeExpr) :
    implTarget? f p type = type.implName?.bind (declared? f p) := by
  cases type with
  | path path =>
    rw [implTarget?, TypeExpr.implName?]
    split <;> rfl
  | _ => rfl

theorem firstNamed?_ne_none (hd : d ∈ ds) : firstNamed? ds d.name ≠ none := fun h =>
  List.find?_eq_none.1 h d hd (beq_self_eq_true d.name)

/-- What is declared for a name is a unit of the module with that name. -/
theorem Catalogue.unit_of_declared (h : Catalogue f ds p) {u : SourceUnit}
    (hu : declared? f p name = some (t, u)) : u.name = name ∧ u.owner = some f.module := by
  cases hfirst : firstNamed? ds name with
  | none =>
    have hnone := h.undeclared name hfirst
    rw [(declared?_eq_some hu).1] at hnone
    cases hnone
  | some d =>
    obtain ⟨t', u', hu', hname, howner, -⟩ := h.declared name d hfirst
    cases hu.symm.trans hu'
    exact ⟨hname, howner⟩

theorem Catalogue.target (h : Catalogue f ds p) {self : TypeAnn} (hself : self.isFor ds = true) :
    ∃ name t u, self.type.implName? = some name ∧ declared? f p name = some (t, u) ∧
      implTarget? f p self.type = some (t, u) := by
  obtain ⟨d, hd, hname⟩ := List.any_eq_true.1 hself
  obtain ⟨e, he⟩ := Option.ne_none_iff_exists'.1 (firstNamed?_ne_none hd)
  obtain ⟨t, u, hu, -⟩ := h.declared d.name e he
  refine ⟨d.name, t, u, beq_iff_eq.1 hname, hu, ?_⟩
  rw [implTarget?_eq, beq_iff_eq.1 hname, Option.bind_some, hu]

theorem mem_of_declared {u : SourceUnit} (hu : declared? f p name = some (t, u)) : u ∈ p.units :=
  List.mem_of_find?_eq_some (declared?_eq_some hu).2

theorem Catalogue.unitName_of_declared (h : Catalogue f ds p) {u : SourceUnit}
    (hu : declared? f p name = some (t, u)) : p.unitName u.id = name :=
  (h.indexed.unitName_id (mem_of_declared hu)).trans (h.unit_of_declared hu).1

theorem within_of_declared {u : SourceUnit} (hu : declared? f p name = some (t, u))
    (generics : List String) : ((f.scope.withSelf t).withGenerics generics).Within p.arena := by
  obtain ⟨form, hform, -⟩ := named_of_findNamed (declared?_eq_some hu).1
  exact within_withSelf (live_of_forms hform) generics

/-- **A function is lowered into its unit or reported.** -/
theorem settled_outcome (h : Catalogue f ds p) {part : Part} (hpart : part.Stands ds)
    {r : FnOutcome} (hr : part.outcome? f p = some r) :
    Settled f (part.label f.file) p (Appended f p r) (fun e a => Lowered f p r (.error e) a)
      (part.run f p) := by
  cases part with
  | function fn =>
    cases hr
    exact (tried_lowerFunction (r := Site.module.outcome f p fn) h.indexed (within_scope _) rfl
      rfl).isolate h.unitName_module rfl
  | member generics self m =>
    obtain ⟨name, t, u, hname, hu, htarget⟩ := h.target hpart
    cases m with
    | method fn =>
      cases hr
      have hunit : ((Site.impl generics self).outcome f p fn).unit = u.id := by
        simp only [Site.outcome, Site.unit, htarget]
      have hlower : (Site.impl generics self).lower f p fn =
          (((f.scope.withSelf t).withGenerics generics).withGenerics fn.generics).lowerFunction
            f.config u.id fn := by
        simp only [Site.lower, htarget]
      rw [← hunit] at hlower
      rw [Part.run, bind_run, get_run]
      dsimp only
      rw [htarget]
      dsimp only
      rw [← hunit]
      refine (tried_lowerFunction (r := (Site.impl generics self).outcome f p fn) h.indexed
        (within_of_declared hu generics) rfl hlower).isolate ?_ rfl
      rw [hunit, h.unitName_of_declared hu, Part.label, hname]
      rfl
    | _ => cases hr
  | _ => cases hr

/-- The error of a repeated definition. -/
def repeatedError (f : FileSetting) (d : TypeDecl) : Error :=
  .unsupported (.secondDefinition d.name) (f.locate d.pos)

theorem tried_registerType (h : Catalogue f ds p) {kind : UnitKind} (hkind : d.kind = kind) :
    Tried p (fun q => firstNamed? ds d.name = none ∧ q = p.register f d)
      (fun e a => firstNamed? ds d.name ≠ none ∧ e = repeatedError f d ∧ a = p.arena)
      (registerType f kind (d.form f.module) d.name d.pos p) := by
  rw [registerType, bind_run, get_run]
  dsimp only
  cases hfound : p.arena.findNamed d.name f.module with
  | some t =>
    refine .failed ⟨fun hnone => ?_, rfl, rfl⟩
    rw [(h.findNamed_eq_none d.name).2 hnone] at hfound
    cases hfound
  | none =>
    refine .done ⟨(h.findNamed_eq_none d.name).1 hfound, ?_⟩
    rw [intern_of_not_mem (not_mem_of_findNamed hfound), register, unitFor, hkind]

/-- **A struct or enum is registered, or it is reported and nothing else is done.** -/
theorem settled_declare (h : Catalogue f ds p) {item : Item} (hd : item.type? = some d) :
    Settled f (moduleName f.file, d.name) p
      (fun q => firstNamed? ds d.name = none ∧ q = p.register f d)
      (fun e a => firstNamed? ds d.name ≠ none ∧ e = repeatedError f d ∧ a = p.arena)
      (declareItem f item p) := by
  cases item with
  | struct name pos generics fields =>
    cases hd
    exact (tried_registerType h rfl).isolate h.unitName_module rfl
  | enum name pos generics variants =>
    cases hd
    exact (tried_registerType h rfl).isolate h.unitName_module rfl
  | _ => cases hd

/-- The program after a part that succeeded. -/
structure Steps (f : FileSetting) (part : Part) (p q : Program) : Prop where
  diagnostics : q.diagnostics = p.diagnostics
  graphs : ∀ id, q.graphs id = p.graphs id ++ graphsOf id (part.outcome? f p).toList
  /-- Units, structs and enums are added by declarations only. -/
  change : Kept p q ∨ ∃ item d, part = .declare item ∧ item.type? = some d ∧
    p.arena.findNamed d.name f.module = none ∧ q = p.register f d

/-- What a part that failed leaves. -/
structure Fails (f : FileSetting) (part : Part) (p : Program) (e : Error) (a : Arena) : Prop where
  grown : Grown p.arena a
  outcome : ∀ r, part.outcome? f p = some r → r.result = .error e

theorem Amended.steps {part : Part} (h : Amended p q) (hr : part.outcome? f p = none) :
    Steps f part p q := by
  refine ⟨h.diagnostics, fun id => ?_, .inl h.kept⟩
  rw [hr]
  exact (h.graphs id).trans (List.append_nil _).symm

theorem graphs_addCfg (hunit : unit.index < p.units.length) (c : Cfg) (id : UnitId) :
    (p.modifyUnit unit fun u => u.addCfg c).graphs id =
      p.graphs id ++ if unit = id then [c] else [] := by
  obtain ⟨i⟩ := unit
  obtain ⟨j⟩ := id
  unfold Program.graphs unit?
  rw [getElem?_modifyUnit]
  by_cases h : i = j
  · cases h
    rw [List.getElem?_eq_getElem hunit, Option.map_some, if_pos rfl, if_pos rfl]
    rfl
  · have hne : (⟨i⟩ : UnitId) ≠ ⟨j⟩ := fun heq => h (congrArg UnitId.index heq)
    simp only [if_neg h, if_neg hne, Option.map_id', List.append_nil]

theorem Appended.steps (h : p.Indexed) {part : Part} {r : FnOutcome}
    (hr : part.outcome? f p = some r) (hunit : r.unit.index < p.units.length)
    (hq : Appended f p r q) : Steps f part p q := by
  obtain ⟨c, a, hlowered, rfl⟩ := hq
  refine ⟨rfl, fun id => ?_, .inl (((Kept.refl h.arena).withArena
    hlowered.grown.widened).modifyUnit (fun u => u.bare_addCfg c) r.unit)⟩
  rw [hr]
  refine (graphs_addCfg (p := { p with arena := a }) hunit c id).trans (congrArg _ ?_)
  rw [graphsOf, Option.toList_some, List.filterMap_cons, hlowered.result]
  split <;> rfl

theorem Catalogue.unit_of_outcome (h : Catalogue f ds p) {part : Part} (hpart : part.Stands ds)
    {r : FnOutcome} (hr : part.outcome? f p = some r) :
    ∃ u, p.unit? r.unit = some u ∧ u.name = (part.label f.file).1 ∧
      u.owner = part.owner? f.module := by
  cases part with
  | function fn =>
    cases hr
    exact h.module
  | member generics self m =>
    obtain ⟨name, t, u, hname, hu, htarget⟩ := h.target hpart
    cases m with
    | method fn =>
      cases hr
      obtain ⟨hunit, howner⟩ := h.unit_of_declared hu
      have hid : ((Site.impl generics self).outcome f p fn).unit = u.id := by
        simp only [Site.outcome, Site.unit, htarget]
      refine ⟨u, hid ▸ h.indexed.unit?_id (mem_of_declared hu), ?_, howner⟩
      rw [hunit, Part.label, hname]
      rfl
    | _ => cases hr
  | _ => cases hr

theorem lt_of_unit? {id : UnitId} {u : SourceUnit} (h : p.unit? id = some u) :
    id.index < p.units.length := (List.getElem?_eq_some_iff.1 h).1

theorem settled_resolve (h : Catalogue f ds p) (item : Item) :
    Settled f ((Part.resolve item).label f.file) p
      (fun q => Amended p q ∧ Edit f p (.resolve item) q) (fun _ a => Grown p.arena a)
      (resolveItem f item p) := by
  refine resolveItem_cases (motive := fun item out => Settled f ((Part.resolve item).label f.file) p
    (fun q => Amended p q ∧ Edit f p (.resolve item) q) (fun _ a => Grown p.arena a) out)
    (fun _ => .done ⟨amended_refl h.indexed, .none⟩) ?_ ?_ ?_ item
  · intro name pos generics fields t u hu
    exact (tried_resolveStruct h.indexed (findNamed_of_registered hu) _ _ _ fun _ _ =>
      .fields hu).isolate (h.unitName_of_declared (Option.filter_eq_some_iff.1 hu).1) rfl
  · intro name pos generics variants t u hu
    exact (tried_resolveEnum h.indexed (findNamed_of_registered hu) _ _ fun _ _ =>
      .variants hu).isolate (h.unitName_of_declared (Option.filter_eq_some_iff.1 hu).1) rfl
  · intro name pos type
    exact (tried_resolveConst h.indexed (within_scope _) f.module name _ _ fun _ _ =>
      .constant).isolate h.unitName_module rfl

theorem name_of_type? {item : Item} (hd : item.type? = some d) : item.name = d.name := by
  cases item <;> cases hd <;> rfl

theorem settled_declareItem (h : Catalogue f ds p) (item : Item) :
    Settled f ((Part.declare item).label f.file) p (Steps f (.declare item) p)
      (Fails f (.declare item) p) (declareItem f item p) := by
  have hfails {e : Error} : Fails f (.declare item) p e p.arena :=
    ⟨.refl h.indexed.arena, fun r hr => by cases hr⟩
  cases hd : item.type? with
  | some d =>
    rw [Part.label, name_of_type? hd]
    refine (settled_declare h hd).mono (fun q ⟨hnew, hq⟩ => ?_) fun e a ⟨_, _, ha⟩ => ha ▸ hfails
    subst hq
    refine ⟨rfl, fun id => ?_, .inr ⟨item, d, rfl, hd, h.undeclared d.name hnew, rfl⟩⟩
    exact (graphs_addUnit rfl id).trans (List.append_nil _).symm
  | none =>
    cases item with
    | other pos what name => exact (tried_refuse f.scope _ _ hfails).isolate h.unitName_module rfl
    | struct => cases hd
    | enum => cases hd
    | _ => exact .done ((amended_refl h.indexed).steps rfl)

theorem settled_member (h : Catalogue f ds p) (generics : List String) {self : TypeAnn}
    (hself : self.isFor ds = true) (m : Member) (hm : ∀ fn, m ≠ .method fn) :
    Settled f ((Part.member generics self m).label f.file) p
      (fun q => Amended p q ∧ Edit f p (.member generics self m) q)
      (fun _ a => Grown p.arena a) ((Part.member generics self m).run f p) := by
  obtain ⟨name, t, u, hname, hu, htarget⟩ := h.target hself
  have hunit : p.unitName u.id = self.type.implName?.getD "" := by
    rw [hname]
    exact h.unitName_of_declared hu
  rw [Part.run, bind_run, get_run]
  dsimp only
  rw [htarget]
  cases m with
  | method fn => exact absurd rfl (hm fn)
  | const name pos type =>
    exact (tried_resolveConst h.indexed (within_of_declared hu generics) u.id name _ _ fun _ _ =>
      .member hname hu).isolate hunit rfl
  | other pos => exact (tried_refuse _ _ _ (.refl h.indexed.arena)).isolate hunit rfl

/-- **The step of assembly.**  A part succeeds and reports nothing, or it fails and leaves
no more than types it had interned. -/
theorem settled_run (h : Catalogue f ds p) (part : Part) (hpart : part.Stands ds) :
    Settled f (part.label f.file) p (Steps f part p) (Fails f part p) (part.run f p) := by
  have hplain {e : Error} {a : Arena} (hr : part.outcome? f p = none) (ha : Grown p.arena a) :
      Fails f part p e a := ⟨ha, fun r hr' => by rw [hr] at hr'; cases hr'⟩
  cases hr : part.outcome? f p with
  | some r =>
    obtain ⟨u, hu, -⟩ := h.unit_of_outcome hpart hr
    refine (settled_outcome h hpart hr).mono (fun q hq => hq.steps h.indexed hr (lt_of_unit? hu))
      fun e a he => ⟨he.grown, fun r' hr' => ?_⟩
    cases hr.symm.trans hr'
    exact he.result
  | none =>
    cases part with
    | declare item => exact settled_declareItem h item
    | resolve item =>
      exact (settled_resolve h item).mono (fun q hq => hq.1.steps rfl) fun e a => hplain rfl
    | function fn => cases hr
    | member generics self m =>
      refine (settled_member h generics hpart m fun fn hm => ?_).mono
        (fun q hq => hq.1.steps hr) fun e a => hplain hr
      subst hm
      cases hr
    | refused self =>
      exact (tried_refuse f.scope _ _ (hplain rfl (.refl h.indexed.arena))).isolate
        h.unitName_module rfl

/-! ### Runs of parts -/

theorem Settled.kept {label : String × String} {r : Except Error Unit × Program} (hp : p.Indexed)
    (h : Settled f label p S E r) (hS : ∀ q, S q → Kept p q)
    (hE : ∀ e a, E e a → Grown p.arena a) : Kept p r.2 := by
  have hfailed {e : Error} {a : Arena} (he : E e a) : Kept p { p with arena := a } :=
    (Kept.refl hp.arena).withArena (hE e a he).widened
  cases h with
  | done hq => exact hS _ hq
  | reported _ he => exact (hfailed he).addDiagnostic _
  | ended _ he => exact hfailed he

theorem Steps.kept {part : Part} (h : Steps f part p q)
    (hpart : ∀ item d, part = .declare item → item.type? ≠ some d) : Kept p q := by
  rcases h.change with hkept | ⟨item, d, hitem, hd, -⟩
  · exact hkept
  · exact absurd hd (hpart item d hitem)

theorem Catalogue.kept_run (h : Catalogue f ds p) (part : Part) (hpart : part.Stands ds)
    (hother : ∀ item d, part = .declare item → item.type? ≠ some d) : Kept p (part.run f p).2 :=
  (settled_run h part hpart).kept h.indexed (fun _ hq => hq.kept hother) fun _ _ he => he.grown

theorem Catalogue.declare (h : Catalogue f ds p) (item : Item) :
    Catalogue f (ds ++ item.type?.toList) (declareItem f item p).2 := by
  cases hd : item.type? with
  | none =>
    rw [Option.toList_none, List.append_nil]
    refine h.keep (h.kept_run (.declare item) trivial fun i d hi hd' => ?_)
    cases hi
    rw [hd] at hd'
    cases hd'
  | some d =>
    have hsettled := settled_declare h hd
    rw [Option.toList_some]
    generalize declareItem f item p = r at hsettled
    cases hsettled with
    | done hq => exact hq.2 ▸ h.register hq.1
    | reported _ he =>
      obtain ⟨hold, -, rfl⟩ := he
      exact (h.repeated hold).keep ((Kept.refl h.indexed.arena).addDiagnostic _)
    | ended _ he =>
      obtain ⟨hold, -, rfl⟩ := he
      exact h.repeated hold

section Each

variable {β : Type} {m m' : α → Attempt Program Unit} {I : Program → Prop} {xs : List α}

theorem each_append (m : α → Attempt Program Unit) (xs ys : List α) (p : Program) :
    each m (xs ++ ys) p = (each m xs >>= fun _ => each m ys) p := by
  induction xs generalizing p with
  | nil => rfl
  | cons x xs ih =>
    rw [List.cons_append, each, each, bind_run, bind_run, bind_run]
    rcases m x p with ⟨_ | _, q⟩
    · rfl
    · exact (ih q).trans (bind_run ..)

theorem each_singleton (m : α → Attempt Program Unit) (x : α) (p : Program) :
    each m [x] p = m x p := by
  rw [each, bind_run]
  rcases m x p with ⟨_ | _, q⟩ <;> rfl

theorem each_map (m : β → Attempt Program Unit) (g : α → β) (xs : List α) (p : Program) :
    each m (xs.map g) p = each (fun x => m (g x)) xs p := by
  induction xs generalizing p with
  | nil => rfl
  | cons x xs ih =>
    rw [List.map_cons, each, each, bind_run, bind_run]
    rcases m (g x) p with ⟨_ | _, q⟩
    · rfl
    · exact ih q

theorem each_flatMap (m : β → Attempt Program Unit) (g : α → List β) (xs : List α) (p : Program) :
    each m (xs.flatMap g) p = each (fun x => each m (g x)) xs p := by
  induction xs generalizing p with
  | nil => rfl
  | cons x xs ih =>
    rw [List.flatMap_cons, each_append, each, bind_run, bind_run]
    rcases each m (g x) p with ⟨_ | _, q⟩
    · rfl
    · exact ih q

theorem each_invariant (hm : ∀ x ∈ xs, ∀ p, I p → I (m x p).2) (hp : I p) : I (each m xs p).2 := by
  induction xs generalizing p with
  | nil => exact hp
  | cons x xs ih =>
    have hx := hm x List.mem_cons_self p hp
    rw [each, bind_run]
    generalize m x p = r at hx
    obtain ⟨_ | _, q⟩ := r
    · exact hx
    · exact ih (fun y hy => hm y (List.mem_cons_of_mem _ hy)) hx

/-- Passes that do the same as long as an invariant holds. -/
theorem each_congr (hsame : ∀ x ∈ xs, ∀ p, I p → m x p = m' x p)
    (hm : ∀ x ∈ xs, ∀ p, I p → I (m x p).2) (hp : I p) : each m xs p = each m' xs p := by
  induction xs generalizing p with
  | nil => rfl
  | cons x xs ih =>
    have hx := hm x List.mem_cons_self p hp
    rw [each, each, bind_run, bind_run, ← hsame x List.mem_cons_self p hp]
    generalize m x p = r at hx
    obtain ⟨_ | _, q⟩ := r
    · rfl
    · exact ih (fun y hy => hsame y (List.mem_cons_of_mem _ hy))
        (fun y hy => hm y (List.mem_cons_of_mem _ hy)) hx

end Each

theorem filterMap_cons_toList {β : Type} (g : α → Option β) (x : α) (xs : List α) :
    (x :: xs).filterMap g = (g x).toList ++ xs.filterMap g := by
  rw [List.filterMap_cons]
  cases g x <;> rfl

theorem types_cons (item : Item) (items : List Item) :
    Ast.types (item :: items) = item.type?.toList ++ Ast.types items := filterMap_cons_toList ..

theorem Catalogue.declares {items : List Item} (h : Catalogue f ds p)
    (hrun : each (declareItem f) items p = (.ok (), q)) : Catalogue f (ds ++ Ast.types items) q := by
  induction items generalizing ds p with
  | nil =>
    cases hrun
    rwa [show Ast.types [] = [] from rfl, List.append_nil]
  | cons item items ih =>
    obtain ⟨_, p', hitem, hrest⟩ := bind_ok hrun
    have hcat := h.declare item
    rw [hitem] at hcat
    rw [types_cons, ← List.append_assoc]
    exact ih hcat hrest

theorem implTarget?_eq_none (h : Catalogue f ds p) {self : TypeAnn}
    (hself : ¬ self.isFor ds = true) : implTarget? f p self.type = none := by
  rw [implTarget?_eq]
  cases hname : self.type.implName? with
  | none => rfl
  | some name =>
    have hnone : firstNamed? ds name = none := List.find?_eq_none.2 fun d hd heq =>
      hself (List.any_eq_true.2 ⟨d, hd, by rw [hname, beq_iff_eq.1 heq]; exact beq_self_eq_true _⟩)
    rw [Option.bind_some, declared?, h.undeclared name hnone]
    rfl

/-- The target of an `impl` block is found again at each of its members. -/
theorem run_member {self : TypeAnn} {u : SourceUnit}
    (htarget : implTarget? f p self.type = some (t, u)) (hq : Kept p q) (generics : List String)
    (m : Member) : (Part.member generics self m).run f q =
      lowerMember f ((f.scope.withSelf t).withGenerics generics) u.id m q := by
  rw [implTarget?_eq] at htarget
  obtain ⟨name, hname, hu⟩ := Option.bind_eq_some_iff.1 htarget
  obtain ⟨v, hv, hbare⟩ := hq.declared? hu
  have hid : v.bare.id = u.bare.id := by rw [hbare]
  change v.id = u.id at hid
  rw [Part.run, bind_run, get_run]
  dsimp only
  rw [implTarget?_eq, hname, Option.bind_some, hv]
  dsimp only
  rw [hid]

theorem lowerItem_parts (h : Catalogue f ds p) (item : Item) :
    lowerItem f item p = each (Part.run f) (lowerParts ds item) p := by
  cases item with
  | function fn => exact (each_singleton (Part.run f) (.function fn) p).symm
  | impl generics self members =>
    rw [lowerItem, lowerParts, bind_run, get_run]
    dsimp only
    split
    · rename_i hself
      obtain ⟨name, t, u, hname, hu, htarget⟩ := h.target hself
      rw [htarget, each_map]
      refine (each_congr (I := Kept p) (fun m _ q hq => run_member htarget hq generics m)
        (fun m _ q hq => ?_) (.refl h.indexed.arena)).symm
      exact hq.trans ((h.keep hq).kept_run (.member generics self m) hself
        fun _ _ heq => by cases heq)
    · rename_i hself
      rw [implTarget?_eq_none h hself, each_singleton]
      rfl
  | _ => rfl

theorem lowerParts_stands {part : Part} {item : Item} (h : part ∈ lowerParts ds item) :
    part.Stands ds ∧ ∀ i d, part = .declare i → i.type? ≠ some d := by
  cases item with
  | function fn =>
    cases List.mem_singleton.1 h
    exact ⟨trivial, fun _ _ heq => by cases heq⟩
  | impl generics self members =>
    rw [lowerParts] at h
    split at h
    · obtain ⟨m, -, rfl⟩ := List.mem_map.1 h
      exact ⟨‹_›, fun _ _ heq => by cases heq⟩
    · cases List.mem_singleton.1 h
      exact ⟨trivial, fun _ _ heq => by cases heq⟩
  | _ => cases h

theorem Catalogue.kept_each (h : Catalogue f ds p) {xs : List Part}
    (hxs : ∀ part ∈ xs, part.Stands ds ∧ ∀ i d, part = .declare i → i.type? ≠ some d) :
    Kept p (each (Part.run f) xs p).2 := by
  refine each_invariant (fun part hpart q hq => ?_) (.refl h.indexed.arena)
  obtain ⟨hstands, hother⟩ := hxs part hpart
  exact hq.trans ((h.keep hq).kept_run part hstands hother)

theorem resolveParts_stands {items : List Item} (part : Part) (h : part ∈ items.map .resolve) :
    part.Stands ds ∧ ∀ i d, part = .declare i → i.type? ≠ some d := by
  obtain ⟨item, -, rfl⟩ := List.mem_map.1 h
  exact ⟨trivial, fun _ _ heq => by cases heq⟩

/-- The program in which the parts of a file are run. -/
def opened (f : FileSetting) (p : Program) : Program :=
  p.addUnit (.ofModule f.module (moduleName f.file) (f.locate .start))

/-- **To assemble a file is to run its parts.** -/
theorem assemble_parts {start : Program} (h : start.Indexed) (config : Config) (file : String)
    (items : List Item) :
    let f : FileSetting := ⟨config, file, start.nextUnit⟩
    assemble config file items start = each (Part.run f) (parts items) (opened f start) := by
  intro f
  have hfirst : Catalogue f [] (opened f start) := catalogue_start h rfl
  have hopen : assemble config file items start = (do
      each (declareItem f) items
      each (resolveItem f) items
      each (lowerItem f) items) (opened f start) := rfl
  have hdeclare (p : Program) : each (Part.run f) (items.map .declare) p =
    each (declareItem f) items p := each_map ..
  have hresolve (p : Program) : each (Part.run f) (items.map .resolve) p =
    each (resolveItem f) items p := each_map ..
  rw [hopen, parts, List.append_assoc, each_append, bind_run, bind_run, hdeclare]
  rcases hrun : each (declareItem f) items (opened f start) with ⟨_ | _, p⟩
  · rfl
  have hcat : Catalogue f (Ast.types items) p := hfirst.declares hrun
  have hkept : Kept p (each (Part.run f) (items.map .resolve) p).2 :=
    hcat.kept_each resolveParts_stands
  dsimp only
  rw [each_append, bind_run, bind_run, hresolve]
  rw [hresolve] at hkept
  generalize each (resolveItem f) items p = r at hkept
  obtain ⟨_ | _, q⟩ := r
  · rfl
  have hcat' : Catalogue f (Ast.types items) q := hcat.keep hkept
  dsimp only
  rw [each_flatMap]
  refine each_congr (fun item _ r hr => lowerItem_parts hr item) (fun item _ r hr => ?_) hcat'
  rw [lowerItem_parts hr item]
  exact hr.keep (hr.kept_each fun part => lowerParts_stands)

theorem Catalogue.exists_each (h : Catalogue f ds p) (items : List Item) :
    ∃ ds', Catalogue f ds' (each (Part.run f) (items.map .declare) p).2 := by
  refine each_invariant (I := fun q => ∃ ds', Catalogue f ds' q) (fun part hpart q ⟨ds', hq⟩ => ?_)
    ⟨ds, h⟩
  obtain ⟨item, -, rfl⟩ := List.mem_map.1 hpart
  exact ⟨_, hq.declare item⟩

end Assembly

namespace Program

open Assembly

theorem Indexed.assemble {start : Program} (h : start.Indexed) (config : Config) (file : String)
    (items : List Item) : (assemble config file items start).2.Indexed := by
  have hfirst : Catalogue ⟨config, file, start.nextUnit⟩ [] (opened _ start) := catalogue_start h rfl
  have hdeclare := hfirst.exists_each items
  rw [assemble_parts h, parts, List.append_assoc, each_append, bind_run]
  rcases hrun : each (Part.run _) (items.map .declare) (opened _ start) with ⟨_ | _, p⟩
  · rw [hrun] at hdeclare
    obtain ⟨ds, hcat⟩ := hdeclare
    exact hcat.indexed
  · rw [each_map] at hrun
    have hcat := hfirst.declares hrun
    refine (hcat.kept_each fun part hpart => ?_).indexed hcat.indexed
    rcases List.mem_append.1 hpart with hpart | hpart
    · exact resolveParts_stands part hpart
    · obtain ⟨item, -, hitem⟩ := List.mem_flatMap.1 hpart
      exact lowerParts_stands hitem

/-- A program that comes from files, whether or not their assembly succeeded. -/
inductive Assembled : Program → Prop where
  | empty : Assembled empty
  | step {p : Program} (config : Config) (file : String) (items : List Item) : Assembled p →
      Assembled (assemble config file items p).2

theorem Assembled.indexed {p : Program} (h : Assembled p) : p.Indexed := by
  induction h with
  | empty => exact indexed_empty
  | step config file items _ ih => exact ih.assemble config file items

variable {parse : String → Option (List Item)} {config : Config} {p q : Program}

theorem addSource_ok {file source : String} (h : addSource parse config p file source = .ok q) :
    ∃ items, parse source = some items ∧ assemble config file items p = (.ok (), q) := by
  rw [addSource] at h
  split at h
  · cases h
  · rename_i items hread
    split at h
    · rename_i hrun
      cases h
      exact ⟨items, hread, hrun⟩
    · cases h

/-- What every file keeps is kept by all of them. -/
theorem addFiles_invariant {read : String → Option String} {files : List String}
    {I : Program → Prop} (h : addFiles parse config read p files = .ok q)
    (hstep : ∀ file ∈ files, ∀ source, read file = some source →
      ∀ p q, I p → addSource parse config p file source = .ok q → I q) (hp : I p) : I q := by
  induction files generalizing p with
  | nil =>
    cases h
    exact hp
  | cons file files ih =>
    rw [List.forall_mem_cons] at hstep
    rw [addFiles] at h
    split at h
    · cases h
    · rename_i source hread
      split at h
      · rename_i hadded
        exact ih h hstep.2 (hstep.1 source hread _ _ hp hadded)
      · cases h

theorem Assembled.addSource {file source : String} (h : Assembled p)
    (hq : addSource parse config p file source = .ok q) : Assembled q := by
  obtain ⟨items, -, hrun⟩ := addSource_ok hq
  have hstep := h.step config file items
  rwa [hrun] at hstep

theorem Assembled.addFiles {read : String → Option String} {files : List String}
    (h : Assembled p) (hq : addFiles parse config read p files = .ok q) : Assembled q :=
  addFiles_invariant hq (fun _ _ _ _ _ _ hp hq => hp.addSource hq) h

end Program

end RustFlow
