/-
# Assembly of a file

The items of a file are gone through three times:

1. every struct and enum is declared and gets a unit, so that types may refer to
   each other in any order;
2. fields, variants and constants are resolved;
3. functions and methods are lowered to control-flow graphs.

A failing item is recorded and the others are still assembled, unless the
configuration asks to stop at the first failure.  What an item had interned or
added before it failed stays.
-/

import RustFlow.Lowering.Function
import RustFlow.Program
import RustFlow.Text.FileStem

namespace RustFlow

/-- What stays the same while a file is assembled. -/
structure FileSetting where
  config : Config
  file : String
  /-- The unit of the file. -/
  module : UnitId

namespace FileSetting

/-- A place in the file. -/
def locate (f : FileSetting) (p : Position) : Location := ⟨f.file, p⟩

/-- The scope of the items of the file. -/
def scope (f : FileSetting) : Scope := ⟨f.module, none, [], f.config.strictTypes, f.file⟩

end FileSetting

namespace Assembly

/-- Runs a computation on the arena of a program. -/
def onArena {α : Type} (m : Attempt Arena α) : Attempt Program α :=
  m.zoom Program.arena fun a p => { p with arena := a }

/-- Adds a global to a unit. -/
def addGlobal (unit : UnitId) (g : Global) : Attempt Program Unit :=
  modify fun p => p.modifyUnit unit fun u => u.addGlobal g

/-- Adds a list of globals to a unit. -/
def addGlobals (unit : UnitId) (gs : List Global) : Attempt Program Unit :=
  modify fun p => p.modifyUnit unit fun u => gs.foldl SourceUnit.addGlobal u

/-- Assembles one item of a unit.  Its failure ends the assembly or is recorded. -/
def isolate (f : FileSetting) (unit : UnitId) (item : String) (m : Attempt Program Unit) :
    Attempt Program Unit := fun p =>
  match m p with
  | (.ok _, after) => (.ok (), after)
  | (.error e, after) =>
    if f.config.failFast then (.error e, after)
    else (.ok (), after.addDiagnostic ⟨after.unitName unit, item, e⟩)

/-- Goes through a list from left to right. -/
def each {α : Type} (m : α → Attempt Program Unit) : List α → Attempt Program Unit
  | [] => return
  | a :: rest => do
    m a
    each m rest

/-! ### Declaration -/

/-- Interns a struct or enum and gives it a unit.  A name is declared once. -/
def registerType (f : FileSetting) (kind : UnitKind) (form : TypeForm) (name : String)
    (pos : Position) : Attempt Program Unit := do
  let p ← get
  if (p.arena.findNamed name f.module).isSome then
    throw (.unsupported (.secondDefinition name) (f.locate pos))
  else
    let (t, arena) := p.arena.intern form
    let u : SourceUnit := ⟨p.nextUnit, name, kind, f.locate pos, some f.module, some t, [], []⟩
    set ({ p with arena }.addUnit u)

/-- Declares a struct or enum. -/
def declareType (f : FileSetting) (kind : UnitKind) (form : TypeForm) (name : String)
    (pos : Position) : Attempt Program Unit :=
  isolate f f.module name (registerType f kind form name pos)

/-- The first pass: types are declared, and items that are not modelled are
refused. -/
def declareItem (f : FileSetting) : Ast.Item → Attempt Program Unit
  | .struct name pos _ _ => declareType f .struct (.struct name f.module) name pos
  | .enum name pos _ _ => declareType f .enum (.enum name f.module) name pos
  | .other pos what name => isolate f f.module name (f.scope.refuse what pos)
  | .function _ => return
  | .impl _ _ _ => return
  | .const _ _ _ => return
  | .useDecl => return
  | .externCrate => return

/-! ### Layouts -/

/-- The type and the unit that a name was declared as in this file.  A type has the
one unit that it was registered with, so a search through all units finds what a map
from the types of this file to their units would. -/
def declared? (f : FileSetting) (p : Program) (name : String) : Option (TypeId × SourceUnit) := do
  let t ← p.arena.findNamed name f.module
  let u ← p.unitOfType? t
  return (t, u)

/-- The type and the unit that were declared for the item at a place; none for a
refused second definition. -/
def registered? (f : FileSetting) (p : Program) (name : String) (pos : Position) :
    Option (TypeId × SourceUnit) :=
  (declared? f p name).filter fun (_, u) => u.location == f.locate pos

/-- Resolves fields.  A positional field is named by its index. -/
def resolveFields (s : Scope) : Nat → List Ast.FieldDecl → Attempt Arena (List Field)
  | _, [] => return []
  | i, d :: rest => do
    let t ← s.resolve d.type.type
    let others ← resolveFields s (i + 1) rest
    return ⟨d.name.getD (toString i), t⟩ :: others

/-- Resolves what a variant carries. -/
def resolveShape (s : Scope) : Ast.Fields → Attempt Arena VariantShape
  | .unit => return .unit
  | .positional ds => do
    let fields ← resolveFields s 0 ds
    return .tuple (fields.map Field.type)
  | .named ds => do
    let fields ← resolveFields s 0 ds
    return .struct fields

/-- Resolves the shapes of variants. -/
def resolveShapes (s : Scope) : List Ast.VariantDecl → Attempt Arena (List VariantShape)
  | [] => return []
  | v :: rest => do
    let shape ← resolveShape s v.fields
    let others ← resolveShapes s rest
    return shape :: others

/-- The global of a field. -/
def fieldGlobal (f : FileSetting) (d : Ast.FieldDecl) (field : Field) : Global :=
  ⟨field.name, field.type, f.locate d.pos⟩

/-- Gives a struct its fields, which are also globals of its unit. -/
def resolveStruct (f : FileSetting) (t : TypeId) (unit : UnitId) (generics : List String)
    (decls : List Ast.FieldDecl) : Attempt Program Unit := do
  let scope := (f.scope.withSelf t).withGenerics generics
  let fields ← onArena (resolveFields scope 0 decls)
  addGlobals unit (List.zipWith (fieldGlobal f) decls fields)
  onArena (modify fun a => a.defineStruct t fields)

/-- Gives an enum its variants. -/
def resolveEnum (f : FileSetting) (t : TypeId) (generics : List String)
    (variants : List Ast.VariantDecl) : Attempt Program Unit := do
  let scope := (f.scope.withSelf t).withGenerics generics
  let shapes ← onArena (resolveShapes scope variants)
  match (← get).arena.defineEnum t (variants.map Ast.VariantDecl.name) shapes with
  | .ok arena => onArena (set arena)
  | .error e => throw e

/-- Resolves a constant, which becomes a global of a unit. -/
def resolveConst (f : FileSetting) (scope : Scope) (unit : UnitId) (name : String)
    (pos : Position) (type : Ast.TypeAnn) : Attempt Program Unit :=
  isolate f unit name do
    let t ← onArena (scope.resolve type.type)
    addGlobal unit ⟨name, t, f.locate pos⟩

/-- The second pass: layouts and constants are resolved. -/
def resolveItem (f : FileSetting) : Ast.Item → Attempt Program Unit
  | .struct name pos generics fields => do
    match registered? f (← get) name pos with
    | some (t, u) => isolate f u.id name (resolveStruct f t u.id generics fields.toList)
    | none => return
  | .enum name pos generics variants => do
    match registered? f (← get) name pos with
    | some (t, u) => isolate f u.id name (resolveEnum f t generics variants)
    | none => return
  | .const name pos type => resolveConst f f.scope f.module name pos type
  | .function _ => return
  | .impl _ _ _ => return
  | .useDecl => return
  | .externCrate => return
  | .other _ _ _ => return

/-! ### Functions -/

/-- Lowers a function, whose graph is added to a unit. -/
def lowerFunction (f : FileSetting) (scope : Scope) (unit : UnitId) (fn : Ast.FnDecl) :
    Attempt Program Unit :=
  isolate f unit fn.name do
    let cfg ← onArena ((scope.withGenerics fn.generics).lowerFunction f.config unit fn)
    modify fun p => p.modifyUnit unit fun u => u.addCfg cfg

/-- Assembles a member of an `impl` block. -/
def lowerMember (f : FileSetting) (scope : Scope) (unit : UnitId) : Ast.Member → Attempt Program Unit
  | .method fn => lowerFunction f scope unit fn
  | .const name pos type => resolveConst f scope unit name pos type
  | .other pos => isolate f unit "impl" (scope.refuse .associatedItem pos)

/-- The type and the unit that an `impl` block is for: the last name of a path. -/
def implTarget? (f : FileSetting) (p : Program) : Ast.TypeExpr → Option (TypeId × SourceUnit)
  | .path path => if path.qualified then none else declared? f p path.last.name
  | _ => none

/-- The third pass: functions and methods are lowered. -/
def lowerItem (f : FileSetting) : Ast.Item → Attempt Program Unit
  | .function fn => lowerFunction f f.scope f.module fn
  | .impl generics self members => do
    match implTarget? f (← get) self.type with
    | some (t, u) =>
      let scope := (f.scope.withSelf t).withGenerics generics
      each (lowerMember f scope u.id) members
    | none => isolate f f.module self.text (f.scope.refuse (.implFor self.text) self.pos)
  | .struct _ _ _ _ => return
  | .enum _ _ _ _ => return
  | .const _ _ _ => return
  | .useDecl => return
  | .externCrate => return
  | .other _ _ _ => return

end Assembly

namespace Program

/-- Adds the units of a file to a program. -/
def assemble (config : Config) (file : String) (items : List Ast.Item) : Attempt Program Unit := do
  let module := (← get).nextUnit
  let f : FileSetting := ⟨config, file, module⟩
  modify fun p => p.addUnit (.ofModule module (moduleName file) (f.locate .start))
  Assembly.each (Assembly.declareItem f) items
  Assembly.each (Assembly.resolveItem f) items
  Assembly.each (Assembly.lowerItem f) items

end Program

end RustFlow
