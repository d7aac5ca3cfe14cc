/-
# Programs

A program consists of *units*: one for each file, its module, and one for each
struct and enum.  A unit holds globals, which are the constants of a module or the
fields and constants of a type, and the control-flow graphs of its functions.  All
units share one type arena.  An item that cannot be lowered leaves a diagnostic.
-/

import RustFlow.Cfg
import RustFlow.Types.Assignable
import RustFlow.Types.Display

namespace RustFlow

/-- A typed name of a unit: a field, a constant or a static. -/
structure Global where
  name : String
  type : TypeId
  location : Location
deriving DecidableEq, Repr

/-- What a unit stands for. -/
inductive UnitKind where
  | module
  | struct
  | enum
deriving DecidableEq, Repr

namespace UnitKind

/-- The name of a unit kind. -/
def name : UnitKind → String
  | module => "Module"
  | struct => "Struct"
  | enum => "Enum"

end UnitKind

/-- A module, a struct or an enum with what belongs to it. -/
structure SourceUnit where
  id : UnitId
  name : String
  kind : UnitKind
  location : Location
  /-- The module of a struct or enum. -/
  owner : Option UnitId
  /-- The type of a struct or enum. -/
  type : Option TypeId
  /-- The globals in the order in which their names came up; names are distinct. -/
  globals : List Global
  /-- The graphs in the order of their functions. -/
  cfgs : List Cfg

namespace SourceUnit

/-- A unit without members for a file. -/
def ofModule (id : UnitId) (name : String) (location : Location) : SourceUnit :=
  ⟨id, name, .module, location, none, none, [], []⟩

/-- The global of a name. -/
def global? (u : SourceUnit) (name : String) : Option Global :=
  u.globals.find? fun g => g.name == name

/-- Adds a global.  It takes the place of one of the same name. -/
def addGlobal (u : SourceUnit) (g : Global) : SourceUnit :=
  if (u.global? g.name).isSome then
    { u with globals := u.globals.map fun h => if h.name == g.name then g else h }
  else { u with globals := u.globals ++ [g] }

/-- Adds a graph. -/
def addCfg (u : SourceUnit) (c : Cfg) : SourceUnit := { u with cfgs := u.cfgs ++ [c] }

/-- The first graph of a name. -/
def cfg? (u : SourceUnit) (name : String) : Option Cfg := u.cfgs.find? fun c => c.name == name

end SourceUnit

/-- The failure of one item. -/
structure Diagnostic where
  /-- The name of the unit that the item belongs to. -/
  unit : String
  item : String
  error : Error
deriving DecidableEq, Repr

namespace Diagnostic

/-- The text `unit::item: message`. -/
def render (d : Diagnostic) : String := d.unit ++ "::" ++ d.item ++ ": " ++ d.error.message

end Diagnostic

/-- The units of some files, their types, and the failures among their items. -/
structure Program where
  /-- The units by index. -/
  units : List SourceUnit
  arena : Arena
  /-- The failures, the earliest first. -/
  diagnostics : List Diagnostic

namespace Program

/-- The program of no files. -/
def empty : Program := ⟨[], .empty, []⟩

instance : Inhabited Program := ⟨empty⟩

/-- The index of the next unit. -/
def nextUnit (p : Program) : UnitId := ⟨p.units.length⟩

/-- Adds a unit. -/
def addUnit (p : Program) (u : SourceUnit) : Program := { p with units := p.units ++ [u] }

/-- The unit at an index. -/
def unit? (p : Program) (id : UnitId) : Option SourceUnit := p.units[id.index]?

/-- The first unit of a name. -/
def unitNamed? (p : Program) (name : String) : Option SourceUnit :=
  p.units.find? fun u => u.name == name

/-- The name of a unit. -/
def unitName (p : Program) (id : UnitId) : String :=
  ((p.unit? id).map SourceUnit.name).getD id.render

/-- The unit of a struct or enum type. -/
def unitOfType? (p : Program) (t : TypeId) : Option SourceUnit :=
  p.units.find? fun u => u.type == some t

/-- Changes the unit at an index. -/
def modifyUnit (p : Program) (id : UnitId) (f : SourceUnit → SourceUnit) : Program :=
  { p with units := p.units.modify id.index f }

/-- Records a failure. -/
def addDiagnostic (p : Program) (d : Diagnostic) : Program :=
  { p with diagnostics := p.diagnostics ++ [d] }

/-- All graphs, unit by unit. -/
def cfgs (p : Program) : List Cfg := p.units.flatMap SourceUnit.cfgs

/-- The first graph of a name in the first unit of a name. -/
def cfg? (p : Program) (unit name : String) : Option Cfg :=
  (p.unitNamed? unit).bind fun u => u.cfg? name

/-- The text of the type of a global. -/
def globalType? (p : Program) (unit name : String) : Option String := do
  let u ← p.unitNamed? unit
  let g ← u.global? name
  return p.arena.display g.type

/-- Whether a value of one type flows into another, both given as text. -/
def assignable? (p : Program) (source target : String) : Option Bool := do
  let s ← p.arena.findByText source
  let t ← p.arena.findByText target
  return p.arena.assignable s t

/-- The bound of two types, all as text. -/
def common? (p : Program) (left right : String) : Option String := do
  let s ← p.arena.findByText left
  let t ← p.arena.findByText right
  return p.arena.display (p.arena.common s t)

end Program

end RustFlow
