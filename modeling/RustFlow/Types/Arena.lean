/-
# The type arena

Specification, section 2 (*Type Lattice and Interning*): Types, and Interning, Reset and
Layout metadata under Operations.

Every type lives in an `Arena` and is referred to by a `TypeId`, its index.
Interning a form that is already there gives the index it has, so equal types
have equal indices.

* indices `0` to `18` are fixed: the unknown type, the unit type and the
  primitives;
* composites follow in the order in which they were first interned;
* an index past the end reads as the unknown type.

Structs and enums are known by name and owning unit.  Their members live beside
the forms, in `layouts`, so a struct can be declared before its fields are
known.
-/

namespace RustFlow

/-- The index of a type in an arena.  It is a natural number: 32 bits hold the indices of an
arena of at most `2 ^ 32` types, and larger ones are not cut off here. -/
structure TypeId where
  index : Nat
deriving DecidableEq, Repr, Inhabited

/-- The index of a unit in a program. -/
structure UnitId where
  index : Nat
deriving DecidableEq, Repr, Inhabited

namespace UnitId

/-- The text `unit#N`. -/
def render (u : UnitId) : String := "unit#" ++ toString u.index

end UnitId

/-- The widths of signed and unsigned integers. -/
inductive IntWidth where
  | w8 | w16 | w32 | w64 | w128 | size
deriving DecidableEq, Repr

namespace IntWidth

/-- The digits (or word) after `i` or `u` in an integer type's name. -/
def suffix : IntWidth → String
  | w8 => "8"
  | w16 => "16"
  | w32 => "32"
  | w64 => "64"
  | w128 => "128"
  | size => "size"

end IntWidth

/-- The widths of floating-point numbers. -/
inductive FloatWidth where
  | single | double
deriving DecidableEq, Repr

namespace FloatWidth

/-- The name of a floating-point type. -/
def name : FloatWidth → String
  | single => "f32"
  | double => "f64"

end FloatWidth

/-- One layer of a type: its outermost form over the indices of its parts. -/
inductive TypeForm where
  | unknown
  | unit
  | bool
  | char
  | str
  | int (width : IntWidth)
  | uint (width : IntWidth)
  | float (width : FloatWidth)
  | pointer (target : TypeId) (mutable : Bool)
  | reference (target : TypeId) (mutable : Bool)
  | array (element : TypeId) (length : Nat)
  | tuple (elements : List TypeId)
  | struct (name : String) (owner : UnitId)
  | enum (name : String) (owner : UnitId)
deriving DecidableEq, Repr

namespace TypeForm

/-- The fixed forms, in index order. -/
def primitives : List TypeForm :=
  [unknown, unit, bool, char, str,
    int .w8, int .w16, int .w32, int .w64, int .w128, int .size,
    uint .w8, uint .w16, uint .w32, uint .w64, uint .w128, uint .size,
    float .single, float .double]

/-- The indices a form is built over. -/
def parts : TypeForm → List TypeId
  | pointer t _ => [t]
  | reference t _ => [t]
  | array t _ => [t]
  | tuple ts => ts
  | _ => []

end TypeForm

namespace TypeId

/-- The top of the assignability order: nothing is known about the value. -/
def unknown : TypeId := ⟨0⟩
def unit : TypeId := ⟨1⟩
def bool : TypeId := ⟨2⟩
def char : TypeId := ⟨3⟩
def str : TypeId := ⟨4⟩
def i32 : TypeId := ⟨7⟩
def u8 : TypeId := ⟨11⟩
def f32 : TypeId := ⟨17⟩
def f64 : TypeId := ⟨18⟩

/-- Whether an index is one of the fixed ones other than the unknown type. -/
def isPrimitive (t : TypeId) : Bool :=
  t.index < TypeForm.primitives.length && t != unknown

/-- The fixed type of a given name. -/
def primitive? (name : String) : Option TypeId :=
  match name with
  | "()" => some unit
  | "bool" => some bool
  | "char" => some char
  | "str" => some str
  | "i8" => some ⟨5⟩
  | "i16" => some ⟨6⟩
  | "i32" => some i32
  | "i64" => some ⟨8⟩
  | "i128" => some ⟨9⟩
  | "isize" => some ⟨10⟩
  | "u8" => some u8
  | "u16" => some ⟨12⟩
  | "u32" => some ⟨13⟩
  | "u64" => some ⟨14⟩
  | "u128" => some ⟨15⟩
  | "usize" => some ⟨16⟩
  | "f32" => some f32
  | "f64" => some f64
  | _ => none

end TypeId

/-- A named member with its type. -/
structure Field where
  name : String
  type : TypeId
deriving DecidableEq, Repr

/-- What a variant of an enum carries. -/
inductive VariantShape where
  | unit
  | tuple (types : List TypeId)
  | struct (fields : List Field)
deriving DecidableEq, Repr

namespace VariantShape

/-- The carried types, in declaration order. -/
def types : VariantShape → List TypeId
  | unit => []
  | tuple ts => ts
  | struct fs => fs.map Field.type

end VariantShape

/-- A variant of an enum. -/
structure Variant where
  name : String
  shape : VariantShape
deriving DecidableEq, Repr

/-- The members of a declared struct or enum. -/
inductive Layout where
  | struct (fields : List Field)
  | enum (variants : List Variant)
deriving DecidableEq, Repr

/-- All types of a program. -/
structure Arena where
  /-- The forms, by index. -/
  forms : List TypeForm
  /-- The layouts given so far, the latest first. -/
  layouts : List (TypeId × Layout)
deriving DecidableEq, Repr

namespace Arena

/-- The arena that holds the fixed types only. -/
def empty : Arena := ⟨TypeForm.primitives, []⟩

instance : Inhabited Arena := ⟨empty⟩

/-- The number of types. -/
def size (a : Arena) : Nat := a.forms.length

/-- Whether only the fixed types are there. -/
def isEmpty (a : Arena) : Bool := a.size == TypeForm.primitives.length

/-- The form at an index; an index past the end reads as unknown. -/
def form (a : Arena) (t : TypeId) : TypeForm :=
  a.forms[t.index]?.getD .unknown

/-- The index of a form that is in the arena. -/
def lookup (a : Arena) (f : TypeForm) : Option TypeId :=
  (a.forms.idxOf? f).map TypeId.mk

/-- The index of a form, which is added at the end if it is new. -/
def intern (a : Arena) (f : TypeForm) : TypeId × Arena :=
  match a.lookup f with
  | some t => (t, a)
  | none => (⟨a.size⟩, { a with forms := a.forms ++ [f] })

def pointer (a : Arena) (target : TypeId) (mutable : Bool) : TypeId × Arena :=
  a.intern (.pointer target mutable)

def reference (a : Arena) (target : TypeId) (mutable : Bool) : TypeId × Arena :=
  a.intern (.reference target mutable)

def array (a : Arena) (element : TypeId) (length : Nat) : TypeId × Arena :=
  a.intern (.array element length)

/-- A tuple; the empty one is the unit type. -/
def tuple (a : Arena) (elements : List TypeId) : TypeId × Arena :=
  match elements with
  | [] => (.unit, a)
  | e :: es => a.intern (.tuple (e :: es))

def declareStruct (a : Arena) (name : String) (owner : UnitId) : TypeId × Arena :=
  a.intern (.struct name owner)

def declareEnum (a : Arena) (name : String) (owner : UnitId) : TypeId × Arena :=
  a.intern (.enum name owner)

/-- Drops every composite and every layout. -/
def reset (_ : Arena) : Arena := empty

/-- Gives a type a layout, in place of the one it had. -/
def setLayout (a : Arena) (t : TypeId) (l : Layout) : Arena :=
  { a with layouts := (t, l) :: a.layouts }

/-- The layout of a type, if one was given. -/
def layout? (a : Arena) (t : TypeId) : Option Layout :=
  a.layouts.lookup t

def defineStruct (a : Arena) (t : TypeId) (fields : List Field) : Arena :=
  a.setLayout t (.struct fields)

/-- The fields of a struct layout; none for anything else. -/
def fields (a : Arena) (t : TypeId) : List Field :=
  match a.layout? t with
  | some (.struct fs) => fs
  | _ => []

/-- The variants of an enum layout; none for anything else. -/
def variants (a : Arena) (t : TypeId) : List Variant :=
  match a.layout? t with
  | some (.enum vs) => vs
  | _ => []

/-- The first variant of a given name. -/
def variant? (a : Arena) (t : TypeId) (name : String) : Option Variant :=
  (a.variants t).find? fun v => v.name == name

/-- The type of a field by name; unknown if there is no such field. -/
def fieldType (a : Arena) (t : TypeId) (name : String) : TypeId :=
  (((a.fields t).find? fun f => f.name == name).map Field.type).getD .unknown

def findStruct (a : Arena) (name : String) (owner : UnitId) : Option TypeId :=
  a.lookup (.struct name owner)

def findEnum (a : Arena) (name : String) (owner : UnitId) : Option TypeId :=
  a.lookup (.enum name owner)

/-- The struct, or else the enum, of a given name and owner. -/
def findNamed (a : Arena) (name : String) (owner : UnitId) : Option TypeId :=
  (a.findStruct name owner).or (a.findEnum name owner)

def isStruct (a : Arena) (t : TypeId) : Bool :=
  match a.form t with
  | .struct _ _ => true
  | _ => false

def isEnum (a : Arena) (t : TypeId) : Bool :=
  match a.form t with
  | .enum _ _ => true
  | _ => false

/-- The type behind one pointer or reference; unknown for anything else. -/
def pointee (a : Arena) (t : TypeId) : TypeId :=
  match a.form t with
  | .pointer inner _ => inner
  | .reference inner _ => inner
  | _ => .unknown

/-- How deep a walk through the arena may go.  Parts come before what is built
over them, so a walk from any index visits each index at most once. -/
def depth (a : Arena) : Nat := a.size + 1

/-- Strips at most `fuel` pointers and references. -/
def peelWithin (a : Arena) : Nat → TypeId → TypeId
  | 0, t => t
  | n + 1, t =>
    match a.form t with
    | .pointer inner _ => peelWithin a n inner
    | .reference inner _ => peelWithin a n inner
    | _ => t

/-- The type behind all pointers and references. -/
def peel (a : Arena) (t : TypeId) : TypeId := a.peelWithin a.depth t

end Arena

end RustFlow
