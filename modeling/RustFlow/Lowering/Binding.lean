/-
# Binding the variables of a pattern

Specification, section 4 (*Expression and Pattern Lowering*), Patterns, and section 5
(*Module/Program Assembler*), pass 3: the variables of a parameter pattern.

Matching a value of a known type against a pattern gives types to the variables
in it:

* behind `&` they get the type behind the reference;
* in a struct pattern each gets the type of its field;
* in a tuple pattern each gets the type of its element, if the value is a tuple of
  as many elements, behind references or not;
* elsewhere the type is unknown.
-/

import RustFlow.Lowering.Context

namespace RustFlow

/-- What follows the last `::` of a path. -/
def lastSegment (name : String) : String :=
  String.ofList (go name.toList name.toList)
where
  go (best : List Char) : List Char → List Char
    | [] => best
    | c :: rest =>
      if c = ':' && rest.head? == some ':' then go rest.tail rest else go best rest

namespace Arena

/-- The fields that a struct pattern of a given type and name refers to: those of
the struct, or those of the variant that the name ends in. -/
def patternFields (a : Arena) (type : TypeId) (name : String) : List Field :=
  if a.isStruct type then a.fields type
  else
    match (a.variant? type (lastSegment name)).map Variant.shape with
    | some (.struct fields) => fields
    | _ => []

/-- The types of the elements of a tuple pattern against a value. -/
def elementTypes (a : Arena) (type : TypeId) (count : Nat) : List TypeId :=
  match a.form (a.peel type) with
  | .tuple ts => if ts.length = count then ts else List.replicate count .unknown
  | _ => List.replicate count .unknown

end Arena

namespace Locals

mutual

/-- Records the variables of a pattern that a value of a type is matched
against. -/
def bindPattern (a : Arena) : Pattern → TypeId → Locals → Locals
  | .binding v, type, l => l.bind v type
  | .reference _ p, type, l => bindPattern a p (a.pointee type) l
  | .struct name own fields _, _, l => bindFields a (a.patternFields own name) fields l
  | .tuple ps, type, l => bindElements a ps (a.elementTypes type ps.length) l
  | .tupleStruct _ ps, _, l => bindAll a ps l
  | .alternatives ps, _, l => bindAll a ps l
  | .path _, _, l => l
  | .literal _, _, l => l
  | .range _ _ _, _, l => l
  | .rest, _, l => l
  | .wildcard, _, l => l

/-- Records the variables of field patterns against declared fields. -/
def bindFields (a : Arena) (declared : List Field) : List FieldPattern → Locals → Locals
  | [], l => l
  | .mk name p :: fields, l =>
    let type := ((declared.find? fun f => f.name == name).map Field.type).getD .unknown
    bindFields a declared fields (bindPattern a p type l)

/-- Records the variables of patterns against values of the given types, pair by
pair; what is left of the longer list is passed over. -/
def bindElements (a : Arena) : List Pattern → List TypeId → Locals → Locals
  | p :: ps, type :: types, l => bindElements a ps types (bindPattern a p type l)
  | _, _, l => l

/-- Records the variables of patterns against values of unknown types. -/
def bindAll (a : Arena) : List Pattern → Locals → Locals
  | [], l => l
  | p :: ps, l => bindAll a ps (bindPattern a p .unknown l)

end

theorem bindAll_eq_bindElements (a : Arena) (ps : List Pattern) (l : Locals) :
    l.bindAll a ps = l.bindElements a ps (List.replicate ps.length .unknown) := by
  induction ps generalizing l with
  | nil => rfl
  | cons p ps ih => exact ih _

end Locals

namespace Context

/-- Records the variables of a pattern that a value of a type is matched
against. -/
def bindPattern (c : Context) (p : Pattern) (type : TypeId) : Context :=
  { c with locals := c.locals.bindPattern c.arena p type }

end Context

end RustFlow
