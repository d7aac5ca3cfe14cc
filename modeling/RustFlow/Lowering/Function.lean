/-
# Lowering functions

Specification, section 5 (*Module/Program Assembler*), pass 3.

The signature of a function is resolved parameter by parameter, each type before
its pattern, and then its result.  The patterns of parameters see no variables.
-/

import RustFlow.Ast.Item
import RustFlow.Lowering.Body

namespace RustFlow

namespace Receiver

/-- How a receiver takes `self`. -/
def ofMarks (behindRef mutable : Bool) : Receiver :=
  if !behindRef then .byValue else if mutable then .byMutRef else .byRef

/-- How the receiver among some parameters takes `self`. -/
def ofParams? (params : List Ast.Param) : Option Receiver :=
  params.findSome? fun
    | .receiver _ behindRef mutable => some (ofMarks behindRef mutable)
    | .typed _ _ _ => none

end Receiver

namespace Parameter

/-- The parameter for `self`.  It is mutable only if taken by value. -/
def receiver (scope : Scope) (pos : Position) (byRef mutable : Bool) : Parameter :=
  let v : Variable := ⟨"self", !byRef && mutable⟩
  ⟨v.name, scope.selfType.getD .unknown, v.mutable, .binding v, scope.locate pos⟩

/-- A parameter with a pattern.  One that destructures is named by the text of its
pattern. -/
def ofPattern (p : Pattern) (type : TypeId) (location : Location) : Parameter :=
  match p with
  | .binding v => ⟨v.name, type, v.mutable, p, location⟩
  | _ => ⟨p.render, type, false, p, location⟩

end Parameter

namespace Scope

/-- Resolves a parameter. -/
def lowerParam (s : Scope) : Ast.Param → Attempt Arena Parameter
  | .receiver pos byRef mutable => return .receiver s pos byRef mutable
  | .typed pos pat type => do
    let t ← s.resolve type.type
    let p ← (s.lowerPat pat).zoom (fun a => Context.mk a []) fun c _ => c.arena
    return .ofPattern p t (s.locate pos)

/-- Resolves parameters from left to right. -/
def lowerParams (s : Scope) : List Ast.Param → Attempt Arena (List Parameter)
  | [] => return []
  | p :: ps => do
    let first ← s.lowerParam p
    let rest ← s.lowerParams ps
    return first :: rest

/-- Resolves the signature of a function of a unit. -/
def lowerSignature (s : Scope) (unit : UnitId) (fn : Ast.FnDecl) : Attempt Arena Signature := do
  let params ← s.lowerParams fn.params
  let returnType ← s.resolveResult fn.result
  return ⟨fn.name, unit, s.locate fn.pos, params, returnType, Receiver.ofParams? fn.params⟩

/-- The control-flow graph of a function of a unit. -/
def lowerFunction (s : Scope) (config : Config) (unit : UnitId) (fn : Ast.FnDecl) :
    Attempt Arena Cfg :=
  if fn.isAsync then s.refuse .asyncFn fn.pos
  else if fn.isVariadic then s.refuse .variadicFn fn.pos
  else do
    let sig ← s.lowerSignature unit fn
    Cfg.ofBody config s sig fn.body

end Scope

end RustFlow
