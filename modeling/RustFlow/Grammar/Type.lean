/-
# Types

Every written type is read, and the forms that the arena has no place for are
kept as `other`.  A trait object without `dyn` that has a single bound is told
apart, since in parentheses it may be the first of several bounds.
-/

import RustFlow.Grammar.Bound

namespace RustFlow
namespace Grammar

/-- Reads the path of a type. -/
def typePath (r : Rules) : Parse Ast.Path := do
  let pos ← here
  let (path, text) ← capture (rawPath r false)
  return path.toPath pos text

/-- Reads `extern "C"`, if it comes next. -/
def abi? : Parse Unit := do
  if ← word? "extern" then
    match ← ahead with
    | .literal _ (.str _) _ :: _ =>
      let _ ← lit
    | _ => pure ()

/-- Reads the result of a function, if one is written; the flag admits `+`. -/
def result? (r : Rules) (allowPlus : Bool) : Parse (Option Ast.TypeAnn) := do
  if ← punct? "->" then
    let pos ← here
    let (type, text) ← capture (r.type allowPlus)
    return some ⟨type, pos, text⟩
  else return none

/-- Reads a parameter of a function pointer type after its attributes.  The first
may be `self` or `mut self`; with `mut` it is kept verbatim. -/
def pointerParam (r : Rules) (isFirst : Bool) : Parse Unit := do
  let startsMutSelf (ts : List Token) : Bool :=
    isFirst && startsWord "mut" ts && startsWord "self" (ts.drop 1)
  let _ ← verbatimIf id do
    let marked := startsMutSelf (← ahead)
    if marked then word "mut"
    let ts ← ahead
    let isSelf := isFirst && startsWord "self" ts
    let second := ts.drop 1
    let named := (startsIdent ts || startsWord "_" ts || isSelf) && startsPunct ":" second &&
      !startsPunct "::" second
    if named then
      let _ ← anyWord
      punct ":"
    if !(named && isSelf) && startsMutSelf (← ahead) then
      word "mut"
      word "self"
      return true
    else if marked && !named then
      word "self"
      return true
    else
      let _ ← r.type true
      return marked

/-- Reads the parameters of a function pointer type, at most a given number.
`...` ends them. -/
def pointerParamsWithin (r : Rules) (isFirst : Bool) : Nat → Parse Unit
  | 0 => failure
  | n + 1 => do
    if !(← atEnd) then
      let _ ← outerAttributes r
      let ts ← ahead
      let named := (startsIdent ts || startsWord "_" ts) && startsPunct ":" (ts.drop 1) &&
        startsPunct "..." (ts.drop 2)
      if named || startsPunct "..." ts then
        if named then
          let _ ← anyWord
          punct ":"
        punct "..."
        let _ ← punct? ","
      else
        pointerParam r isFirst
        if !(← atEnd) then
          punct ","
          pointerParamsWithin r false n

/-- Reads a function pointer type. -/
def fnPointer (r : Rules) : Parse Unit := do
  let _ ← word? "unsafe"
  abi?
  word "fn"
  group .paren do
    pointerParamsWithin r true ((← ahead).length + 1)
  let _ ← result? r false

/-- Whether a type in parentheses may be the first of several bounds. -/
def isSingleBound : Ast.TypeExpr → Bool
  | .path p => !p.qualified
  | .bareBound _ => true
  | _ => false

/-- Whether a type in parentheses is a bound that has parentheses of its own. -/
def isDoublyEnclosed : Ast.TypeExpr → Bool
  | .paren (.bareBound enclosed) => enclosed
  | _ => false

/-- Reads a parenthesised type or a tuple.  Bounds may follow a bound in
parentheses; of two pairs around it one is kept. -/
def parenType (r : Rules) (allowPlus : Bool) : Parse Ast.TypeExpr := do
  let before := (← get).trail
  let ((type, single), inner) ← group .paren (traced do
    let ts ← ahead
    if ts.isEmpty then return (Ast.TypeExpr.tuple [], false)
    else if startsLifetime ts then
      traitBounds r .object true
      return (.paren .other, false)
    else if startsPunct "?" ts then
      let _ ← traitBound r .object
      return (.bareBound true, true)
    else
      let first ← r.type true
      if ← punct? "," then return (.tuple (first :: (← commaSeparated (r.type true))), false)
      else return (.paren first, allowPlus && isSingleBound first))
  if single && startsPunct "+" (← ahead) then
    if isDoublyEnclosed type then modify fun c => { c with trail := inner.reverse ++ before }
    let _ ← whileAhead (startsPunct "+") do
      punct "+"
      r.bound .object
    return .other
  else return type

/-- Reads a type that starts with a path: the path itself, a macro call or bounds
without `dyn`.  The pieces of a binder before it are given; a macro call drops
them. -/
def pathType (r : Rules) (binder : Option (List Token.Piece)) (allowPlus : Bool) :
    Parse Ast.TypeExpr := do
  let (path, pieces) ← apart (typePath r)
  let ts ← ahead
  if !path.qualified && startsPunct "!" ts && !startsPunct "!=" ts && isNamePath path then
    emit pieces
    punct "!"
    let _ ← anyGroup
    return .other
  else
    emit (binder.getD [] ++ pieces)
    if path.qualified then return .path path
    else if binder.isSome || (allowPlus && startsPunct "+" ts) then
      let more ← if allowPlus then punct? "+" else pure false
      if more && startsBound .object (← ahead) then
        let _ ← joined "+" (startsBound .object) (r.bound .object)
      return if more then .other else .bareBound false
    else return .path path

/-- Reads a type. -/
def typeExpr (r : Rules) (allowPlus : Bool) : Parse Ast.TypeExpr := do
  let (bound, pieces) ← apart (binder? r)
  let ts ← ahead
  let startsPointer := startsOneOf ["fn", "unsafe", "extern"] ts
  if bound then require (startsSegment ts || startsPointer)
  if startsGroup .paren ts then parenType r allowPlus
  else if startsPointer then
    emit pieces
    fnPointer r
    return .other
  else if startsSegment ts || startsPunct "::" ts || startsPunct "<" ts then
    pathType r (if bound then some pieces else none) allowPlus
  else if startsWord "dyn" ts then
    let _ ← verbatimIf id do
      word "dyn"
      let starred ← punct? "*"
      traitBounds r .object allowPlus
      return starred
    return .other
  else if startsGroup .bracket ts then
    group .bracket do
      let element ← r.type true
      if ← punct? ";" then return .array element (← r.expr true).literalLength
      else return .other
  else if ← punct? "*" then
    let mutable ← word? "mut"
    if !mutable then word "const"
    return .pointer mutable (← r.type false)
  else if ← punct? "&" then
    let _ ← lifetime?
    let mutable ← word? "mut"
    return .reference mutable (← r.type false)
  else if startsPunct "!" ts && !startsPunct "=" ts then
    punct "!"
    return .other
  else if ← word? "impl" then
    traitBounds r .implType allowPlus
    return .other
  else if ← word? "_" then return .other
  else if startsLifetime ts then
    traitBounds r .object true
    return .other
  else failure

/-- Reads a type with its place and text. -/
def typeAnn (r : Rules) : Parse Ast.TypeAnn := do
  let pos ← here
  let (type, text) ← capture (r.type true)
  return ⟨type, pos, text⟩

end Grammar
end RustFlow
