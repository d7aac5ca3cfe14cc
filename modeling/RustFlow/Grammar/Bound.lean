/-
# Generic parameters, bounds and where clauses

A bound is a lifetime, a trait or, in an `impl` type, a list `use<…>` of what the
type captures.

* A trait may stand in parentheses, behind `?`, or behind a `for<…>` binder, but
  not behind both;
* where constant traits are admitted it may be `const` or `[const]`, and the whole
  bound is then kept verbatim;
* only the path of a trait takes arguments in parentheses, as in `Fn(A) -> B`.

A binder declares parameters of every kind.  A colon after a parameter that no
bound follows leaves no trace in the text.
-/

import RustFlow.Grammar.Path

namespace RustFlow
namespace Grammar

/-! ### Generic parameters -/

/-- A generic parameter; a type parameter keeps its name. -/
inductive GenericParam where
  | lifetime
  | type (name : String)
  | const
deriving DecidableEq, Repr

namespace GenericParam

/-- The name of a type parameter. -/
def typeName? : GenericParam → Option String
  | type name => some name
  | lifetime | const => none

end GenericParam

/-- Reads lifetimes with `+` between them, until a condition holds. -/
def lifetimesUntil (stop : List Token → Bool) : Parse Unit := do
  if !(stop (← ahead)) then
    let _ ← joined "+" (fun ts => !stop ts) lifetime

/-- Reads a colon, if one comes next, and what follows it up to a condition.  A
colon that nothing follows leaves no trace in the text. -/
def afterColon (stop : List Token → Bool) (p : Parse Unit) : Parse Unit := do
  let before := (← get).trail
  if ← punct? ":" then
    if stop (← ahead) then modify fun c => { c with trail := before } else p

/-- Whether a generic parameter ends here. -/
def endsParam (ts : List Token) : Bool :=
  ts.isEmpty || startsPunct "," ts || startsPunct ">" ts

/-- Reads a generic parameter. -/
def genericParam (r : Rules) : Parse GenericParam := do
  let _ ← outerAttributes r
  let ts ← ahead
  if startsLifetime ts then
    let _ ← lifetime
    afterColon endsParam (lifetimesUntil endsParam)
    return .lifetime
  else if startsIdent ts then
    let name ← ident
    let stop (ts : List Token) : Bool := endsParam ts || startsPunct "=" ts
    afterColon stop (boundsUntil r .declaration stop)
    if ← punct? "=" then
      let _ ← r.type true
    return .type name
  else
    word "const"
    let _ ← ident
    punct ":"
    let _ ← r.type true
    if ← punct? "=" then constArgument r
    return .const

/-- Whether a parameter `_` comes next, attributes aside. -/
def blankParam? (r : Rules) : Parse Bool := do
  let start ← get
  let _ ← outerAttributes r
  if ← word? "_" then return true
  else
    set start
    return false

/-- Reads generic parameters, if there are any, and gives the names of the type
parameters; the flag says whether any brackets were written. -/
def genericParams (r : Rules) : Parse (Bool × List String) := do
  if startsPunct "<" (← ahead) then
    let (params, pieces) ← apart (angleList (· == .lifetime) do
      if ← blankParam? r then return .type "_" else genericParam r)
    if !params.isEmpty then emit pieces
    return (true, params.filterMap GenericParam.typeName?)
  else return (false, [])

/-- Whether `<` starts generic parameters rather than a path with a self type. -/
def startsGenerics (ts : List Token) : Bool :=
  let second := ts.drop 1
  let third := ts.drop 2
  startsPunct "<" ts &&
    (startsPunct ">" second || startsPunct "#" second || startsWord "const" second ||
      ((startsLifetime second || startsIdent second) &&
        (startsPunct ">" third || startsPunct "," third || startsPunct "=" third ||
          (startsPunct ":" third && !startsPunct "::" third))))

/-- Reads a `for<…>` binder, if one comes next, and says whether it did. -/
def binder? (r : Rules) : Parse Bool := do
  if ← word? "for" then
    punct "<"
    let _ ← separated (startsPunct ">") "," (genericParam r)
    punct ">"
    return true
  else return false

/-! ### Bounds -/

/-- Reads the types and the result of `Fn(A, B) -> C`. -/
def callArguments (r : Rules) : Parse Unit := do
  let _ ← group .paren (commaSeparated (r.type true))
  if ← punct? "->" then
    let _ ← r.type false

/-- Whether the last segment has no arguments and `(` comes next, a `::` before it
or not. -/
def callFollows (segments : List Ast.Segment) (ts : List Token) : Bool :=
  !((segments.getLast?.map Ast.Segment.generic).getD true) &&
    (startsGroup .paren ts || (startsPunct "::" ts && startsGroup .paren (ts.drop 2)))

/-- Skips a `::` without a trace in the text. -/
def dropColons : Parse Unit :=
  modify fun c => if startsPunct "::" c.ahead then { c with ahead := c.ahead.drop 2 } else c

/-- Reads the path of a trait bound. -/
def traitPath (r : Rules) : Parse Unit := do
  let path ← plainPath (segment r false)
  if callFollows path.segments (← ahead) then
    dropColons
    callArguments r

/-- Reads a trait bound that has no parentheses around it, and says whether it is
`const`. -/
def traitBound (r : Rules) (place : BoundPlace) : Parse Bool := do
  let bound ← binder? r
  let ts ← ahead
  let bracketed := startsGroup .bracket ts
  let isConst := bracketed || startsWord "const" ts
  if isConst then
    require place.admitsConst
    if bracketed then group .bracket (word "const") else word "const"
  if ← punct? "?" then require !bound
  traitPath r
  return isConst

/-- Reads a name or a lifetime that a type captures, and says whether it is a
lifetime. -/
def captured : Parse Bool := do
  let ts ← ahead
  if startsLifetime ts then
    let _ ← lifetime
    return true
  else
    require (startsIdent ts || startsWord "Self" ts)
    let _ ← anyWord
    return false

/-- Reads a bound, and says whether it is a trait. -/
def bound (r : Rules) (place : BoundPlace) : Parse Bool := do
  let ts ← ahead
  if startsLifetime ts then
    let _ ← lifetime
    return false
  else if startsWord "use" ts then
    require place.admitsCapture
    word "use"
    let _ ← angleList id captured
    return false
  else
    let _ ← verbatimIf id
      (if startsGroup .paren ts then group .paren (traitBound r place) else traitBound r place)
    return true

/-- Whether a bound comes next. -/
def startsBound (place : BoundPlace) (ts : List Token) : Bool :=
  startsAnyWord ts || startsPunct "::" ts || startsPunct "?" ts || startsLifetime ts ||
    startsGroup .paren ts || (place.admitsConst && startsGroup .bracket ts)

/-- Reads bounds of which one has to be a trait; the flag admits more than one. -/
def traitBounds (r : Rules) (place : BoundPlace) (allowPlus : Bool) : Parse Unit := do
  let kinds ←
    if allowPlus then joined "+" (startsBound place) (r.bound place)
    else List.singleton <$> r.bound place
  require (kinds.any id)

/-! ### Where clauses -/

/-- Where the predicates of a where clause, or the bounds of one, end. -/
def endsPredicate (ts : List Token) : Bool :=
  ts.isEmpty || startsGroup .brace ts || startsPunct "," ts || startsPunct ";" ts ||
    (startsPunct ":" ts && !startsPunct "::" ts) || startsPunct "=" ts

/-- Reads a predicate of a where clause. -/
def wherePredicate (r : Rules) : Parse Unit := do
  let ts ← ahead
  if startsLifetime ts && startsPunct ":" (ts.drop 1) then
    let _ ← lifetime
    punct ":"
    lifetimesUntil endsPredicate
  else
    let _ ← binder? r
    let _ ← r.type true
    punct ":"
    boundsUntil r .declaration endsPredicate

/-- Reads a where clause, if one comes next, and says whether it did.  One without
predicates leaves no trace in the text. -/
def whereClause (r : Rules) : Parse Bool := do
  let before := (← get).trail
  if ← word? "where" then
    let ts ← ahead
    require !(startsGenerics ts)
    if endsPredicate ts then modify fun c => { c with trail := before }
    else
      let _ ← joined "," (fun ts => !endsPredicate ts) (wherePredicate r)
    return true
  else return false

end Grammar
end RustFlow
