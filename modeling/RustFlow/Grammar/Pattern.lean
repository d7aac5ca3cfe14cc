/-
# Patterns

A lone identifier is a binding, whatever it names; a path of several segments, a
path before `(` or a brace, and `Self` are paths.  A sign belongs to the number
after it.  `..` alone is a rest pattern, and a range pattern may lack either end.
-/

import RustFlow.Grammar.Type

namespace RustFlow
namespace Grammar

/-- Reads the name of a field: an identifier or a number without suffix. -/
def member : Parse String := do
  match ← ahead with
  | .literal _ (.int false n "") _ :: _ =>
    require (n < Ast.Lit.fieldBound)
    take 1 (toString n)
    return toString n
  | _ => ident

/-- Whether a pattern with alternatives goes on. -/
def startsAlternative (ts : List Token) : Bool :=
  startsPunct "|" ts && !startsPunct "||" ts && !startsPunct "|=" ts

/-- Reads a pattern with alternatives; a `|` may come first. -/
def anyPattern (r : Rules) : Parse Ast.Pat := do
  let pos ← here
  let leading ← punct? "|"
  let first ← r.pat
  let rest ← whileAhead startsAlternative do
    punct "|"
    r.pat
  if leading || !rest.isEmpty then return .alternatives pos (first :: rest)
  else return first

/-- Whether a range pattern ends without a bound. -/
def endsRange (ts : List Token) : Bool :=
  ts.isEmpty || startsPunct "|" ts || startsPunct "=" ts ||
    (startsPunct ":" ts && !startsPunct "::" ts) || startsPunct "," ts || startsPunct ";" ts ||
    startsWord "if" ts

/-- Reads an end of a range pattern. -/
def rangeBound (r : Rules) : Parse Ast.Bound := do
  let pos ← here
  let ts ← ahead
  if startsLit ts then return .literal pos (← lit)
  else if startsSegment ts || startsPunct "::" ts || startsPunct "<" ts then
    return .path (← exprPath r)
  else
    word "const"
    let _ ← body r
    return .constBlock pos

/-- Reads `..`, `..=` or, if `obsolete`, `...` in place of `..=`; it says whether
the upper end is included. -/
def rangeLimits (obsolete : Bool) : Parse Bool := do
  if ← punct? "..=" then return true
  else if startsPunct "..." (← ahead) then
    require obsolete
    take 3 "..="
    return true
  else
    punct ".."
    return false

/-- Reads a range pattern after its start. -/
def rangeFrom (r : Rules) (pos : Position) (start : Ast.Bound) : Parse Ast.Pat := do
  let inclusive ← rangeLimits true
  if endsRange (← ahead) then
    require !inclusive
    return .range pos (some start) none false
  else return .range pos (some start) (some (← rangeBound r)) inclusive

/-- Reads a field of a struct pattern. -/
def fieldPattern (r : Rules) : Parse Ast.FieldPat := do
  let pos ← here
  let ts ← ahead
  if startsOneOf ["box", "ref", "mut"] ts then
    let (boxed, mutable, name) ← verbatimIf Prod.fst do
      let boxed ← word? "box"
      let _ ← word? "ref"
      let mutable ← word? "mut"
      return (boxed, mutable, ← ident)
    return .mk name (if boxed then .other pos .otherPattern else .binding pos name mutable)
  else
    let name ← member
    if !startsIdent ts || startsPunct ":" (← ahead) then
      punct ":"
      return .mk name (← anyPattern r)
    else return .mk name (.binding pos name false)

/-- Reads the fields of a struct pattern; the flag says whether `..` ends them.
At most a given number of fields is read. -/
def fieldPatternsWithin (r : Rules) : Nat → Parse (List Ast.FieldPat × Bool)
  | 0 => failure
  | n + 1 => do
    if ← atEnd then return ([], false)
    else
      let _ ← outerAttributes r
      if ← punct? ".." then return ([], true)
      else
        let field ← fieldPattern r
        if ← atEnd then return ([field], false)
        else
          punct ","
          let (fields, rest) ← fieldPatternsWithin r n
          return (field :: fields, rest)

/-- Reads a pattern that starts with a path. -/
def pathPattern (r : Rules) : Parse Ast.Pat := do
  let path ← exprPath r
  let ts ← ahead
  if startsPunct "!" ts && !startsPunct "!=" ts && isNamePath path then
    punct "!"
    let _ ← anyGroup
    return .other path.pos .macroPattern
  else if startsGroup .brace ts then
    let (fields, rest) ← group .brace do
      fieldPatternsWithin r ((← ahead).length + 1)
    return .struct path.pos path fields rest
  else if startsGroup .paren ts then
    return .tupleStruct path.pos path (← group .paren (commaSeparated (anyPattern r)))
  else if startsPunct ".." ts then rangeFrom r path.pos (.path path)
  else return .path path.pos path

/-- Whether a range pattern lacks an end. -/
def isHalfOpen : Ast.Pat → Bool
  | .range _ start stop _ => start.isNone || stop.isNone
  | _ => false

/-- Whether a pattern is `..`. -/
def isRest : Ast.Pat → Bool
  | .rest _ => true
  | _ => false

/-- Reads a tuple pattern, or a pattern in parentheses. -/
def parenPattern (r : Rules) : Parse Ast.Pat := do
  let pos ← here
  let (elements, trailing) ← group .paren do
    let ts ← ahead
    let elements ← commaSeparated (anyPattern r)
    let trailing := (ts.getLast?.map fun t => startsPunct "," [t]).getD false
    return (elements, trailing)
  match elements with
  | [p] => return if trailing || isRest p then .tuple pos [p] else .paren pos p
  | ps => return .tuple pos ps

/-- Reads a pattern without alternatives. -/
def singlePattern (r : Rules) : Parse Ast.Pat := do
  let pos ← here
  let ts ← ahead
  let second := ts.drop 1
  let pathFollows := startsPunct "::" second || startsPunct "!" second ||
    startsGroup .brace second || startsGroup .paren second || startsPunct ".." second
  if (startsIdent ts && pathFollows) || (startsWord "self" ts && startsPunct "::" second) ||
      startsPunct "::" ts || startsPunct "<" ts || startsOneOf ["Self", "super", "crate"] ts then
    pathPattern r
  else if ← word? "_" then return .wild pos
  else if startsWord "box" ts then
    verbatim do
      word "box"
      let _ ← r.pat
    return .other pos .otherPattern
  else if startsPunct "-" ts || startsLit ts || startsWord "const" ts then
    let start ← rangeBound r
    if startsPunct ".." (← ahead) then rangeFrom r pos start
    else
      match start with
      | .literal _ value => return .literal pos value
      | .path path => return .path pos path
      | .constBlock _ => return .other pos .constPattern
  else if startsOneOf ["ref", "mut", "self"] ts || startsIdent ts then
    let _ ← word? "ref"
    let mutable ← word? "mut"
    let name ← if startsWord "self" (← ahead) then anyWord else ident
    if ← punct? "@" then
      let _ ← r.pat
      return .other pos .atBinding
    else return .binding pos name mutable
  else if ← punct? "&" then
    let mutable ← word? "mut"
    return .reference pos mutable (← r.pat)
  else if startsGroup .paren ts then parenPattern r
  else if startsGroup .bracket ts then
    let elements ← group .bracket (commaSeparated (anyPattern r))
    require !(elements.any isHalfOpen)
    return .other pos .slicePattern
  else if startsPunct ".." ts && !startsPunct "..." ts then
    let inclusive ← rangeLimits false
    if endsRange (← ahead) then
      require !inclusive
      return .rest pos
    else return .range pos none (some (← rangeBound r)) inclusive
  else failure

end Grammar
end RustFlow
