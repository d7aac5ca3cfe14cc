/-
# Attributes and paths

The parts of the grammar that every other part uses.  `Rules` holds the readers
that refer to each other; each part of the grammar takes the rules as a parameter,
and they are tied together at the end.

Generic arguments are kept as text only.  Lifetimes come first in that text, in
whatever order they were written, and a comma is put where the new order lacks
one.
-/

import RustFlow.Ast.Item
import RustFlow.Grammar.Cursor

namespace RustFlow
namespace Grammar

/-- Where a bound stands. -/
inductive BoundPlace where
  /-- In a trait object or a trait alias. -/
  | object
  /-- In a declaration, a where clause or a generic argument. -/
  | declaration
  /-- In an `impl` type. -/
  | implType
deriving DecidableEq, Repr

namespace BoundPlace

/-- Whether a bound may be `const` or `[const]`. -/
def admitsConst : BoundPlace → Bool
  | object => false
  | declaration | implType => true

/-- Whether `use<…>` may stand among the bounds. -/
def admitsCapture : BoundPlace → Bool
  | object | declaration => false
  | implType => true

end BoundPlace

/-- The readers that refer to each other. -/
structure Rules where
  /-- An expression; the flag admits struct literals. -/
  expr : Bool → Parse Ast.Expr
  /-- An expression without binary operators; the flag admits struct literals. -/
  operand : Bool → Parse Ast.Expr
  /-- A type; the flag admits `+` between bounds. -/
  type : Bool → Parse Ast.TypeExpr
  /-- A bound at a place; it says whether it is a trait. -/
  bound : BoundPlace → Parse Bool
  /-- A pattern without alternatives. -/
  pat : Parse Ast.Pat
  /-- The statements of a block. -/
  stmts : Parse (List Ast.Stmt)
  /-- An item. -/
  item : Parse Ast.Item

namespace Rules

/-- The rules that read nothing. -/
def none : Rules :=
  ⟨fun _ => failure, fun _ => failure, fun _ => failure, fun _ => failure, failure, failure,
    failure⟩

end Rules

/-! ### Paths of names -/

/-- Whether a path segment comes next. -/
def startsSegment (ts : List Token) : Bool :=
  startsIdent ts || startsOneOf ["super", "self", "Self", "crate"] ts

/-- Reads a segment that is a name only. -/
def nameSegment : Parse String := do
  require (startsSegment (← ahead))
  anyWord

/-- Reads a path of names, and gives them. -/
def namePath : Parse (List String) := do
  let _ ← punct? "::"
  let first ← nameSegment
  let rest ← whileAhead (startsPunct "::") do
    punct "::"
    nameSegment
  return first :: rest

/-! ### Attributes -/

/-- Reads what stands between the brackets of an attribute: a path, and then
nothing, a group, or a value. -/
def attributeBody (r : Rules) : Parse Unit := do
  if !(← word? "unsafe") then
    let _ ← namePath
  let ts ← ahead
  if startsGroup .paren ts || startsGroup .bracket ts || startsGroup .brace ts then
    let _ ← anyGroup
  else if ← punct? "=" then
    match literal? (← ahead) with
    | some (_, _, []) =>
      let _ ← lit
    | _ =>
      let ts ← ahead
      require !(startsPunct "#" ts && startsGroup .bracket (ts.drop 1))
      let _ ← r.expr true

/-- Reads outer attributes, and gives the place of the first. -/
def outerAttributes (r : Rules) : Parse (Option Position) := do
  let places ← whileAhead (startsPunct "#") do
    let pos ← here
    punct "#"
    group .bracket (attributeBody r)
    return pos
  return places.head?

/-- Reads inner attributes. -/
def innerAttributes (r : Rules) : Parse Unit := do
  let _ ← whileAhead (fun ts => startsPunct "#" ts && startsPunct "!" (ts.drop 1)) do
    punct "#"
    punct "!"
    group .bracket (attributeBody r)

/-! ### Blocks -/

/-- Reads a block that starts with statements. -/
def block (r : Rules) : Parse Ast.Block := do
  let pos ← here
  let stmts ← group .brace r.stmts
  return .mk pos stmts

/-- Reads a block that may start with inner attributes. -/
def body (r : Rules) : Parse Ast.Block := do
  let pos ← here
  let stmts ← group .brace do
    innerAttributes r
    r.stmts
  return .mk pos stmts

/-! ### Generic arguments -/

/-- Reads a constant argument: a literal, a name or a block. -/
def constArgument (r : Rules) : Parse Unit := do
  let ts ← ahead
  if startsLit ts then
    let _ ← lit
  else if startsIdent ts then
    let _ ← ident
  else
    let _ ← body r

/-- One of a list in angle brackets as it was written: whether it is a lifetime,
its pieces, and whether a comma follows. -/
structure Argument where
  isLifetime : Bool
  pieces : List Token.Piece
  comma : Bool

/-- The pieces of a list of arguments.  The flag says whether a comma or nothing
stands before them. -/
def argumentPieces : Bool → List Argument → List Token.Piece
  | _, [] => []
  | clear, a :: rest =>
    (if clear then [] else [.plain ","]) ++ a.pieces ++ (if a.comma then [.plain ","] else []) ++
      argumentPieces a.comma rest

/-- The pieces of lifetimes that keep the commas they have. -/
def lifetimePieces : List Argument → List Token.Piece
  | [] => []
  | a :: rest => a.pieces ++ (if a.comma then [.plain ","] else []) ++ lifetimePieces rest

/-- The pieces of a list in angle brackets, lifetimes first. -/
def orderedPieces (args : List Argument) : List Token.Piece :=
  let lifetimes := args.filter Argument.isLifetime
  let others := args.filter fun a => !a.isLifetime
  let clear := (lifetimes.getLast?.map Argument.comma).getD true
  lifetimePieces lifetimes ++ argumentPieces clear others

/-- Reads what stands before `>`, with commas between and possibly after it; at
most a given number of times. -/
def argumentsWithin {α : Type} (isLifetime : α → Bool) (p : Parse α) :
    Nat → Parse (List (α × Argument))
  | 0 => failure
  | n + 1 => do
    if startsPunct ">" (← ahead) then return []
    else
      let (a, pieces) ← apart p
      if startsPunct ">" (← ahead) then return [(a, ⟨isLifetime a, pieces, false⟩)]
      else
        let _ ← apart (punct ",")
        return (a, ⟨isLifetime a, pieces, true⟩) :: (← argumentsWithin isLifetime p n)

/-- Reads a list in angle brackets. -/
def angleList {α : Type} (isLifetime : α → Bool) (p : Parse α) : Parse (List α) := do
  punct "<"
  let args ← argumentsWithin isLifetime p ((← ahead).length + 1)
  emit (orderedPieces (args.map Prod.snd))
  punct ">"
  return args.map Prod.fst

/-! ### Path segments -/

/-- Reads bounds with `+` between them, until a condition holds. -/
def boundsUntil (r : Rules) (place : BoundPlace) (stop : List Token → Bool) : Parse Unit := do
  if !(stop (← ahead)) then
    let _ ← joined "+" (fun ts => !stop ts) (r.bound place)

/-- Reads a generic argument; it says whether it is a lifetime. -/
def genericArgument (r : Rules) : Parse Bool := do
  let ts ← ahead
  if startsLifetime ts && !startsPunct "+" (ts.drop 1) then
    let _ ← lifetime
    return true
  else if startsLit ts || startsGroup .brace ts then
    constArgument r
    return false
  else
    let type ← r.type true
    match type with
    | .path p =>
      if !p.qualified && !p.rooted && p.qualifier.isEmpty then
        if ← punct? "=" then
          let ts ← ahead
          if startsLit ts || startsGroup .brace ts then constArgument r
          else
            let _ ← r.type true
        else if ← punct? ":" then
          boundsUntil r .declaration fun ts => startsPunct "," ts || startsPunct ">" ts
    | _ => pure ()
    return false

/-- Reads generic arguments in angle brackets, a `::` before them or not. -/
def genericArguments (r : Rules) : Parse Unit := do
  let _ ← punct? "::"
  let _ ← angleList id (genericArgument r)

/-- Reads a path segment.  In expressions generic arguments need a `::` before
them. -/
def segment (r : Rules) (exprStyle : Bool) : Parse Ast.Segment := do
  if startsOneOf ["super", "self", "crate", "try"] (← ahead) then
    return ⟨← anyWord, false⟩
  else
    let name ← if startsWord "Self" (← ahead) then anyWord else ident
    let ts ← ahead
    let angle := !exprStyle && startsPunct "<" ts && !startsPunct "<=" ts && !startsPunct "<<=" ts
    if angle || (startsPunct "::" ts && startsPunct "<" (ts.drop 2)) then
      genericArguments r
      return ⟨name, true⟩
    else return ⟨name, false⟩

/-- Reads further segments. -/
def moreSegments (segment : Parse Ast.Segment) : Parse (List Ast.Segment) :=
  whileAhead (fun ts => startsPunct "::" ts && !startsGroup .paren (ts.drop 2)) do
    punct "::"
    segment

/-- The segments of a path with the marks before them. -/
structure RawPath where
  qualified : Bool
  rooted : Bool
  segments : List Ast.Segment

/-- Reads a path that has no self type. -/
def plainPath (segment : Parse Ast.Segment) : Parse RawPath := do
  let rooted ← punct? "::"
  let first ← segment
  return ⟨false, rooted, first :: (← moreSegments segment)⟩

/-- Reads a path with or without a self type. -/
def rawPath (r : Rules) (exprStyle : Bool) : Parse RawPath := do
  if ← punct? "<" then
    let _ ← r.type true
    let trait ← if ← word? "as" then some <$> plainPath (segment r false) else pure none
    punct ">"
    punct "::"
    let first ← segment r exprStyle
    let rest ← whileAhead (startsPunct "::") do
      punct "::"
      segment r exprStyle
    match trait with
    | some path => return ⟨true, path.rooted, path.segments ++ first :: rest⟩
    | none => return ⟨true, true, first :: rest⟩
  else plainPath (segment r exprStyle)

/-- The path over what was read of it. -/
def RawPath.toPath (p : RawPath) (pos : Position) (text : String) : Ast.Path where
  pos
  qualified := p.qualified
  rooted := p.rooted
  qualifier := p.segments.dropLast
  last := p.segments.getLast?.getD default
  text

/-- Reads the path of an expression or a pattern. -/
def exprPath (r : Rules) : Parse Ast.Path := do
  let pos ← here
  let (path, text) ← capture (rawPath r true)
  return path.toPath pos text

/-- Whether a path consists of names only. -/
def isNamePath (p : Ast.Path) : Bool := !p.qualified && p.segments.all fun s => !s.generic

end Grammar
end RustFlow
