/-
# Expressions

An operand is an atom with its postfix forms, under any number of prefix
operators.  Binary operators, assignments, casts and ranges join operands by
precedence:

* comparisons do not chain, and a range is never a left operand;
* assignments group to the right, all else to the left;
* the value of a `let` condition ends before `&&` and `||`.

Where struct literals are not admitted, a brace after a path starts a block.

An expression starts where its leftmost operand does.  Attributes move the start
of the operand they stand before.
-/

import RustFlow.Grammar.Pattern
import RustFlow.Token.Numeral

namespace RustFlow
namespace Grammar

/-! ### Precedence -/

/-- How tightly an operator binds, from loose to tight. -/
inductive Precedence where
  | lowest | assign | range | or | and | condition | compare
  | bitOr | bitXor | bitAnd | shift | sum | product | cast
deriving DecidableEq, Repr

namespace Precedence

/-- The place in the order. -/
def rank : Precedence → Nat
  | lowest => 0
  | assign => 1
  | range => 2
  | or => 3
  | and => 4
  | condition => 5
  | compare => 6
  | bitOr => 7
  | bitXor => 8
  | bitAnd => 9
  | shift => 10
  | sum => 11
  | product => 12
  | cast => 13

/-- The precedence of a plain binary operator. -/
def ofOperator : BinaryOp → Precedence
  | .add | .sub => sum
  | .mul | .div | .rem => product
  | .and => and
  | .or => or
  | .bitAnd => bitAnd
  | .bitOr => bitOr
  | .bitXor => bitXor
  | .shl | .shr => shift
  | .eq | .ne | .lt | .le | .gt | .ge => compare

end Precedence

/-- A binary operator as written; a compound one is followed by `=`. -/
structure Operator where
  symbol : String
  op : BinaryOp
  compound : Bool

/-- Every binary operator, longer ones before those they start with. -/
def operators : List Operator :=
  let compound (op : BinaryOp) : Operator := ⟨op.symbol ++ "=", op, true⟩
  let plain (op : BinaryOp) : Operator := ⟨op.symbol, op, false⟩
  [.add, .sub, .mul, .div, .rem, .bitXor, .bitAnd, .bitOr, .shl, .shr].map compound ++
    [.and, .or, .shl, .shr, .eq, .le, .ne, .ge, .add, .sub, .mul, .div, .rem, .bitXor, .bitAnd,
      .bitOr, .lt, .gt].map plain

/-- The binary operator that the tokens start with. -/
def operator? (ts : List Token) : Option Operator :=
  operators.find? fun o => startsPunct o.symbol ts

/-- The precedence of an operator as written. -/
def Operator.precedence (o : Operator) : Precedence :=
  if o.compound then .assign else .ofOperator o.op

/-- Whether an assignment comes next. -/
def startsAssign (ts : List Token) : Bool := startsPunct "=" ts && !startsPunct "=>" ts

/-- The precedence of what comes next. -/
def nextPrecedence (ts : List Token) : Precedence :=
  match operator? ts with
  | some o => o.precedence
  | none =>
    if startsAssign ts then .assign
    else if startsPunct ".." ts then .range
    else if startsWord "as" ts then .cast
    else .lowest

def isRange : Ast.Expr → Bool
  | .range .. => true
  | _ => false

/-- Whether an expression is a comparison without parentheses. -/
def isComparison : Ast.Expr → Bool
  | .binary _ op _ _ => op.isComparison
  | _ => false

/-- Whether a range ends without an upper end. -/
def endsOpenRange (allowStruct : Bool) (ts : List Token) : Bool :=
  ts.isEmpty || (startsPunct "." ts && !startsPunct ".." ts) ||
    (!allowStruct && startsGroup .brace ts) || startsWord "as" ts ||
    [",", ";", "?", "=>", "=", "+", "/", "%", "^", ">", "<=", "!=", "-=", "*=", "&=", "|=",
      "<<="].any fun s => startsPunct s ts

/-- Whether a postfix form follows that a cast may not have. -/
def startsTrailer (ts : List Token) : Bool :=
  (startsPunct "." ts && !startsPunct ".." ts) || startsPunct "?" ts || startsGroup .bracket ts ||
    startsGroup .paren ts

mutual

/-- Joins what follows a left operand to it, as far as it binds at least as
tightly as `base`; in at most a given number of steps. -/
def climbWithin (r : Rules) (allowStruct : Bool) : Nat → Ast.Expr → Precedence → Parse Ast.Expr
  | 0, _, _ => failure
  | n + 1, lhs, base => do
    let ts ← ahead
    let pos := lhs.pos
    let binds (p : Precedence) : Bool := base.rank ≤ p.rank
    if isRange lhs then return lhs
    else
      match operator? ts with
      | some o =>
        if binds o.precedence then
          require !(o.precedence == .compare && isComparison lhs)
          punct o.symbol
          let rhs ← rightWithin r allowStruct n o.precedence
          let joined : Ast.Expr :=
            if o.compound then .compound pos o.op lhs rhs else .binary pos o.op lhs rhs
          climbWithin r allowStruct n joined base
        else return lhs
      | none =>
        if binds .assign && startsAssign ts then
          punct "="
          let rhs ← rightWithin r allowStruct n .assign
          climbWithin r allowStruct n (.assign pos lhs rhs) base
        else if binds .range && startsPunct ".." ts then
          let inclusive ← rangeLimits false
          if !inclusive && endsOpenRange allowStruct (← ahead) then
            return .range pos (some lhs) none false
          else
            let stop ← rightWithin r allowStruct n .range
            return .range pos (some lhs) (some stop) inclusive
        else if binds .cast && startsWord "as" ts then
          word "as"
          let start ← here
          let (type, text) ← capture (r.type false)
          require !(startsTrailer (← ahead))
          climbWithin r allowStruct n (.cast pos lhs ⟨type, start, text⟩) base
        else return lhs

/-- Reads the right operand of an operator. -/
def rightWithin (r : Rules) (allowStruct : Bool) : Nat → Precedence → Parse Ast.Expr
  | 0, _ => failure
  | n + 1, precedence => do
    extendWithin r allowStruct n (← r.operand allowStruct) precedence

/-- Joins to a right operand what binds more tightly than its operator. -/
def extendWithin (r : Rules) (allowStruct : Bool) : Nat → Ast.Expr → Precedence → Parse Ast.Expr
  | 0, _, _ => failure
  | n + 1, rhs, precedence => do
    let ts ← ahead
    let next := nextPrecedence ts
    if precedence.rank < next.rank || (next == precedence && precedence == .assign) then
      let longer ← climbWithin r allowStruct n rhs next
      if (← ahead).length == ts.length then return longer
      else extendWithin r allowStruct n longer precedence
    else return rhs

end

/-- The steps that any chain of operators over the given tokens ends within. -/
def climbBound (ts : List Token) : Nat := 4 * ts.length + 8

/-- Joins what follows a left operand to it. -/
def climb (r : Rules) (allowStruct : Bool) (lhs : Ast.Expr) (base : Precedence) :
    Parse Ast.Expr := do
  climbWithin r allowStruct (climbBound (← ahead)) lhs base

/-- Reads an expression. -/
def expr (r : Rules) (allowStruct : Bool) : Parse Ast.Expr := do
  climb r allowStruct (← r.operand allowStruct) .lowest

/-! ### Postfix forms -/

/-- The number of a tuple field. -/
def fieldIndex? (text : List Char) : Option Nat :=
  match Numeral.value? false text with
  | some (.int false n "") => if n < Ast.Lit.fieldBound then some n else none
  | _ => none

/-- Splits a text at its points. -/
def splitPoints : List Char → List (List Char)
  | [] => [[]]
  | '.' :: rest => [] :: splitPoints rest
  | c :: rest =>
    match splitPoints rest with
    | [] => [[c]]
    | part :: parts => (c :: part) :: parts

/-- The tuple fields that a decimal after a point stands for, as in `x.0.1`; the
flag says that another member follows. -/
def indexChain (text : String) : Option (List Nat × Bool) := do
  let parts := splitPoints text.toList
  let more := parts.getLast? == some []
  let indices ← (if more then parts.dropLast else parts).mapM fieldIndex?
  return (indices, more)

/-- The pieces of a chain of tuple fields, with a point between them and, if
another member follows, after them. -/
def chainPieces (indices : List Nat) (more : Bool) : List Token.Piece :=
  (indices.map fun i => Token.Piece.plain (toString i)).intersperse (.plain ".") ++
    (if more then [.plain "."] else [])

/-- Reads the arguments of a call. -/
def callArgs (r : Rules) : Parse (List Ast.Expr) :=
  group .paren (commaSeparated (r.expr true))

/-- Reads a member after a point. -/
def memberOf (r : Rules) (base : Ast.Expr) : Parse Ast.Expr := do
  if ← word? "await" then return .other base.pos .awaitSuffix [base]
  else
    match ← ahead with
    | .literal _ (.int false n "") _ :: _ =>
      require (n < Ast.Lit.fieldBound)
      take 1 (toString n)
      return .tupleField base.pos base n
    | _ =>
      let name ← ident
      let turbofish := startsPunct "::" (← ahead)
      if turbofish then genericArguments r
      if turbofish || startsGroup .paren (← ahead) then
        return .methodCall base.pos base name (← callArgs r)
      else return .field base.pos base name

/-- Reads the postfix forms of an expression, at most a given number. -/
def postfixWithin (r : Rules) : Nat → Ast.Expr → Parse Ast.Expr
  | 0, _ => failure
  | n + 1, e => do
    let ts ← ahead
    if startsGroup .paren ts then postfixWithin r n (.call e.pos e (← callArgs r))
    else if startsPunct "." ts && !startsPunct ".." ts && !isRange e then
      punct "."
      match ← ahead with
      | .literal _ (.float _ _) text :: _ =>
        match indexChain text with
        | some (indices, more) =>
          modify fun c => { c with ahead := c.ahead.drop 1 }
          emit (chainPieces indices more)
          let chain := indices.foldl (fun e i => Ast.Expr.tupleField e.pos e i) e
          if more then postfixWithin r n (← memberOf r chain) else postfixWithin r n chain
        | none => failure
      | _ => postfixWithin r n (← memberOf r e)
    else if startsGroup .bracket ts then
      let idx ← group .bracket (r.expr true)
      postfixWithin r n (.index e.pos e idx)
    else if startsPunct "?" ts && !isRange e then
      punct "?"
      postfixWithin r n (.other e.pos .questionMark [e])
    else return e

/-- Reads the postfix forms of an expression. -/
def postfixForms (r : Rules) (e : Ast.Expr) : Parse Ast.Expr := do
  postfixWithin r ((← ahead).length + 1) e

/-! ### Control flow -/

/-- Reads the clauses of an `if` chain and its last block, at most a given number
of clauses. -/
def clausesWithin (r : Rules) : Nat → Parse (List Ast.Clause × Option Ast.Block)
  | 0 => failure
  | n + 1 => do
    word "if"
    let clause := Ast.Clause.mk (← r.expr false) (← block r)
    if ← word? "else" then
      if startsWord "if" (← ahead) then
        let (clauses, otherwise) ← clausesWithin r n
        return (clause :: clauses, otherwise)
      else return ([clause], some (← block r))
    else return ([clause], none)

/-- Reads an `if` chain. -/
def branch (r : Rules) : Parse Ast.Expr := do
  let pos ← here
  let (clauses, otherwise) ← clausesWithin r ((← ahead).length + 1)
  return .branch pos clauses otherwise

/-- Reads a loop or a block after its label. -/
def labelled (r : Rules) (pos : Position) (label : Option String) : Parse Ast.Expr := do
  if ← word? "while" then
    let condition ← r.expr false
    return .whileLoop pos label condition (← body r)
  else if ← word? "for" then
    let pat ← anyPattern r
    word "in"
    let iterable ← r.expr false
    return .forLoop pos label pat iterable (← body r)
  else if ← word? "loop" then return .loop pos label (← body r)
  else return .block pos label (← body r)

/-- Whether an expression ends a statement or an arm without a separator. -/
def isBlockLike : Ast.Expr → Bool
  | .branch .. | .matchOn .. | .block .. | .unsafeBlock .. | .whileLoop .. | .loop ..
  | .forLoop .. => true
  | .other _ what _ => what == .tryBlock || what == .constBlock
  | _ => false

/-- Whether a form that ends with its block comes next. -/
def startsBlockLike (ts : List Token) : Bool :=
  let second := ts.drop 1
  startsOneOf ["if", "while", "loop", "match", "unsafe"] ts || startsLifetime ts ||
    startsGroup .brace ts || (startsWord "for" ts && !startsGenerics second) ||
    (startsOneOf ["try", "const"] ts && startsGroup .brace second)

/-- Reads an arm of a `match`, given how to read its body. -/
def arm (r : Rules) (value : Parse Ast.Expr) : Parse Ast.Arm := do
  let _ ← outerAttributes r
  let pat ← anyPattern r
  let guard ← if ← word? "if" then some <$> r.expr true else pure none
  punct "=>"
  let e ← value
  if isBlockLike e || (← atEnd) then
    let _ ← punct? ","
  else punct ","
  return .mk pat guard e

/-- Reads a `match`, given how to read the bodies of its arms. -/
def matchOn (r : Rules) (value : Parse Ast.Expr) : Parse Ast.Expr := do
  let pos ← here
  word "match"
  let scrutinee ← r.expr false
  let arms ← group .brace do
    innerAttributes r
    whileAhead (fun ts => !ts.isEmpty) (arm r value)
  return .matchOn pos scrutinee arms

/-- Reads a form that ends with its block. -/
def blockLike (r : Rules) (value : Parse Ast.Expr) : Parse Ast.Expr := do
  let pos ← here
  let ts ← ahead
  if startsWord "if" ts then branch r
  else if startsWord "match" ts then matchOn r value
  else if ← word? "unsafe" then return .unsafeBlock pos (← body r)
  else if ← word? "try" then
    let _ ← block r
    return .other pos .tryBlock []
  else if ← word? "const" then
    let _ ← body r
    return .other pos .constBlock []
  else
    match ← lifetime? with
    | some label =>
      punct ":"
      labelled r pos (some label)
    | none => labelled r pos none

/-- Reads an expression that stands as a statement or an arm: a form that ends
with its block is complete there, unless a member or `?` follows.  The bodies of
arms are read by the same rule, to a given depth. -/
def leadingWithin (r : Rules) : Nat → Parse Ast.Expr
  | 0 => failure
  | n + 1 => do
    let attributes ← outerAttributes r
    let mark (e : Ast.Expr) : Ast.Expr :=
      match attributes with
      | some pos => e.withAttributes pos
      | none => e
    if startsBlockLike (← ahead) then
      let e ← blockLike r (leadingWithin r n)
      let ts ← ahead
      if (startsPunct "." ts && !startsPunct ".." ts) || startsPunct "?" ts then
        climb r true (mark (← postfixForms r e)) .lowest
      else return mark e
    else climb r true (mark (← r.operand true)) .lowest

/-- Reads an expression that stands as a statement or an arm. -/
def leading (r : Rules) : Parse Ast.Expr := do
  leadingWithin r (Token.sizeAll (← ahead) + 2)

/-! ### Atoms -/

/-- Reads a field of a struct literal. -/
def fieldInit (r : Rules) : Parse Ast.FieldInit := do
  let _ ← outerAttributes r
  let pos ← here
  let named := startsIdent (← ahead)
  let name ← member
  if !named || startsPunct ":" (← ahead) then
    punct ":"
    return .mk name (← r.expr true)
  else return .mk name (.path pos ⟨pos, false, false, [], ⟨name, false⟩, name⟩)

/-- Reads the fields of a struct literal; the flag says whether `..` ends them.
At most a given number of fields is read. -/
def fieldInitsWithin (r : Rules) : Nat → Parse (List Ast.FieldInit × Bool)
  | 0 => failure
  | n + 1 => do
    if ← atEnd then return ([], false)
    else if ← punct? ".." then
      if !(← atEnd) then
        let _ ← r.expr true
      return ([], true)
    else
      let field ← fieldInit r
      if ← atEnd then return ([field], false)
      else
        punct ","
        let (fields, rest) ← fieldInitsWithin r n
        return (field :: fields, rest)

/-- Reads an expression that starts with a path: the path itself, a macro call or
a struct literal. -/
def pathExpr (r : Rules) (allowStruct : Bool) : Parse Ast.Expr := do
  let path ← exprPath r
  let ts ← ahead
  if startsPunct "!" ts && !startsPunct "!=" ts && isNamePath path then
    punct "!"
    let (delimiter, tokens) ← anyGroup
    return .macroCall path.pos path.joined tokens (delimiter == .brace)
  else if allowStruct && startsGroup .brace ts then
    let (fields, rest) ← group .brace do
      fieldInitsWithin r ((← ahead).length + 1)
    return .structLit path.pos path fields rest
  else return .path path.pos path

/-- Reads the unit value, a tuple, or an expression in parentheses. -/
def parenExpr (r : Rules) : Parse Ast.Expr := do
  let pos ← here
  group .paren do
    if ← atEnd then return .tuple pos []
    else
      let first ← r.expr true
      if ← atEnd then return .paren pos first
      else
        punct ","
        return .tuple pos (first :: (← commaSeparated (r.expr true)))

/-- Reads an array. -/
def arrayExpr (r : Rules) : Parse Ast.Expr := do
  let pos ← here
  group .bracket do
    if ← atEnd then return .array pos []
    else
      let first ← r.expr true
      if ← punct? ";" then return .arrayRepeat pos first (← r.expr true).literalLength
      else if ← atEnd then return .array pos [first]
      else
        punct ","
        return .array pos (first :: (← commaSeparated (r.expr true)))

/-- Reads a closure. -/
def closure (r : Rules) (allowStruct : Bool) : Parse Ast.Expr := do
  let pos ← here
  let _ ← binder? r
  let _ ← word? "const"
  let _ ← word? "static"
  let _ ← word? "async"
  let _ ← word? "move"
  punct "|"
  let _ ← separated (startsPunct "|") "," do
    let _ ← outerAttributes r
    let _ ← r.pat
    if ← punct? ":" then
      let _ ← r.type true
  punct "|"
  if ← punct? "->" then
    let _ ← r.type true
    let start ← here
    return .other pos .closure [.block start none (← block r)]
  else return .other pos .closure [← r.expr allowStruct]

/-- Whether an expression comes next. -/
def startsExpr (ts : List Token) : Bool :=
  let opens (s : String) (but : List String) : Bool :=
    startsPunct s ts && !(but.any fun t => startsPunct t ts)
  (startsAnyWord ts && !startsWord "as" ts) || startsGroup .paren ts || startsGroup .bracket ts ||
    startsGroup .brace ts || startsLit ts || opens "!" ["!="] || opens "-" ["-=", "->"] ||
    opens "*" ["*="] || opens "|" ["|="] || opens "&" ["&="] || startsPunct ".." ts ||
    opens "<" ["<=", "<<="] || startsPunct "::" ts || startsLifetime ts || startsPunct "#" ts

/-- Reads an expression, if one comes next. -/
def value? (r : Rules) : Parse (Option Ast.Expr) := do
  if startsExpr (← ahead) then return some (← r.expr true) else return none

/-- Reads a `break`. -/
def leave (r : Rules) (allowStruct : Bool) : Parse Ast.Expr := do
  let pos ← here
  word "break"
  let label ← lifetime?
  let ts ← ahead
  require !(label.isSome && startsPunct ":" ts)
  let value ← if allowStruct || !startsGroup .brace ts then value? r else pure none
  return .leave pos label value

/-- Whether a closure comes next. -/
def startsClosure (ts : List Token) : Bool :=
  let second := ts.drop 1
  startsPunct "|" ts || startsOneOf ["move", "static"] ts ||
    (startsWord "for" ts && startsGenerics second) ||
    (startsWord "const" ts && !startsGroup .brace second) ||
    (startsWord "async" ts && (startsPunct "|" second || startsWord "move" second))

/-- Reads an atom. -/
def atom (r : Rules) (allowStruct : Bool) : Parse Ast.Expr := do
  let pos ← here
  let ts ← ahead
  let second := ts.drop 1
  if startsLit ts then return .literal pos (← lit)
  else if startsWord "async" ts && (startsGroup .brace second ||
      (startsWord "move" second && startsGroup .brace (ts.drop 2))) then
    word "async"
    let _ ← word? "move"
    let _ ← block r
    return .other pos .asyncBlock []
  else if startsClosure ts then closure r allowStruct
  else if startsWord "builtin" ts && startsPunct "#" second then
    word "builtin"
    punct "#"
    let _ ← ident
    require (startsGroup .paren (← ahead))
    let _ ← anyGroup
    return .verbatim pos false
  else if startsSegment ts || startsPunct "::" ts || startsPunct "<" ts ||
      (startsWord "try" ts && (startsPunct "!" second || startsPunct "::" second)) then
    pathExpr r allowStruct
  else if startsGroup .paren ts then parenExpr r
  else if startsWord "break" ts then leave r allowStruct
  else if ← word? "continue" then return .next pos (← lifetime?)
  else if ← word? "return" then return .ret pos (← value? r)
  else if ← word? "become" then
    let _ ← r.expr true
    let read := ts.take (ts.length - (← ahead).length)
    return .verbatim pos (startsGroup .brace read.getLast?.toList)
  else if startsGroup .bracket ts then arrayExpr r
  else if ← word? "let" then
    let pat ← anyPattern r
    punct "="
    let lhs ← r.operand allowStruct
    return .test pos pat (← climb r allowStruct lhs .compare)
  else if ← word? "yield" then return .other pos .yieldValue (← value? r).toList
  else if startsBlockLike ts then blockLike r (leading r)
  else if startsPunct ".." ts then
    let inclusive ← rangeLimits false
    if !inclusive && endsOpenRange allowStruct (← ahead) then return .range pos none none false
    else
      let stop ← rightWithin r allowStruct (climbBound (← ahead)) .range
      return .range pos none (some stop) inclusive
  else
    word "_"
    return .other pos .inferredValue []

def isVerbatim : Ast.Expr → Bool
  | .verbatim .. => true
  | _ => false

/-- Reads an operand: prefix operators, an atom and its postfix forms. -/
def operand (r : Rules) (allowStruct : Bool) : Parse Ast.Expr := verbatimIf isVerbatim do
  let pos ← here
  let attributes ← outerAttributes r
  if ← punct? "&" then
    let after ← ahead
    if startsWord "raw" after && startsOneOf ["mut", "const"] (after.drop 1) then
      let _ ← anyWord
      let _ ← anyWord
      return .other pos .otherExpr [← r.operand allowStruct]
    else
      let mutable ← word? "mut"
      return .borrow pos mutable (← r.operand allowStruct)
  else if ← punct? "*" then return .unary pos .deref (← r.operand allowStruct)
  else if ← punct? "!" then return .unary pos .not (← r.operand allowStruct)
  else if ← punct? "-" then return .unary pos .neg (← r.operand allowStruct)
  else
    let e ← postfixForms r (← atom r allowStruct)
    if attributes.isSome then
      require !(isRange e)
      return e.withPos pos
    else return e

end Grammar
end RustFlow
