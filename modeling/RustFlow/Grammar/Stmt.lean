/-
# Statements

A statement is a `let`, an item or an expression.  An expression needs a
semicolon after it unless it is the last of its block, ends with a block of its
own, or is a macro call with braces.  A semicolon that ends nothing is kept as an
expression without a place of its own.
-/

import RustFlow.Grammar.Expr

namespace RustFlow
namespace Grammar

/-- Whether an expression ends with a brace, so that no `else` may follow it in a
`let`. -/
def endsInBrace : Ast.Expr → Bool
  | .block .. | .forLoop .. | .branch .. | .loop .. | .matchOn .. | .structLit ..
  | .unsafeBlock .. | .whileLoop .. => true
  | .assign _ _ e => endsInBrace e
  | .binary _ _ _ e => endsInBrace e
  | .compound _ _ _ e => endsInBrace e
  | .unary _ _ e => endsInBrace e
  | .borrow _ _ e => endsInBrace e
  | .test _ _ e => endsInBrace e
  | .range _ _ (some e) _ => endsInBrace e
  | .ret _ (some e) => endsInBrace e
  | .leave _ _ (some e) => endsInBrace e
  | .cast _ _ target => target.text.endsWith "\x7d"
  | .macroCall _ _ _ braced => braced
  | .verbatim _ braced => braced
  | .other _ what operands =>
    match what, operands with
    | .asyncBlock, _ | .constBlock, _ | .tryBlock, _ => true
    | .awaitSuffix, _ | .questionMark, _ => false
    | _, [e] => endsInBrace e
    | _, _ => false
  | _ => false

/-- Whether an expression without a semicolon has to be the last of its block. -/
def needsSemicolon : Ast.Expr → Bool
  | .macroCall _ _ _ braced => !braced
  | e => !isBlockLike e

/-- Whether an item comes next, attributes aside. -/
def startsItem (ts : List Token) : Bool :=
  let second := ts.drop 1
  let third := ts.drop 2
  startsOneOf ["pub", "extern", "use", "fn", "mod", "type", "struct", "enum", "trait", "impl",
    "macro"] ts ||
  (startsWord "crate" ts && !startsPunct "::" second) ||
  (startsWord "static" ts && (startsWord "mut" second || startsIdent second)) ||
  (startsWord "const" ts &&
    !(startsGroup .brace second || startsOneOf ["static", "move"] second || startsPunct "|" second ||
      (startsWord "async" second && !startsOneOf ["unsafe", "extern", "fn"] third))) ||
  (startsWord "unsafe" ts && !startsGroup .brace second) ||
  (startsWord "async" ts && startsOneOf ["unsafe", "extern", "fn"] second) ||
  (startsWord "union" ts && startsIdent second) ||
  (startsWord "auto" ts && startsWord "trait" second) ||
  (startsWord "default" ts && startsOneOf ["unsafe", "impl"] second)

/-- What follows a path of names, if the tokens start with one. -/
def afterNamePath (ts : List Token) : Option (List Token) :=
  (namePath ⟨ts, []⟩).map fun (_, c) => c.ahead

/-- Whether a macro that defines a name comes next, as `macro_rules! name`. -/
def startsMacroItem (ts : List Token) : Bool :=
  match afterNamePath ts with
  | some rest =>
    startsPunct "!" rest && (startsIdent (rest.drop 1) || startsWord "try" (rest.drop 1))
  | none => false

/-- Whether a macro call with braces comes next that is a statement by itself. -/
def startsMacroStmt (ts : List Token) : Bool :=
  match afterNamePath ts with
  | some rest =>
    let after := rest.drop 2
    startsPunct "!" rest && startsGroup .brace (rest.drop 1) &&
      !((startsPunct "." after && !startsPunct ".." after) || startsPunct "?" after)
  | none => false

/-- Reads a `let` statement after its attributes. -/
def letStmt (r : Rules) (pos : Position) : Parse Ast.Stmt := do
  word "let"
  let pat ← r.pat
  let ascription ← if ← punct? ":" then some <$> typeAnn r else pure none
  if ← punct? "=" then
    let init ← r.expr true
    let diverges := !endsInBrace init && startsWord "else" (← ahead)
    if diverges then
      word "else"
      let _ ← block r
    punct ";"
    return .bind pos pat ascription (some init) diverges
  else
    punct ";"
    return .bind pos pat ascription none false

/-- Reads a statement. -/
def stmt (r : Rules) : Parse Ast.Stmt := do
  let pos ← here
  let start ← get
  let attributes ← outerAttributes r
  let ts ← ahead
  if startsMacroStmt ts then
    let names ← namePath
    punct "!"
    let (_, tokens) ← anyGroup
    let semi ← punct? ";"
    return .expr (.macroCall pos ("::".intercalate names) tokens true) semi
  else if startsWord "let" ts then letStmt r pos
  else if startsItem ts || startsMacroItem ts then
    set start
    match ← r.item with
    | .useDecl => return .useDecl
    | _ => return .item pos
  else
    let e ← leading r
    let e := if attributes.isSome then e.startAt pos else e
    return .expr e (← punct? ";")

/-- Reads the statements of a block, at most a given number. -/
def stmtsWithin (r : Rules) : Nat → Parse (List Ast.Stmt)
  | 0 => failure
  | n + 1 => do
    if ← atEnd then return []
    else if ← punct? ";" then
      let empty := Ast.Stmt.expr (.verbatim .start false) true
      return empty :: (← stmtsWithin r n)
    else
      let s ← stmt r
      let unfinished :=
        match s with
        | .expr e false => needsSemicolon e
        | _ => false
      require (!unfinished || (← atEnd))
      return s :: (← stmtsWithin r n)

/-- Reads the statements of a block. -/
def stmts (r : Rules) : Parse (List Ast.Stmt) := do
  stmtsWithin r ((← ahead).length + 1)

end Grammar
end RustFlow
