/-
# Items

Items are read in full, with their attributes, visibility, generic parameters and
where clauses, whether or not the analysis models them.

Some forms are read though the language has no meaning for them, such as a
function without a body outside a trait or a constant without a value; they are
items without a name of their own.
-/

import RustFlow.Grammar.Stmt

namespace RustFlow
namespace Grammar

/-! ### Visibility and signatures -/

/-- Reads a visibility, if one comes next, and says whether it did. -/
def visibility : Parse Bool := do
  if ← word? "pub" then
    match ← ahead with
    | .group _ .paren content :: _ =>
      let single := content.length == 1 && startsOneOf ["crate", "self", "super"] content
      if single then
        let _ ← anyGroup
      else if startsWord "in" content then
        group .paren do
          word "in"
          let _ ← namePath
      return true
    | _ => return true
  else return false

/-- Whether a function signature comes next, the visibility aside. -/
def startsSignature (allowSafe : Bool) (ts : List Token) : Bool :=
  let skip (w : String) (ts : List Token) : List Token := if startsWord w ts then ts.drop 1 else ts
  let ts := skip "async" (skip "const" ts)
  let ts := if allowSafe && startsWord "safe" ts then ts.drop 1 else skip "unsafe" ts
  let ts :=
    if startsWord "extern" ts then
      match ts.drop 1 with
      | .literal _ (.str _) _ :: rest => rest
      | rest => rest
    else ts
  startsWord "fn" ts

/-- A parameter, or the `...` that ends a variadic list. -/
inductive ParamOrDots where
  | param (p : Ast.Param)
  | dots

/-- Whether a receiver comes next: `self`, possibly `mut` and behind a reference, that
does not start a path. -/
def startsReceiver (ts : List Token) : Bool :=
  let skip (holds : List Token → Bool) (ts : List Token) : List Token :=
    if holds ts then ts.drop 1 else ts
  let ts := if startsPunct "&" ts then skip startsLifetime (ts.drop 1) else ts
  let ts := skip (startsWord "mut") ts
  startsWord "self" ts && !startsPunct "::" (ts.drop 1)

/-- Reads a receiver. -/
def receiver (r : Rules) (pos : Position) : Parse Ast.Param := do
  let byRef ← punct? "&"
  if byRef then
    let _ ← lifetime?
  let mutable ← word? "mut"
  word "self"
  if !byRef then
    if ← punct? ":" then
      let _ ← r.type true
  return .receiver pos byRef mutable

/-- Reads a parameter that is no receiver. -/
def typedParam (r : Rules) (pos : Position) : Parse ParamOrDots := do
  let ts ← ahead
  if startsIdent ts && startsPunct "<" (ts.drop 1) then
    return .param (.typed pos (.wild pos) (← typeAnn r))
  else
    let pat ← r.pat
    punct ":"
    if ← punct? "..." then return .dots
    else return .param (.typed pos pat (← typeAnn r))

/-- Reads a parameter after its attributes. -/
def param (r : Rules) (pos : Position) : Parse ParamOrDots := do
  if startsReceiver (← ahead) then return .param (← receiver r pos) else typedParam r pos

/-- Reads the parameters of a function, at most a given number.  Only the first may
be a receiver.  The flag says whether `...` ends them. -/
def paramsWithin (r : Rules) (isFirst : Bool) : Nat → Parse (List Ast.Param × Bool)
  | 0 => failure
  | n + 1 => do
    if ← atEnd then return ([], false)
    else
      let pos ← here
      let _ ← outerAttributes r
      let next ← if ← punct? "..." then pure ParamOrDots.dots else param r pos
      match next with
      | .dots =>
        if !(← atEnd) then punct ","
        return ([], true)
      | .param p =>
        match p with
        | .receiver .. => require isFirst
        | .typed .. => pure ()
        if ← atEnd then return ([p], false)
        else
          punct ","
          let (ps, variadic) ← paramsWithin r false n
          return (p :: ps, variadic)

/-- A function without its body. -/
structure Header where
  name : String
  pos : Position
  isAsync : Bool
  isVariadic : Bool
  generics : List String
  params : List Ast.Param
  result : Option Ast.TypeAnn

/-- Reads the signature of a function. -/
def signature (r : Rules) (allowSafe : Bool) : Parse Header := do
  let _ ← word? "const"
  let isAsync ← word? "async"
  if !(allowSafe && (← word? "safe")) then
    let _ ← word? "unsafe"
  abi?
  word "fn"
  let pos ← here
  let name ← ident
  let (_, generics) ← genericParams r
  let (params, isVariadic) ← group .paren do
    paramsWithin r true ((← ahead).length + 1)
  let result ← result? r true
  let _ ← whereClause r
  return { name, pos, isAsync, isVariadic, generics, params, result }

/-- The function over a signature and a body. -/
def Header.toFn (h : Header) (b : Ast.Block) : Ast.FnDecl where
  name := h.name
  pos := h.pos
  isAsync := h.isAsync
  isVariadic := h.isVariadic
  generics := h.generics
  params := h.params
  result := h.result
  body := b

/-! ### Structs and enums -/

/-- Reads a named field to a given depth.  A field `_` may have fields of its own in
place of a type. -/
def namedFieldWithin (r : Rules) : Nat → Parse Ast.FieldDecl
  | 0 => failure
  | n + 1 => do
    let pos ← here
    let _ ← outerAttributes r
    let _ ← visibility
    let name ← if startsWord "_" (← ahead) then anyWord else ident
    punct ":"
    let start ← here
    let ts ← ahead
    if name == "_" && startsOneOf ["struct", "union"] ts && startsGroup .brace (ts.drop 1) then
      let (_, text) ← capture (verbatim do
        let _ ← anyWord
        group .brace (commaSeparated (namedFieldWithin r n)))
      return ⟨pos, some name, ⟨.other, start, text⟩⟩
    else return ⟨pos, some name, ← typeAnn r⟩

/-- Reads a named field. -/
def namedField (r : Rules) : Parse Ast.FieldDecl := do
  namedFieldWithin r (Token.sizeAll (← ahead) + 1)

/-- Reads a positional field. -/
def positionalField (r : Rules) : Parse Ast.FieldDecl := do
  let pos ← here
  let _ ← outerAttributes r
  let _ ← visibility
  return ⟨pos, none, ← typeAnn r⟩

def namedFields (r : Rules) : Parse Ast.Fields :=
  .named <$> group .brace (commaSeparated (namedField r))

def positionalFields (r : Rules) : Parse Ast.Fields :=
  .positional <$> group .paren (commaSeparated (positionalField r))

/-- Reads the fields of a struct with its where clause. -/
def structFields (r : Rules) : Parse Ast.Fields := do
  let clause ← whereClause r
  let ts ← ahead
  if !clause && startsGroup .paren ts then
    let fields ← positionalFields r
    let _ ← whereClause r
    punct ";"
    return fields
  else if startsGroup .brace ts then namedFields r
  else
    punct ";"
    return .unit

/-- Reads a variant of an enum. -/
def variant (r : Rules) : Parse Ast.VariantDecl := do
  let _ ← outerAttributes r
  let _ ← visibility
  let name ← ident
  let ts ← ahead
  let fields ←
    if startsGroup .brace ts then namedFields r
    else if startsGroup .paren ts then positionalFields r
    else pure .unit
  if ← punct? "=" then
    let _ ← r.expr true
  return ⟨name, fields⟩

/-! ### Types, constants and macros -/

/-- Reads a `type` declaration after its visibility.  The flags say whether the
where clause may come before and after the type; there is at most one.  It gives
the name and says whether the declaration is complete: a type and no bounds. -/
def typeDecl (r : Rules) (clauseBefore clauseAfter : Bool) : Parse (String × Bool) := do
  word "type"
  let name ← ident
  let _ ← genericParams r
  let bounded := startsPunct ":" (← ahead)
  let stop (ts : List Token) : Bool :=
    startsWord "where" ts || startsPunct "=" ts || startsPunct ";" ts
  afterColon stop (boundsUntil r .declaration stop)
  let clause ← if clauseBefore then whereClause r else pure false
  let defined ← punct? "="
  if defined then
    let _ ← r.type true
  if clauseAfter && !clause then
    let _ ← whereClause r
  punct ";"
  return (name, defined && !bounded)

/-- A constant as read: its name and type, and whether it has a value and neither
generic parameters nor a where clause. -/
structure ConstDecl where
  name : String
  pos : Position
  type : Ast.TypeAnn
  complete : Bool

/-- Reads a `const` declaration after its visibility. -/
def constDecl (r : Rules) : Parse ConstDecl := do
  word "const"
  let pos ← here
  let name ← if startsWord "_" (← ahead) then anyWord else ident
  let (generic, _) ← genericParams r
  punct ":"
  let type ← typeAnn r
  let valued ← punct? "="
  if valued then
    let _ ← r.expr true
  let clause ← whereClause r
  punct ";"
  return ⟨name, pos, type, valued && !generic && !clause⟩

/-- Reads a macro call that stands as an item, and gives the path it calls. -/
def macroCall : Parse (List String) := do
  let names ← namePath
  punct "!"
  let (delimiter, _) ← anyGroup
  if delimiter != .brace then punct ";"
  return names

/-- Whether a macro call may come next. -/
def startsMacroPath (ts : List Token) : Bool :=
  startsIdent ts || startsOneOf ["self", "super", "crate"] ts || startsPunct "::" ts

/-! ### Members -/

/-- Reads a member of an `impl` block. -/
def implMember (r : Rules) : Parse Ast.Member := do
  let pos ← here
  let _ ← outerAttributes r
  let visible ← visibility
  let ts ← ahead
  let isDefault := startsWord "default" ts && !startsPunct "!" (ts.drop 1)
  if isDefault then word "default"
  let ts ← ahead
  if startsSignature false ts then
    let header ← signature r false
    if ← punct? ";" then return .other pos
    else return .method (header.toFn (← body r))
  else if startsWord "const" ts then
    let c ← constDecl r
    return if c.complete then .const c.name c.pos c.type else .other pos
  else if startsWord "type" ts then
    let _ ← typeDecl r false true
    return .other pos
  else
    require (!visible && !isDefault && startsMacroPath ts)
    let _ ← macroCall
    return .other pos

/-- Reads a member of a trait. -/
def traitMember (r : Rules) : Parse Unit := do
  let _ ← outerAttributes r
  let visible ← visibility
  let isDefault ← word? "default"
  let ts ← ahead
  if startsSignature false ts then
    let _ ← signature r false
    if !(← punct? ";") then
      let _ ← body r
  else if startsWord "const" ts then
    let _ ← constDecl r
  else if startsWord "type" ts then
    let _ ← typeDecl r false true
  else
    require (!visible && !isDefault && startsMacroPath ts)
    let _ ← macroCall

/-- Reads a member of an extern block. -/
def externMember (r : Rules) : Parse Unit := do
  let _ ← outerAttributes r
  let visible ← visibility
  let ts ← ahead
  if startsSignature true ts then
    let _ ← signature r true
    if startsGroup .brace (← ahead) then
      let _ ← body r
    else punct ";"
  else if startsWord "static" ts ||
      (startsOneOf ["unsafe", "safe"] ts && startsWord "static" (ts.drop 1)) then
    if !startsWord "static" ts then
      let _ ← anyWord
    word "static"
    let _ ← word? "mut"
    let _ ← ident
    punct ":"
    let _ ← r.type true
    if ← punct? "=" then
      let _ ← r.expr true
    punct ";"
  else if startsWord "type" ts then
    let _ ← typeDecl r true true
  else
    require (!visible && startsMacroPath ts)
    let _ ← macroCall

/-! ### Imports -/

/-- Reads a tree of imported names to a given depth; the flag admits a `::` at the
start of the trees in its braces.  It says whether there was such a `::`. -/
def useTreeWithin : Nat → Bool → Parse Bool
  | 0, _ => failure
  | n + 1, allowRoot => do
    let ts ← ahead
    if startsIdent ts || startsOneOf ["self", "super", "crate", "try"] ts then
      let _ ← anyWord
      if ← punct? "::" then useTreeWithin n false
      else if ← word? "as" then
        let _ ← if startsWord "_" (← ahead) then anyWord else ident
        return false
      else return false
    else if ← punct? "*" then return false
    else
      let roots ← group .brace (commaSeparated do
        let rooted ← if allowRoot then punct? "::" else pure false
        let inner ← useTreeWithin n (allowRoot && !rooted)
        return rooted || inner)
      return roots.any id

/-- Reads a `use` declaration after its visibility, and says whether a `::` stands
inside it. -/
def useDecl : Parse Bool := do
  word "use"
  let rooted ← punct? "::"
  let inner ← useTreeWithin (Token.sizeAll (← ahead) + 1) (!rooted)
  punct ";"
  return inner

/-- Reads an `extern crate` declaration after its visibility. -/
def externCrate : Parse Unit := do
  word "extern"
  word "crate"
  let _ ← if startsWord "self" (← ahead) then anyWord else ident
  if ← word? "as" then
    let _ ← if startsWord "_" (← ahead) then anyWord else ident
  punct ";"

/-! ### Items -/

/-- Reads an `impl` block after its visibility. -/
def implItem (r : Rules) (pos : Position) (visible : Bool) : Parse Ast.Item := do
  let _ ← word? "default"
  let _ ← word? "unsafe"
  word "impl"
  let (_, generics) ← if startsGenerics (← ahead) then genericParams r else pure (false, [])
  let ts ← ahead
  let isConst := startsWord "const" ts || (startsPunct "?" ts && startsWord "const" (ts.drop 1))
  if isConst then
    let _ ← punct? "?"
    word "const"
  let ts ← ahead
  let negative := startsPunct "!" ts && !startsGroup .brace (ts.drop 1)
  if negative then punct "!"
  let first ← typeAnn r
  let isFor ← word? "for"
  require (isFor || !negative)
  let target ← if isFor then typeAnn r else pure first
  let ofTrait :=
    match first.type with
    | .path p => !p.qualified
    | _ => false
  let _ ← whereClause r
  let members ← group .brace do
    innerAttributes r
    whileAhead (fun ts => !ts.isEmpty) (implMember r)
  if visible || isConst || (isFor && !ofTrait) then return .other pos .otherItem "item"
  else return .impl generics target members

/-- Reads a trait or a trait alias after its visibility. -/
def traitItem (r : Rules) (pos : Position) : Parse Ast.Item := do
  let marked ← word? "unsafe"
  let isAuto ← word? "auto"
  word "trait"
  let name ← ident
  let _ ← genericParams r
  if !marked && !isAuto && startsPunct "=" (← ahead) then
    punct "="
    boundsUntil r .object fun ts => startsWord "where" ts || startsPunct ";" ts
    let _ ← whereClause r
    punct ";"
    return .other pos .traitAlias name
  else
    let stop (ts : List Token) : Bool := startsWord "where" ts || startsGroup .brace ts
    afterColon stop (boundsUntil r .declaration stop)
    let _ ← whereClause r
    group .brace do
      innerAttributes r
      let _ ← whileAhead (fun ts => !ts.isEmpty) (traitMember r)
    return .other pos .traitItem name

/-- Reads a module after its visibility. -/
def moduleItem (r : Rules) (pos : Position) : Parse Ast.Item := do
  let _ ← word? "unsafe"
  word "mod"
  let name ← if startsWord "try" (← ahead) then anyWord else ident
  if !(← punct? ";") then
    group .brace do
      innerAttributes r
      let _ ← whileAhead (fun ts => !ts.isEmpty) r.item
  return .other pos .nestedModule name

/-- Reads an extern block. -/
def externItem (r : Rules) (pos : Position) : Parse Ast.Item := do
  let _ ← word? "unsafe"
  require (startsWord "extern" (← ahead))
  abi?
  group .brace do
    innerAttributes r
    let _ ← whileAhead (fun ts => !ts.isEmpty) (externMember r)
  return .other pos .externBlock "extern"

/-- Reads a `static` after its visibility. -/
def staticItem (r : Rules) (pos : Position) : Parse Ast.Item := do
  word "static"
  let _ ← word? "mut"
  let namePos ← here
  let name ← ident
  if ← punct? "=" then
    let _ ← r.expr true
    punct ";"
    return .other pos .otherItem "item"
  else
    punct ":"
    let type ← typeAnn r
    if ← punct? ";" then return .other pos .otherItem "item"
    else
      punct "="
      let _ ← r.expr true
      punct ";"
      return .const name namePos type

/-- Reads a macro call or definition that stands as an item. -/
def macroItem (pos : Position) : Parse Ast.Item := do
  let names ← namePath
  punct "!"
  let ts ← ahead
  let name ← if startsIdent ts || startsWord "try" ts then some <$> anyWord else pure none
  let (delimiter, _) ← anyGroup
  if delimiter != .brace then punct ";"
  return .other pos .macroItem (name.getD ("::".intercalate names))

/-- Reads a `macro` definition after its visibility. -/
def macroDefinition (pos : Position) : Parse Ast.Item := do
  word "macro"
  let _ ← ident
  if startsGroup .paren (← ahead) then
    let _ ← anyGroup
  require (startsGroup .brace (← ahead))
  let _ ← anyGroup
  return .other pos .otherItem "item"

/-- Whether an item has no form of its own. -/
def isVerbatimItem : Ast.Item → Bool
  | .other _ what _ => what == .otherItem
  | _ => false

/-- Reads an item. -/
def item (r : Rules) : Parse Ast.Item := verbatimIf isVerbatimItem do
  let pos ← here
  let _ ← outerAttributes r
  let visible ← visibility
  let ts ← ahead
  let second := ts.drop 1
  let namePos := (second.head?.map Token.pos).getD pos
  if startsSignature false ts then
    let header ← signature r false
    if ← punct? ";" then return .other pos .otherItem "item"
    else return .function (header.toFn (← body r))
  else if startsWord "extern" ts then
    if startsWord "crate" second then
      externCrate
      return .externCrate
    else
      require !visible
      externItem r pos
  else if startsWord "use" ts then
    return if ← useDecl then .other pos .otherItem "item" else .useDecl
  else if startsWord "static" ts then staticItem r pos
  else if startsWord "const" ts then
    let c ← constDecl r
    return if c.complete then .const c.name c.pos c.type else .other pos .otherItem "item"
  else if startsWord "unsafe" ts then
    if startsOneOf ["trait", "auto"] second then traitItem r pos
    else if startsWord "impl" second then implItem r pos visible
    else if startsWord "extern" second then
      require !visible
      externItem r pos
    else moduleItem r pos
  else if startsWord "mod" ts then moduleItem r pos
  else if startsWord "type" ts then
    let (name, complete) ← typeDecl r true false
    return if complete then .other pos .typeAlias name else .other pos .otherItem "item"
  else if startsWord "struct" ts then
    word "struct"
    let name ← ident
    let (_, generics) ← genericParams r
    return .struct name namePos generics (← structFields r)
  else if startsWord "enum" ts then
    word "enum"
    let name ← ident
    let (_, generics) ← genericParams r
    let _ ← whereClause r
    return .enum name namePos generics (← group .brace (commaSeparated (variant r)))
  else if startsWord "union" ts && startsIdent second then
    word "union"
    let name ← ident
    let _ ← genericParams r
    let _ ← whereClause r
    let _ ← namedFields r
    return .other pos .unionItem name
  else if startsWord "trait" ts || (startsWord "auto" ts && startsWord "trait" second) then
    traitItem r pos
  else if startsWord "impl" ts || (startsWord "default" ts && !startsPunct "!" second) then
    implItem r pos visible
  else if startsWord "macro" ts then macroDefinition pos
  else
    require (!visible && startsMacroPath ts)
    macroItem pos

end Grammar
end RustFlow
