/-
# Lowering expressions and patterns

Specification, section 4 (*Expression and Pattern Lowering*), from Typing rules to
Patterns.

Expressions without control flow become terms with types.

* A single name is a local variable; else a struct of that name is its literal.
* A path that ends in a variant of an enum is its literal, and so is a call of
  one; a call of a struct name is a struct literal.
* Every other call is left unresolved, with an unknown type.
* `x op= e` is `x = x op e`.

Forms with control flow, and everything else outside the model, are refused.
-/

import RustFlow.Ast.Expr
import RustFlow.Lowering.Binding
import RustFlow.Lowering.Fields

namespace RustFlow

namespace Term

/-- A binary operation, typed from its operands. -/
def binary (op : BinaryOp) (left right : Term) (pos : Position) : Term :=
  let type :=
    if op.isBoolean then .bool
    else if left.type = right.type then left.type
    else .unknown
  mk (.binary op left right) type pos

/-- The type that all terms of a list have; unknown if they differ or there are
none. -/
def commonType : List Term → TypeId
  | [] => .unknown
  | t :: ts => if ts.all fun u => u.type == t.type then t.type else .unknown

end Term

namespace Scope

/-- Lowers a literal. -/
def lowerLit (s : Scope) (pos : Position) (lit : Ast.Lit) : Attempt Context Term :=
  match lit with
  | .int negative n suffix =>
    if negative || n ≥ Ast.Lit.intBound then s.refuse .integerRange pos
    else
      let type := if suffix == "" then .i32 else (TypeId.primitive? suffix).getD .unknown
      return .mk (.literal (.int n)) type pos
  | .float x suffix => return .mk (.literal (.float x)) (if suffix == "f32" then .f32 else .f64) pos
  | .bool b => return .mk (.literal (.bool b)) .bool pos
  | .char c => return .mk (.literal (.char c)) .char pos
  | .byte n => return .mk (.literal (.int n)) .u8 pos
  | .str text => do
    let type ← Context.onArena (modifyGet fun a => a.reference .str false)
    return .mk (.literal (.str text)) type pos
  | .bytes => s.refuse .byteString pos

/-- The term of a path without a self type. -/
def pathTerm (s : Scope) (c : Context) (p : Ast.Path) (pos : Position) : Term :=
  match p.ident? with
  | some name =>
    match c.local? name, s.structNamed c.arena name with
    | none, some type => .mk (.structLit name []) type pos
    | _, _ => .mk (.var (c.mention name)) (c.localType name) pos
  | none =>
    match s.variantOf c.arena p with
    | some v => .mk (.enumLit v.enumName v.variant.name .unit []) v.type pos
    | none => .mk (.path p.joined) .unknown pos

/-- Lowers a path. -/
def lowerPath (s : Scope) (p : Ast.Path) (pos : Position) : Attempt Context Term := do
  if p.qualified then s.refuse .qualifiedPath pos
  else return s.pathTerm (← get) p pos

/-! ### Patterns -/

/-- Lowers an end of a range pattern. -/
def lowerBound (s : Scope) : Option Ast.Bound → Attempt Context (Option Term)
  | none => return none
  | some (.literal pos lit) => some <$> s.lowerLit pos lit
  | some (.path p) => some <$> s.lowerPath p p.pos
  | some (.constBlock pos) => s.refuse .constBlock pos

mutual

/-- Lowers a pattern. -/
def lowerPat (s : Scope) : Ast.Pat → Attempt Context Pattern
  | .binding _ name mutable => return .binding ⟨name, mutable⟩
  | .reference _ mutable p => return .reference mutable (← lowerPat s p)
  | .struct pos p fields rest => do
    if p.qualified then s.refuse .qualifiedPath pos
    else
      let a := (← get).arena
      let type :=
        match s.variantOf a p with
        | some v => v.type
        | none => (s.structOf a p).getD .unknown
      return .struct p.joined type (← lowerFieldPats s fields) rest
  | .tupleStruct pos p ps => do
    if p.qualified then s.refuse .qualifiedPath pos
    else return .tupleStruct p.joined (← lowerPats s ps)
  | .path _ p => return .path p.joined
  | .tuple _ ps => return .tuple (← lowerPats s ps)
  | .literal pos lit => return .literal (← s.lowerLit pos lit)
  | .range _ start stop inclusive => do
    let a ← s.lowerBound start
    let b ← s.lowerBound stop
    return .range a b inclusive
  | .alternatives _ ps => return .alternatives (← lowerPats s ps)
  | .rest _ => return .rest
  | .wild _ => return .wildcard
  | .paren _ p => lowerPat s p
  | .other pos what => s.refuse what pos

/-- Lowers patterns, left to right. -/
def lowerPats (s : Scope) : List Ast.Pat → Attempt Context (List Pattern)
  | [] => return []
  | p :: ps => do
    let q ← lowerPat s p
    let qs ← lowerPats s ps
    return q :: qs

/-- Lowers the fields of a struct pattern, left to right. -/
def lowerFieldPats (s : Scope) : List Ast.FieldPat → Attempt Context (List FieldPattern)
  | [] => return []
  | .mk name p :: fields => do
    let q ← lowerPat s p
    let qs ← lowerFieldPats s fields
    return .mk name q :: qs

end

/-! ### Expressions -/

/-- The literal or call that applying a path to arguments stands for. -/
def applied (s : Scope) (a : Arena) (p : Ast.Path) (args : List Term) (pos : Position) : Term :=
  match s.variantOf a p with
  | some v => .mk (.enumLit v.enumName v.variant.name .tuple args) v.type pos
  | none =>
    match p.ident?, s.structOf a p with
    | some name, some type => .mk (.structLit name args) type pos
    | _, _ => .mk (.call p.last.name p.qualifierText? false args) .unknown pos

/-- The literal that a path and named values stand for. -/
def structTerm (s : Scope) (a : Arena) (p : Ast.Path) (supplied : List (String × Term))
    (pos : Position) : Except Error Term :=
  let place := s.locate pos
  let pack (owner : String) (fields : List Field) : Except Error (List Term) :=
    (packFields owner (fields.map Field.name) supplied).mapError (.unsupported · place)
  match s.variantOf a p with
  | some v =>
    let owner := v.enumName ++ "::" ++ v.variant.name
    match v.variant.shape with
    | .struct fields => do
      let values ← pack owner fields
      return .mk (.enumLit v.enumName v.variant.name .struct values) v.type pos
    | _ => .error (.unsupported (.structLiteralOf owner) place)
  | none =>
    match s.structOf a p with
    | some type => do
      let values ← pack (a.display type) (a.fields type)
      return .mk (.structLit (a.display type) values) type pos
    | none =>
      if s.strict then .error (.unresolvedType p.joined place)
      else .ok (.mk (.structLit p.joined (supplied.map Prod.snd)) .unknown pos)

/-- The type of an element of an indexed value. -/
def indexedType (a : Arena) (base : TypeId) : TypeId :=
  match a.form (a.peel base) with
  | .array e _ => e
  | _ => .unknown

/-- The type of a positional field. -/
def positionType (a : Arena) (base : TypeId) (i : Nat) : TypeId :=
  let target := a.peel base
  match a.form target with
  | .tuple ts => ts[i]?.getD .unknown
  | _ => a.fieldType target (toString i)

/-- The type of a unary operation. -/
def unaryType (a : Arena) (op : UnaryOp) (operand : TypeId) : TypeId :=
  match op with
  | .deref => a.pointee operand
  | .neg => operand
  | .not => operand

/-- The name messages give to a form that has no term. -/
def refused : Ast.Expr → Construct
  | .block .. => .blockValue
  | .unsafeBlock .. => .unsafeValue
  | .branch .. => .controlValue .ifBranch
  | .matchOn .. => .controlValue .matchArms
  | .whileLoop .. => .controlValue .whileLoop
  | .loop .. => .controlValue .plainLoop
  | .forLoop .. => .controlValue .forLoop
  | .ret .. => .controlValue .returnJump
  | .leave .. => .controlValue .breakJump
  | .next .. => .controlValue .continueJump
  | .other _ what _ => what
  | _ => .otherExpr

mutual

/-- Lowers an expression without control flow. -/
def lowerExpr (s : Scope) : Ast.Expr → Attempt Context Term
  | .literal pos lit => s.lowerLit pos lit
  | .path pos p => s.lowerPath p pos
  | .binary pos op l r => do
    let left ← lowerExpr s l
    let right ← lowerExpr s r
    return .binary op left right pos
  | .compound pos op l r => do
    let left ← lowerExpr s l
    let right ← lowerExpr s r
    return .mk (.assign left (.binary op left right pos)) .unit pos
  | .unary pos op e => do
    let operand ← lowerExpr s e
    return .mk (.unary op operand) (unaryType (← get).arena op operand.type) pos
  | .borrow pos mutable e => do
    let operand ← lowerExpr s e
    let type ← Context.onArena (modifyGet fun a => a.reference operand.type mutable)
    return .mk (.borrow mutable operand) type pos
  | .cast pos e target => do
    let operand ← lowerExpr s e
    let type ← Context.onArena (s.resolve target.type)
    return .mk (.cast operand (typeText (← get).arena target type)) type pos
  | .range pos start stop inclusive => do
    let a ← lowerOption s start
    let b ← lowerOption s stop
    return .mk (.range a b inclusive) .unknown pos
  | .assign pos l r => do
    let target ← lowerExpr s l
    let value ← lowerExpr s r
    return .mk (.assign target value) .unit pos
  | .test pos p e => do
    let scrutinee ← lowerExpr s e
    let pattern ← s.lowerPat p
    modify fun c => c.bindPattern pattern scrutinee.type
    return .mk (.test pattern scrutinee) .bool pos
  | .index pos b i => do
    let base ← lowerExpr s b
    let idx ← lowerExpr s i
    return .mk (.index base idx) (indexedType (← get).arena base.type) pos
  | .tupleField pos b i => do
    let base ← lowerExpr s b
    return .mk (.tupleField base i) (positionType (← get).arena base.type i) pos
  | .field pos b name => do
    let base ← lowerExpr s b
    let a := (← get).arena
    return .mk (.field base name) (a.fieldType (a.peel base.type) name) pos
  | .methodCall pos receiver method args => do
    let first ← lowerExpr s receiver
    let rest ← lowerAll s args
    return .mk (.call method none true (first :: rest)) .unknown pos
  | .call pos callee args =>
    match callee with
    | .path _ p =>
      if p.qualified then s.refuse .qualifiedPath pos
      else do
        let values ← lowerAll s args
        return s.applied (← get).arena p values pos
    | _ => s.refuse .computedCallee pos
  | .structLit pos p fields rest =>
    if p.qualified then s.refuse .qualifiedPath pos
    else if rest then s.refuse .recordUpdate pos
    else do
      let supplied ← lowerInits s fields
      match s.structTerm (← get).arena p supplied pos with
      | .ok t => return t
      | .error e => throw e
  | .tuple pos es =>
    if es.isEmpty then return .mk (.literal .unit) .unit pos
    else do
      let values ← lowerAll s es
      let type ← Context.onArena (modifyGet fun a => a.tuple (values.map Term.type))
      return .mk (.tuple values) type pos
  | .array pos es => do
    let values ← lowerAll s es
    let type ← Context.onArena
      (modifyGet fun a => a.array (Term.commonType values) values.length)
    return .mk (.array values) type pos
  | .arrayRepeat pos e length =>
    match length with
    | none => s.refuse .repeatLength pos
    | some n => do
      let element ← lowerExpr s e
      let type ← Context.onArena (modifyGet fun a => a.array element.type n)
      return .mk (.arrayRepeat element n) type pos
  | .paren _ e => lowerExpr s e
  | .macroCall pos p tokens _ => return .mk (.macroCall p tokens) .unknown pos
  | .block pos label body => s.refuse (refused (.block pos label body)) pos
  | .unsafeBlock pos body => s.refuse (refused (.unsafeBlock pos body)) pos
  | .branch pos clauses otherwise => s.refuse (refused (.branch pos clauses otherwise)) pos
  | .matchOn pos e arms => s.refuse (refused (.matchOn pos e arms)) pos
  | .whileLoop pos label e body => s.refuse (refused (.whileLoop pos label e body)) pos
  | .loop pos label body => s.refuse (refused (.loop pos label body)) pos
  | .forLoop pos label p e body => s.refuse (refused (.forLoop pos label p e body)) pos
  | .ret pos e => s.refuse (refused (.ret pos e)) pos
  | .leave pos label e => s.refuse (refused (.leave pos label e)) pos
  | .next pos label => s.refuse (refused (.next pos label)) pos
  | .other pos what _ => s.refuse what pos
  | .verbatim pos _ => s.refuse .otherExpr pos

/-- Lowers an expression that may be absent. -/
def lowerOption (s : Scope) : Option Ast.Expr → Attempt Context (Option Term)
  | none => return none
  | some e => some <$> lowerExpr s e

/-- Lowers expressions, left to right. -/
def lowerAll (s : Scope) : List Ast.Expr → Attempt Context (List Term)
  | [] => return []
  | e :: es => do
    let t ← lowerExpr s e
    let ts ← lowerAll s es
    return t :: ts

/-- Lowers the fields of a struct literal, left to right. -/
def lowerInits (s : Scope) : List Ast.FieldInit → Attempt Context (List (String × Term))
  | [] => return []
  | .mk name e :: fields => do
    let t ← lowerExpr s e
    let ts ← lowerInits s fields
    return (name, t) :: ts

end

end Scope

end RustFlow
