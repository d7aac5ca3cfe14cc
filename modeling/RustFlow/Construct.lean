/-
# What the analysis does not model

Source text may hold any Rust syntax, while graphs are built from a part of it.
A `Construct` names one thing outside that part; `Construct.describe` is its
wording in messages.  The syntax tree keeps such a construct as a leaf or with
its operands, and lowering refuses it where it meets it.
-/

namespace RustFlow

/-- A statement-level form that has a value only in statement position. -/
inductive ControlForm where
  | breakJump
  | continueJump
  | forLoop
  | ifBranch
  | plainLoop
  | matchArms
  | returnJump
  | whileLoop
deriving DecidableEq, Repr

namespace ControlForm

/-- The keyword that introduces the form. -/
def keyword : ControlForm → String
  | breakJump => "break"
  | continueJump => "continue"
  | forLoop => "for"
  | ifBranch => "if"
  | plainLoop => "loop"
  | matchArms => "match"
  | returnJump => "return"
  | whileLoop => "while"

end ControlForm

/-- A piece of syntax that lowering refuses. -/
inductive Construct where
  -- expressions
  | asyncBlock
  | awaitSuffix
  | blockValue
  | closure
  | constBlock
  | controlValue (form : ControlForm)
  | inferredValue
  | questionMark
  | tryBlock
  | unsafeValue
  | yieldValue
  | otherExpr
  | qualifiedPath
  | repeatLength
  | integerRange
  | byteString
  | computedCallee
  | recordUpdate
  | structLiteralOf (variant : String)
  | missingField (owner field : String)
  | unknownField (owner field : String)
  -- patterns
  | atBinding
  | slicePattern
  | constPattern
  | macroPattern
  | otherPattern
  -- statements
  | labeledBlock
  | breakValue
  | loopValue
  | nestedItem
  | letElse
  | destructuringControl
  -- items
  | traitItem
  | traitAlias
  | nestedModule
  | macroItem
  | unionItem
  | typeAlias
  | externBlock
  | otherItem
  | secondDefinition (name : String)
  | implFor (type : String)
  | associatedItem
  | asyncFn
  | variadicFn
deriving DecidableEq, Repr

namespace Construct

/-- The wording of a construct in messages. -/
def describe : Construct → String
  | asyncBlock => "async block"
  | awaitSuffix => "`.await`"
  | blockValue => "block in expression position"
  | closure => "closure"
  | constBlock => "const block"
  | controlValue form => "`" ++ form.keyword ++ "` in expression position"
  | inferredValue => "`_` expression"
  | questionMark => "`?` operator"
  | tryBlock => "try block"
  | unsafeValue => "unsafe block in expression position"
  | yieldValue => "yield"
  | otherExpr => "expression"
  | qualifiedPath => "qualified self path"
  | repeatLength => "array repeat with a non-literal length"
  | integerRange => "integer literal out of range"
  | byteString => "byte string literal"
  | computedCallee => "call of a computed callee"
  | recordUpdate => "functional record update"
  | structLiteralOf variant => "struct literal of non-struct variant `" ++ variant ++ "`"
  | missingField owner field => "literal of `" ++ owner ++ "` without field `" ++ field ++ "`"
  | unknownField owner field => "literal of `" ++ owner ++ "` with unknown field `" ++ field ++ "`"
  | atBinding => "`@` binding"
  | slicePattern => "slice pattern"
  | constPattern => "const block pattern"
  | macroPattern => "macro in pattern position"
  | otherPattern => "pattern"
  | labeledBlock => "labeled block"
  | breakValue => "`break` with a value"
  | loopValue => "loop in value position"
  | nestedItem => "item nested in a function body"
  | letElse => "`let ... else`"
  | destructuringControl => "destructuring `let` with a control-flow initializer"
  | traitItem => "trait"
  | traitAlias => "trait alias"
  | nestedModule => "nested module"
  | macroItem => "macro item"
  | unionItem => "union"
  | typeAlias => "type alias"
  | externBlock => "extern block"
  | otherItem => "item"
  | secondDefinition name => "second definition of `" ++ name ++ "`"
  | implFor type => "impl block for `" ++ type ++ "`"
  | associatedItem => "associated item"
  | asyncFn => "async fn"
  | variadicFn => "variadic fn"

end Construct

end RustFlow
