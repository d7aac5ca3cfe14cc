/-
# Reading source text

The rules of the grammar are tied together here, to a depth that no text can
exceed: every rule that refers to another reads a token first, or is followed by
a fixed number of rules that do.

A file may start with a byte order mark and with a line that names its
interpreter.  The line is dropped, its end is not, so that lines keep their
numbers.
-/

import RustFlow.Grammar.Item
import RustFlow.Token.Lexer

namespace RustFlow
namespace Grammar

/-- The rules over rules that are one level deeper. -/
def tie (r : Rules) : Rules where
  expr := fun allowStruct c => expr r allowStruct c
  operand := fun allowStruct c => operand r allowStruct c
  type := fun allowPlus c => typeExpr r allowPlus c
  bound := fun place c => bound r place c
  pat := fun c => singlePattern r c
  stmts := fun c => stmts r c
  item := fun c => item r c

/-- The rules to a given depth. -/
def rules (depth : Nat) : Rules := Nat.repeat tie depth .none

/-- Reads all of a text by a rule. -/
def readAll? {α : Type} (p : Rules → Parse α) (text : List Char) : Option α := do
  let tokens ← Token.read? text
  let (a, rest) ← p (rules (8 * Token.sizeAll tokens + 16)) ⟨tokens, []⟩
  if rest.ahead.isEmpty then some a else none

/-- A file without its byte order mark. -/
def dropMark : List Char → List Char
  | '\ufeff' :: rest => rest
  | cs => cs

/-- A file without the line that names its interpreter. -/
def dropInterpreter (cs : List Char) : List Char :=
  match cs with
  | '#' :: '!' :: rest =>
    if (Token.skipBlanks rest).head? == some '[' then cs else cs.dropWhile (· != '\n')
  | _ => cs

/-- The items of a file. -/
def file (r : Rules) : Parse (List Ast.Item) := do
  innerAttributes r
  whileAhead (fun ts => !ts.isEmpty) r.item

/-- Reads a file. -/
def readFile? (source : String) : Option (List Ast.Item) :=
  readAll? file (dropInterpreter (dropMark source.toList))

/-- Reads a block. -/
def readBlock? (source : String) : Option Ast.Block := readAll? block source.toList

/-- Reads a type. -/
def readType? (source : String) : Option Ast.TypeAnn := readAll? typeAnn source.toList

/-- Reads the result of a function, which may be absent. -/
def readResult? (source : String) : Option (Option Ast.TypeAnn) :=
  readAll? (fun r => result? r true) source.toList

/-- Reads generic parameters, and gives the names of the type parameters. -/
def readGenerics? (source : String) : Option (List String) :=
  (readAll? genericParams source.toList).map Prod.snd

end Grammar
end RustFlow
