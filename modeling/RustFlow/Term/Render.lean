/-
# Terms and patterns as text

Terms read like source text.  A tuple of one element keeps its comma, a struct
literal lists its values without field names, and an immutable reference to a
mutable binding is parenthesised, `&(mut b)`, since `&mut b` is a mutable
reference.
-/

import RustFlow.Binary64.Shortest
import RustFlow.Term
import RustFlow.Text.Quoted

namespace RustFlow

namespace Literal

/-- The text of a constant. -/
def render : Literal → String
  | int n => toString n
  | float x => x.render
  | bool b => if b then "true" else "false"
  | char c => Text.quotedChar c
  | str s => Text.quotedString s
  | unit => "()"

end Literal

namespace Variable

/-- The name of a variable, after `mut` if it is mutable. -/
def render (v : Variable) : String := (if v.mutable then "mut " else "") ++ v.name

end Variable

/-- Texts with a comma between each two. -/
def commaList (texts : List String) : String := ", ".intercalate texts

/-- Texts in parentheses, with a final comma after a single one. -/
def tupleText (texts : List String) : String :=
  "(" ++ commaList texts ++ (if texts.length = 1 then "," else "") ++ ")"

/-- A range between two texts. -/
def rangeText (start stop : String) (inclusive : Bool) : String :=
  start ++ (if inclusive then "..=" else "..") ++ stop

mutual

/-- The text of a term. -/
def Term.render : Term → String
  | .mk form _ _ => form.render

/-- The text of what a term computes. -/
def TermForm.render : TermForm → String
  | .literal l => l.render
  | .var v => v.render
  | .path p => p
  | .macroCall p tokens => p ++ "!(" ++ tokens ++ ")"
  | .exhausted => "None"
  | .binary op l r => l.render ++ " " ++ op.symbol ++ " " ++ r.render
  | .unary op e => op.symbol ++ e.render
  | .borrow m e => (if m then "&mut " else "&") ++ e.render
  | .cast e target => e.render ++ " as " ++ target
  | .range a b inclusive => rangeText (renderOption a) (renderOption b) inclusive
  | .declare p ascription init =>
    "let " ++ p.render ++
      (match ascription with
        | some t => " : " ++ t
        | none => "") ++
      (match init with
        | some e => " = " ++ e.render
        | none => "")
  | .assign t v => t.render ++ " = " ++ v.render
  | .test p e => "let " ++ p.render ++ " = " ++ e.render
  | .pattern p => p.render
  | .index b i => b.render ++ "[" ++ i.render ++ "]"
  | .tupleField b i => b.render ++ "." ++ toString i
  | .field b f => b.render ++ "." ++ f
  | .call target qualifier method args =>
    if method then
      let texts := renderAll args
      texts.headD "" ++ "." ++ target ++ "(" ++ commaList texts.tail ++ ")"
    else
      (match qualifier with
        | some q => q ++ "::"
        | none => "") ++ target ++ "(" ++ commaList (renderAll args) ++ ")"
  | .structLit name fields => name ++ "\x7b" ++ commaList (renderAll fields) ++ "\x7d"
  | .enumLit name variant payload values =>
    name ++ "::" ++ variant ++
      match payload with
      | .unit => ""
      | .tuple => "(" ++ commaList (renderAll values) ++ ")"
      | .struct => "\x7b" ++ commaList (renderAll values) ++ "\x7d"
  | .tuple es => tupleText (renderAll es)
  | .array es => "[" ++ commaList (renderAll es) ++ "]"
  | .arrayRepeat e n => "[" ++ e.render ++ "; " ++ toString n ++ "]"

/-- The texts of a list of terms. -/
def renderAll : List Term → List String
  | [] => []
  | t :: ts => t.render :: renderAll ts

/-- The text of a term that may be absent. -/
def renderOption : Option Term → String
  | none => ""
  | some t => t.render

/-- The text of a pattern. -/
def Pattern.render : Pattern → String
  | .binding v => v.render
  | .reference true p => "&mut " ++ p.render
  | .reference false p =>
    match p with
    | .binding v => if v.mutable then "&(" ++ v.render ++ ")" else "&" ++ v.render
    | p => "&" ++ p.render
  | .struct name _ fields rest =>
    name ++ " \x7b " ++ commaList (renderFields fields ++ (if rest then [".."] else [])) ++ " \x7d"
  | .tupleStruct path ps => path ++ "(" ++ commaList (renderPatterns ps) ++ ")"
  | .path path => path
  | .tuple ps => tupleText (renderPatterns ps)
  | .literal t => t.render
  | .range a b inclusive => rangeText (renderOption a) (renderOption b) inclusive
  | .alternatives ps => " | ".intercalate (renderPatterns ps)
  | .rest => ".."
  | .wildcard => "_"

/-- The texts of a list of patterns. -/
def renderPatterns : List Pattern → List String
  | [] => []
  | p :: ps => p.render :: renderPatterns ps

/-- The texts of the fields of a struct pattern. -/
def renderFields : List FieldPattern → List String
  | [] => []
  | .mk name p :: fs => (name ++ ": " ++ p.render) :: renderFields fs

end

end RustFlow
