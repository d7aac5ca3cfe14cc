/-
# Tokens

Source text is read into trees of tokens: identifiers, punctuation characters,
lifetimes, literals, and groups between matching delimiters.

Punctuation is kept character by character.  A character is *joint* if another
punctuation character follows it at once; operators of several characters are
runs of joint characters.
-/

import RustFlow.Ast.Path

namespace RustFlow

/-- The three pairs of delimiters. -/
inductive Delimiter where
  | paren | bracket | brace
deriving DecidableEq, Repr

/-- A tree of tokens. -/
inductive Token where
  /-- A name or keyword; a raw identifier keeps its `r#`. -/
  | ident (pos : Position) (text : String)
  | punct (pos : Position) (char : Char) (joint : Bool)
  /-- A lifetime or label, its name without the apostrophe. -/
  | lifetime (pos : Position) (name : String)
  /-- A literal with its value and its text. -/
  | literal (pos : Position) (value : Ast.Lit) (text : String)
  | group (pos : Position) (delimiter : Delimiter) (content : List Token)
deriving Inhabited

namespace Token

/-- The place of the first character. -/
def pos : Token → Position
  | ident p _ | punct p _ _ | lifetime p _ | literal p _ _ | group p _ _ => p

mutual

/-- The number of tokens in a tree. -/
def size : Token → Nat
  | group _ _ content => sizeAll content + 2
  | ident .. | punct .. | lifetime .. | literal .. => 1

/-- The number of tokens in a list of trees. -/
def sizeAll : List Token → Nat
  | [] => 0
  | t :: ts => size t + sizeAll ts

end

end Token

end RustFlow
