/-
# Tokens as text

Tokens are separated by one space, except that nothing follows a joint
punctuation character.  A group is one token: its content between the
delimiters, with a space inside braces.

Text that is put together from parts is a list of pieces, each with the mark
whether it is joint.
-/

import RustFlow.Token

namespace RustFlow
namespace Token

/-- A text between delimiters. -/
def enclose (delimiter : Delimiter) (inner : String) : String :=
  match delimiter with
  | .paren => "(" ++ inner ++ ")"
  | .bracket => "[" ++ inner ++ "]"
  | .brace => "\x7b " ++ inner ++ (if inner.isEmpty then "" else " ") ++ "\x7d"

/-- Whether the next token follows without a space. -/
def isJoint : Token → Bool
  | punct _ _ joint => joint
  | _ => false

mutual

/-- The text of a token. -/
def text : Token → String
  | ident _ name => name
  | punct _ c _ => String.singleton c
  | lifetime _ name => "'" ++ name
  | literal _ _ text => text
  | group _ delimiter content => enclose delimiter (textAll content)

/-- The text of a list of tokens. -/
def textAll : List Token → String
  | [] => ""
  | [t] => text t
  | t :: ts => text t ++ (if t.isJoint then "" else " ") ++ textAll ts

end

/-- A part of a text that is put together; the next part follows a joint one
without a space. -/
structure Piece where
  text : String
  joint : Bool

namespace Piece

/-- A piece that a space follows. -/
def plain (text : String) : Piece := ⟨text, false⟩

/-- The text of a list of pieces. -/
def textAll : List Piece → String
  | [] => ""
  | [p] => p.text
  | p :: ps => p.text ++ (if p.joint then "" else " ") ++ textAll ps

end Piece

/-- The piece of a token that stands as it was written. -/
def piece (t : Token) : Piece := ⟨t.text, t.isJoint⟩

end Token
end RustFlow
