/-
# Classes of characters

A class of characters is a union of ranges of code points.  It is given by the
lengths of the stretches outside and inside it, in turn, from U+0000 on; what is
left after the last stretch lies outside.  `isBlank` is the class that separates
tokens.
-/

namespace RustFlow
namespace Text

/-- Whether a number, counted from the start of the stretches, falls in one inside
the class; the flag tells whether the first of them is inside. -/
def inStretch : List Nat → Bool → Nat → Bool
  | [], _, _ => false
  | length :: rest, inside, n =>
    if n < length then inside else inStretch rest (!inside) (n - length)

/-- Whether a character lies in one of the ranges. -/
def inRanges (stretches : List Nat) (c : Char) : Bool := inStretch stretches false c.toNat

/-- White space, with the two direction marks U+200E and U+200F. -/
def blankRanges : List Nat :=
  [9, 5, 18, 1, 100, 1, 26, 1, 5599, 1, 2431, 11, 3, 2, 24, 2, 5, 1, 47, 1, 4000, 1]

/-- Whether a character separates tokens. -/
def isBlank (c : Char) : Bool := inRanges blankRanges c

end Text
end RustFlow
