/-
# Configuration

The settings that a build depends on.
-/

namespace RustFlow

/-- How files are lowered and graphs are finished. -/
structure Config where
  /-- Whether a named type that is no struct or enum of the module is an error;
  otherwise it is the unknown type. -/
  strictTypes : Bool := true
  /-- Whether pass-through no-op nodes are spliced out. -/
  simplify : Bool := true
  /-- Whether the first failure ends the build instead of being recorded. -/
  failFast : Bool := false
  /-- What the names of the iterators behind `for` loops start with. -/
  freshStem : String := "__iter"
deriving DecidableEq, Repr, Inhabited

end RustFlow
