/-
# Control-flow graphs of functions

A `Cfg` is the graph of one function or method together with its signature.
-/

import RustFlow.Graph.Traversal

namespace RustFlow

/-- How a method takes `self`. -/
inductive Receiver where
  | byValue
  | byRef
  | byMutRef
deriving DecidableEq, Repr

namespace Receiver

/-- The name of a way to take `self`. -/
def name : Receiver → String
  | byValue => "Value"
  | byRef => "Ref"
  | byMutRef => "RefMut"

end Receiver

/-- A parameter of a function. -/
structure Parameter where
  /-- The bound name, or the text of a destructuring pattern. -/
  name : String
  type : TypeId
  mutable : Bool
  pattern : Pattern
  location : Location

/-- The name, place, parameters and result of a function. -/
structure Signature where
  name : String
  /-- The unit the function belongs to. -/
  unit : UnitId
  location : Location
  /-- The parameters; for a method the receiver comes first. -/
  params : List Parameter
  returnType : TypeId
  receiver : Option Receiver

namespace Signature

/-- Whether the function returns nothing. -/
def returnsUnit (s : Signature) : Bool := s.returnType == .unit

end Signature

/-- The control-flow graph of a function. -/
structure Cfg where
  signature : Signature
  graph : Graph

namespace Cfg

/-- The name of the function. -/
def name (c : Cfg) : String := c.signature.name

/-- The graph as text: a line with the name, then one line per reachable node. -/
def render (c : Cfg) : String := "cfg " ++ c.name ++ "\n" ++ c.graph.render

end Cfg

end RustFlow
