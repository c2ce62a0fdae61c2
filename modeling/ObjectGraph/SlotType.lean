/-!
# Types of slots

A slot is a place that holds a value: a field of a composite or an element of a list. Its type says
which values may be stored there.
-/

namespace ObjectGraph

/-- The declared type of a slot. A struct is held in the slot itself. Objects, which may be of a
type derived from the named one, and lists are shared, and a slot for them may be unset. -/
inductive SlotType where
  | any
  | bool
  | int
  | float
  | text
  | struct (name : String)
  | object (name : String)
  | list (element : SlotType)
  deriving DecidableEq, Repr, Inhabited

namespace SlotType

def describe : SlotType → String
  | any => "any"
  | bool => "bool"
  | int => "int"
  | float => "float"
  | text => "string"
  | struct name => name
  | object name => name
  | list element => "list<" ++ describe element ++ ">"

end SlotType

end ObjectGraph
