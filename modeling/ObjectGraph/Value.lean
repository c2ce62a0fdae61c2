import ObjectGraph.SlotType

/-!
# Values

A value is a scalar, a struct, a handle to something shared, or missing. A struct is held in place:
copying the value copies its fields. Objects and lists live in cells of a heap, and a value only
holds a handle to them: copying the value shares the cell.
-/

namespace ObjectGraph

/-- A declared type: the registry that it is declared in, and its name there. -/
structure TypeId where
  registry : String
  name : String
  deriving DecidableEq, Repr, Inhabited

/-- A handle to a shared object or list. It carries what type checks need to know about the cell,
so that they never look into it. -/
inductive Handle where
  | object (type : TypeId) (cell : Nat)
  | list (element : SlotType) (cell : Nat)
  deriving DecidableEq, Repr, Inhabited

inductive Value where
  | null
  | bool (value : Bool)
  | int (value : Int64)
  | float (value : Float)
  | text (value : String)
  | struct (type : TypeId) (fields : List Value)
  | shared (handle : Handle)
  deriving Inhabited

/-- The field buffer of an instance of a declared type. Fields of ancestors come first. -/
structure Composite where
  type : TypeId
  fields : List Value
  deriving Inhabited

structure Sequence where
  element : SlotType
  items : List Value
  deriving Inhabited

namespace Handle

def cell : Handle → Nat
  | object _ cell => cell
  | list _ cell => cell

def typeName : Handle → String
  | object type _ => type.name
  | list element _ => (SlotType.list element).describe

end Handle

namespace Composite

def toValue (composite : Composite) : Value :=
  .struct composite.type composite.fields

def slot (composite : Composite) (index : Nat) : Value :=
  composite.fields.getD index .null

def setSlot (composite : Composite) (index : Nat) (value : Value) : Composite :=
  { composite with fields := composite.fields.set index value }

end Composite

namespace Sequence

def slot (sequence : Sequence) (index : Nat) : Value :=
  sequence.items.getD index .null

def setSlot (sequence : Sequence) (index : Nat) (value : Value) : Sequence :=
  { sequence with items := sequence.items.set index value }

def typeName (sequence : Sequence) : String :=
  (SlotType.list sequence.element).describe

end Sequence

namespace Value

def typeName : Value → String
  | null => "null"
  | bool _ => "bool"
  | int _ => "int"
  | float _ => "float"
  | text _ => "string"
  | struct type _ => type.name
  | shared handle => handle.typeName

def isNull : Value → Bool
  | null => true
  | _ => false

def isReference : Value → Bool
  | shared _ => true
  | _ => false

def asBool? : Value → Option Bool
  | bool value => some value
  | _ => none

def asInt? : Value → Option Int64
  | int value => some value
  | _ => none

def asFloat? : Value → Option Float
  | float value => some value
  | _ => none

def asText? : Value → Option String
  | text value => some value
  | _ => none

def asStruct? : Value → Option Composite
  | struct type fields => some ⟨type, fields⟩
  | _ => none

def asObject? : Value → Option (TypeId × Nat)
  | shared (.object type cell) => some (type, cell)
  | _ => none

def asList? : Value → Option (SlotType × Nat)
  | shared (.list element cell) => some (element, cell)
  | _ => none

mutual

/-- Whether two values are equal: scalars and structs by content, with the comparison of floating
point numbers that tells a NaN apart from itself, and shared values by identity. Structs of equally
named types compare by their whole buffers. -/
def same : Value → Value → Bool
  | null, null => true
  | bool left, bool right => left == right
  | int left, int right => left == right
  | float left, float right => left == right
  | text left, text right => left == right
  | struct leftType lefts, struct rightType rights =>
      leftType.name == rightType.name && sameAll lefts rights
  | shared left, shared right => left == right
  | _, _ => false

def sameAll : List Value → List Value → Bool
  | [], [] => true
  | left :: lefts, right :: rights => same left right && sameAll lefts rights
  | _, _ => false

end

instance : BEq Value :=
  ⟨same⟩

mutual

/-- Whether a value holds a shared object or list, at any depth of nested structs. -/
def holdsReference : Value → Bool
  | shared _ => true
  | struct _ fields => anyHoldsReference fields
  | _ => false

def anyHoldsReference : List Value → Bool
  | [] => false
  | value :: values => holdsReference value || anyHoldsReference values

end

end Value

end ObjectGraph
