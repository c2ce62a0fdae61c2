import ObjectGraph.Catalog

/-!
# Trees of values

A value unfolds into a tree: structs and objects into maps of their visible stored fields, lists
into sequences, and scalars into themselves. Graphs may have cycles, so containers may only be
nested to a fixed depth.
-/

namespace ObjectGraph

variable {Rule : Type}

/-- A value without sharing. -/
inductive Tree where
  | unit
  | bool (value : Bool)
  | int (value : Int64)
  | float (value : Float)
  | text (value : String)
  | map (entries : List (String × Tree))
  | sequence (items : List Tree)
  deriving Inhabited

/-- The deepest nesting of containers in a tree. -/
def Tree.maxDepth : Nat := 64

/-- A container of this type was met below the deepest nesting. -/
structure DepthExceeded where
  typeName : String
  deriving DecidableEq, Repr

def DepthExceeded.message (failure : DepthExceeded) : String :=
  s!"`{failure.typeName}` is nested deeper than {Tree.maxDepth} levels, the graph may be cyclic"

def Container.unfoldWith (catalog : Catalog Rule) (inner : Value → Except DepthExceeded Tree) :
    Container → Except DepthExceeded Tree
  | .composite owner =>
      .map <$> (owner.namedFields catalog).mapM fun (name, value) => (name, ·) <$> inner value
  | .sequence elements => .sequence <$> elements.items.mapM inner

/-- Unfolds a value with a number of nested containers at most. -/
def Value.unfold (catalog : Catalog Rule) (heap : Heap) :
    (depth : Nat) → Value → Except DepthExceeded Tree
  | _, .null => .ok .unit
  | _, .bool value => .ok (.bool value)
  | _, .int value => .ok (.int value)
  | _, .float value => .ok (.float value)
  | _, .text value => .ok (.text value)
  | 0, .struct type _ => .error ⟨type.name⟩
  | 0, .shared handle => .error ⟨(heap.read handle).typeName⟩
  | depth + 1, .struct type fields =>
      (Container.composite ⟨type, fields⟩).unfoldWith catalog (unfold catalog heap depth)
  | depth + 1, .shared handle =>
      (heap.read handle).unfoldWith catalog (unfold catalog heap depth)

def Value.tree (catalog : Catalog Rule) (heap : Heap) (value : Value) :
    Except DepthExceeded Tree :=
  value.unfold catalog heap Tree.maxDepth

end ObjectGraph
