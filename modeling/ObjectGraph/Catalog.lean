import ObjectGraph.Heap
import ObjectGraph.Layout

/-!
# Catalogs

A registry holds the layouts of the types declared in it, and a catalog holds registries by label.
A type is looked up by its registry and its name, so instances of several registries can meet in one
graph. Everything that depends on the declared structure of values is answered here: which values
fit a slot, which fields an instance shows, and what a new instance looks like.
-/

namespace ObjectGraph

variable {Rule : Type}

structure Registry (Rule : Type) where
  layouts : NameTable (Layout Rule)
  deriving Inhabited

structure Catalog (Rule : Type) where
  registries : NameTable (Registry Rule)
  deriving Inhabited

namespace Registry

def empty : Registry Rule :=
  ⟨.empty⟩

def get? (registry : Registry Rule) (name : String) : Option (Layout Rule) :=
  registry.layouts.get? name

def contains (registry : Registry Rule) (name : String) : Bool :=
  registry.layouts.contains name

def size (registry : Registry Rule) : Nat :=
  registry.layouts.size

def names (registry : Registry Rule) : List String :=
  registry.layouts.sorted.map Prod.fst

end Registry

namespace Catalog

def empty : Catalog Rule :=
  ⟨.empty⟩

/-- The registry with a label. A label that was not used yet stands for an empty registry. -/
def registry (catalog : Catalog Rule) (label : String) : Registry Rule :=
  (catalog.registries.get? label).getD .empty

def layout? (catalog : Catalog Rule) (type : TypeId) : Option (Layout Rule) :=
  (catalog.registry type.registry).get? type.name

/-- The layout of a type. A type that is not registered has no members. -/
def layout (catalog : Catalog Rule) (type : TypeId) : Layout Rule :=
  (catalog.layout? type).getD (.bare type.name .reference)

def addLayout (catalog : Catalog Rule) (label : String) (layout : Layout Rule) : Catalog Rule :=
  ⟨catalog.registries.set label
    ⟨(catalog.registry label).layouts.set layout.name layout⟩⟩

/-- Makes a new instance of a type: a struct, or a new shared object. -/
def instantiate (catalog : Catalog Rule) (type : TypeId) (heap : Heap) : Value × Heap :=
  let layout := catalog.layout type
  let fresh : Composite := ⟨type, layout.defaults⟩
  match layout.semantics with
  | .value => (fresh.toValue, heap)
  | .reference => heap.newObject fresh

end Catalog

/-- Whether a value may be stored in a slot of this type. Scalars have to match exactly, a struct by
the name of its type, an object by the names of its type and of all that it derives from, and a list
by its element type. Slots for shared values may be unset. -/
def SlotType.accepts (catalog : Catalog Rule) : SlotType → Value → Bool
  | .any, _ => true
  | .bool, .bool _ => true
  | .int, .int _ => true
  | .float, .float _ => true
  | .text, .text _ => true
  | .struct name, .struct type _ => type.name == name
  | .object _, .null => true
  | .list _, .null => true
  | .object name, .shared (.object type _) => (catalog.layout type).isA name
  | .list element, .shared (.list found _) => found == element
  | _, _ => false

namespace Composite

/-- The stored field that a name reaches: nothing for unknown names and for computed members. -/
def field? (catalog : Catalog Rule) (composite : Composite) (name : String) : Option Value :=
  ((catalog.layout composite.type).slot? name).bind (composite.fields[·]?)

/-- Stores into the field that a name reaches without checking the type of the value. Setters use
this to update their backing fields. -/
def setField? (catalog : Catalog Rule) (composite : Composite) (name : String) (value : Value) :
    Option Composite := do
  let index ← (catalog.layout composite.type).slot? name
  if index < composite.fields.length then
    some (composite.setSlot index value)
  else
    none

def namedFields (catalog : Catalog Rule) (composite : Composite) : List (String × Value) :=
  (catalog.layout composite.type).visible.filterMap fun placed => do
    let index ← placed.stored?
    let value ← composite.fields[index]?
    some (placed.name, value)

end Composite

namespace Heap

/-- Makes a list of these elements, or answers the first element that the type does not accept. -/
def newList (catalog : Catalog Rule) (heap : Heap) (element : SlotType) (items : List Value) :
    Except Value (Value × Heap) :=
  match items.find? fun item => !element.accepts catalog item with
  | some rejected => .error rejected
  | none => .ok (heap.newSequence ⟨element, items⟩)

/-- Adds an element at the end of a list, unless the list does not accept it. Lists never grow in
any other way. -/
def push (catalog : Catalog Rule) (heap : Heap) (handle : Handle) (value : Value) : Option Heap :=
  match heap.read handle with
  | .composite _ => none
  | .sequence sequence =>
      if sequence.element.accepts catalog value then
        some (heap.write handle
          (.sequence { sequence with items := sequence.items ++ [value] }))
      else
        none

end Heap

end ObjectGraph
