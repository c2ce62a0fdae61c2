import ObjectGraph.Value

/-!
# The heap

Shared objects and lists live in the cells of a heap. Cells are only ever added and overwritten,
never removed, so a handle stays good for ever.
-/

namespace ObjectGraph

/-- What values can be selected from by a step: the fields of a composite or the elements of a
sequence. -/
inductive Container where
  | composite (owner : Composite)
  | sequence (elements : Sequence)
  deriving Inhabited

namespace Container

def typeName : Container → String
  | composite owner => owner.type.name
  | sequence elements => elements.typeName

def slots : Container → List Value
  | composite owner => owner.fields
  | sequence elements => elements.items

end Container

structure Heap where
  cells : Array Container
  deriving Inhabited

namespace Heap

def empty : Heap :=
  ⟨#[]⟩

/-- The content of the cell that a handle points at. A handle that points at no cell stands for an
empty container of its type. -/
def read (heap : Heap) (handle : Handle) : Container :=
  match heap.cells[handle.cell]? with
  | some container => container
  | none =>
      match handle with
      | .object type _ => .composite ⟨type, []⟩
      | .list element _ => .sequence ⟨element, []⟩

def write (heap : Heap) (handle : Handle) (container : Container) : Heap :=
  ⟨heap.cells.setIfInBounds handle.cell container⟩

def newObject (heap : Heap) (composite : Composite) : Value × Heap :=
  (.shared (.object composite.type heap.cells.size), ⟨heap.cells.push (.composite composite)⟩)

/-- Adds a cell for a new list, without checking the elements. -/
def newSequence (heap : Heap) (sequence : Sequence) : Value × Heap :=
  (.shared (.list sequence.element heap.cells.size), ⟨heap.cells.push (.sequence sequence)⟩)

/-- The container that a value stands for: the struct itself, or what its handle points at. -/
def container? (heap : Heap) : Value → Option Container
  | .struct type fields => some (.composite ⟨type, fields⟩)
  | .shared handle => some (heap.read handle)
  | _ => none

def length (heap : Heap) (handle : Handle) : Nat :=
  (heap.read handle).slots.length

@[simp]
theorem read_write_same
    {heap : Heap} {handle : Handle} {container : Container}
    (live : handle.cell < heap.cells.size) :
    (heap.write handle container).read handle = container := by
  simp [read, write, live]

@[simp]
theorem size_write (heap : Heap) (handle : Handle) (container : Container) :
    (heap.write handle container).cells.size = heap.cells.size := by
  simp [write]

end Heap

end ObjectGraph
