import ObjectGraph.PropertyRule
import ObjectGraph.Registration

/-!
# A ring of one node

A node holds a pair of numbers in place, a reference to the next node, and two computed members: a
copy of its pair, and a spare node that is made anew whenever it is read. The one node of the ring
is its own successor, so that a path may pass through it any number of times.
-/

namespace ObjectGraph

namespace Ring

/-- A pair, with a computed member that writes both of its numbers. -/
def pair : TypeDecl PropertyRule where
  name := "Pair"
  semantics := .value
  base? := none
  members :=
    [⟨"x", .int, .field, .everyone, none⟩,
      ⟨"y", .int, .field, .everyone, none⟩,
      ⟨"both", .int, .property ⟨.field "x", some (.fields ["x", "y"])⟩, .everyone, none⟩]

def node : TypeDecl PropertyRule where
  name := "Node"
  semantics := .reference
  base? := none
  members :=
    [⟨"pair", .struct "Pair", .field, .everyone, none⟩,
      ⟨"next", .object "Node", .field, .everyone, none⟩,
      ⟨"copy", .struct "Pair", .property ⟨.field "pair", none⟩, .everyone, none⟩,
      ⟨"spare", .object "Node", .property ⟨.fresh, none⟩, .everyone, none⟩]

def catalog : Catalog PropertyRule :=
  ((Catalog.empty.register "main" pair).catalog.register "main" node).catalog

def handle : Handle :=
  .object ⟨"main", "Node"⟩ 0

def root : Value :=
  .shared handle

def heapWith (x y : Int64) : Heap :=
  ⟨#[.composite ⟨⟨"main", "Node"⟩, [.struct ⟨"main", "Pair"⟩ [.int x, .int y], root]⟩]⟩

def heap : Heap :=
  heapWith 1 2

end Ring

end ObjectGraph
