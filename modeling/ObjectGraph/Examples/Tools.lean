import ObjectGraph.PropertyRule
import ObjectGraph.Registration

/-!
# Three generations of types

A tool is a thing and a saw is a tool. The label is declared anew in each generation: it is a text,
then a computed member, and then a number.
-/

namespace ObjectGraph

namespace Tools

def thing : TypeDecl PropertyRule where
  name := "Thing"
  semantics := .reference
  base? := none
  members :=
    [⟨"id", .int, .field, .owner, none⟩,
      ⟨"label", .text, .field, .everyone, none⟩]

def tool : TypeDecl PropertyRule where
  name := "Tool"
  semantics := .reference
  base? := some "Thing"
  members := [⟨"label", .int, .property ⟨.field "id", none⟩, .everyone, none⟩]

def saw : TypeDecl PropertyRule where
  name := "Saw"
  semantics := .reference
  base? := some "Tool"
  members := [⟨"label", .int, .field, .descendants, some (.int 3)⟩]

def catalog : Catalog PropertyRule :=
  (((Catalog.empty.register "main" thing).catalog.register "main" tool).catalog.register "main"
    saw).catalog

def sawType : TypeId :=
  ⟨"main", "Saw"⟩

def sawLayout : Layout PropertyRule :=
  catalog.layout sawType

theorem layout?_saw : catalog.layout? sawType = some sawLayout :=
  rfl

end Tools

end ObjectGraph
