import ObjectGraph.Declaration
import ObjectGraph.NameTable

/-!
# Layouts

A layout is the flattened member table of a registered type: every member that the type declares or
inherits, base first, with an index from each name to the nearest declaration of it and the initial
contents of the field buffer.
-/

namespace ObjectGraph

variable {Rule : Type}

/-- A member within a layout: the type that declares it, and the number of stored fields in front of
it, which is its place in the field buffer when it is stored. -/
structure PlacedMember (Rule : Type) where
  member : Member Rule
  declaredBy : String
  offset : Nat
  deriving Inhabited

namespace PlacedMember

def name (placed : PlacedMember Rule) : String :=
  placed.member.name

def type (placed : PlacedMember Rule) : SlotType :=
  placed.member.type

def stored? (placed : PlacedMember Rule) : Option Nat :=
  if placed.member.isField then some placed.offset else none

end PlacedMember

/-- The flattened member table of a registered type: the types that it derives from, nearest first,
all members, hidden ones included, base first, where the member that a name reaches stands among
them, and the field buffer of a new instance. -/
structure Layout (Rule : Type) where
  name : String
  semantics : Semantics
  ancestors : List String
  members : List (PlacedMember Rule)
  index : NameTable Nat
  defaults : List Value

namespace Layout

def bare (name : String) (semantics : Semantics) : Layout Rule where
  name := name
  semantics := semantics
  ancestors := []
  members := []
  index := .empty
  defaults := []

instance : Inhabited (Layout Rule) :=
  ⟨bare "" .reference⟩

def base? (layout : Layout Rule) : Option String :=
  layout.ancestors.head?

/-- The type itself and then what it derives from, nearest first. -/
def lineage (layout : Layout Rule) : List String :=
  layout.name :: layout.ancestors

def isA (layout : Layout Rule) (name : String) : Bool :=
  layout.lineage.contains name

/-- The member that a name reaches. Visibility plays no part. -/
def member? (layout : Layout Rule) (name : String) : Option (PlacedMember Rule) :=
  (layout.index.get? name).bind (layout.members[·]?)

/-- The members that their own names reach, base first. -/
def visible (layout : Layout Rule) : List (PlacedMember Rule) :=
  (layout.members.zipIdx.filter fun (placed, position) =>
    layout.index.get? placed.name == some position).map Prod.fst

def fieldCount (layout : Layout Rule) : Nat :=
  layout.defaults.length

def slot? (layout : Layout Rule) (name : String) : Option Nat :=
  (layout.member? name).bind PlacedMember.stored?

def addMember (layout : Layout Rule) (member : Member Rule) (defaults : List Value) :
    Layout Rule :=
  { layout with
    members := layout.members ++ [⟨member, layout.name, layout.defaults.length⟩]
    index := layout.index.set member.name layout.members.length
    defaults := layout.defaults ++ defaults }

/-- The layout of a type that derives from this one, before it gets members of its own. -/
def derive (base : Layout Rule) (name : String) (semantics : Semantics) : Layout Rule :=
  { base with
    name := name
    semantics := semantics
    ancestors := base.lineage }

end Layout

end ObjectGraph
