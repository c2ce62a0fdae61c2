import ObjectGraph.Value

/-!
# Declarations of types

A type is declared by its name, by how its instances behave when they are copied, by an optional
base type and by its own members. A member is stored in its owner or computed from it. What a
computed member does is not part of its declaration: the declaration only holds a token of a type
`Rule`, and `ObjectGraph.Accessors` gives the tokens their meaning.
-/

namespace ObjectGraph

inductive Semantics where
  | reference
  | value
  deriving DecidableEq, Repr, Inhabited

def Semantics.describe : Semantics → String
  | reference => "Reference"
  | value => "Value"

/-- The declared access level of a member. It is recorded for tools and never consulted. -/
inductive Visibility where
  | everyone
  | descendants
  | owner
  deriving DecidableEq, Repr, Inhabited

inductive MemberKind (Rule : Type) where
  | field
  | property (rule : Rule)
  deriving DecidableEq, Repr, Inhabited

/-- A declared member. The initial value counts for fields only. -/
structure Member (Rule : Type) where
  name : String
  type : SlotType
  kind : MemberKind Rule
  visibility : Visibility
  initial? : Option Value
  deriving Inhabited

structure TypeDecl (Rule : Type) where
  name : String
  semantics : Semantics
  base? : Option String
  members : List (Member Rule)
  deriving Inhabited

def Member.isField {Rule : Type} (member : Member Rule) : Bool :=
  match member.kind with
  | .field => true
  | .property _ => false

end ObjectGraph
