import ObjectGraph.Accessors

/-!
# Rules for computed members

A small vocabulary of computed members: views of backing fields, constants, scaled numbers, fields
of nested composites, and facts about the owner. Backing fields are reached by name; a name that is
unknown, or that stands for another computed member, has no backing field.
-/

namespace ObjectGraph

/-- How a computed member is read. -/
inductive ReadRule where
  | field (name : String)
  | constant (value : Value)
  | scaledInt (name : String) (factor : Int64)
  | scaledFloat (name : String) (factor : Float)
  | nested (names : List String)
  | typeName
  | fresh
  | length (name : String)
  deriving Inhabited

/-- How a computed member is written. -/
inductive WriteRule where
  | fields (names : List String)
  | ignore
  | scaledInt (name : String) (factor : Int64)
  | scaledFloat (name : String) (factor : Float)
  | nested (names : List String)
  deriving Inhabited

/-- A computed member. Without a rule for writing it is read-only. -/
structure PropertyRule where
  read : ReadRule
  write? : Option WriteRule
  deriving Inhabited

namespace ReadRule

def ownerOf? (heap : Heap) (value : Value) : Option Composite :=
  match heap.container? value with
  | some (.composite owner) => some owner
  | _ => none

def nestedField? {Rule : Type} (catalog : Catalog Rule) (heap : Heap) :
    List String → Composite → Option Value
  | [], _ => none
  | [name], owner => owner.field? catalog name
  | name :: next :: names, owner => do
      let value ← owner.field? catalog name
      let inner ← ownerOf? heap value
      nestedField? catalog heap (next :: names) inner

def lengthOf (heap : Heap) : Option Value → Int64
  | some (.shared (.list element cell)) => Int64.ofNat (heap.length (.list element cell))
  | _ => -1

def run {Rule : Type} (rule : ReadRule) (catalog : Catalog Rule) (owner : Composite)
    (heap : Heap) : Value × Heap :=
  match rule with
  | field name => ((owner.field? catalog name).getD .null, heap)
  | constant value => (value, heap)
  | scaledInt name factor =>
      (.int ((((owner.field? catalog name).bind Value.asInt?).getD 0) * factor), heap)
  | scaledFloat name factor =>
      (.float ((((owner.field? catalog name).bind Value.asFloat?).getD 0.0) * factor), heap)
  | nested names => ((nestedField? catalog heap names owner).getD .null, heap)
  | typeName => (.text owner.type.name, heap)
  | fresh => catalog.instantiate owner.type heap
  | length name => (.int (lengthOf heap (owner.field? catalog name)), heap)

end ReadRule

namespace WriteRule

def store {Rule : Type} (catalog : Catalog Rule) (owner : Composite) (name : String)
    (value : Value) : Composite :=
  (owner.setField? catalog name value).getD owner

/-- Stores into the field behind a chain of names, as long as all fields on the way hold structs. -/
def storeNested {Rule : Type} (catalog : Catalog Rule) (value : Value) :
    List String → Composite → Option Composite
  | [], _ => none
  | [name], owner => owner.setField? catalog name value
  | name :: next :: names, owner => do
      let inner ← (owner.field? catalog name).bind Value.asStruct?
      let inner ← storeNested catalog value (next :: names) inner
      owner.setField? catalog name inner.toValue

def run {Rule : Type} (rule : WriteRule) (catalog : Catalog Rule) (owner : Composite)
    (value : Value) : Composite :=
  match rule with
  | fields names => names.foldl (fun owner name => store catalog owner name value) owner
  | ignore => owner
  | scaledInt name factor =>
      match value with
      | .int number => store catalog owner name (.int (number * factor))
      | _ => owner
  | scaledFloat name factor =>
      match value with
      | .float number => store catalog owner name (.float (number * factor))
      | _ => owner
  | nested names => (storeNested catalog value names owner).getD owner

end WriteRule

instance : Accessors PropertyRule where
  read rule := rule.read.run
  write? rule := rule.write?.map fun write catalog owner value heap =>
    (write.run catalog owner value, heap)

end ObjectGraph
