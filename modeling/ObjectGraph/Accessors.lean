import ObjectGraph.Catalog

/-!
# What computed members do

Computed members are declared by tokens. A token is read from the composite that owns the member,
and it may be written into that composite. Both may look at everything else and may add cells to the
heap.
-/

namespace ObjectGraph

/-- The meaning of the tokens that computed members are declared with. -/
class Accessors (Rule : Type) where
  /-- The value of the member. It is a copy: changing it never reaches the owner. -/
  read : Rule → Catalog Rule → Composite → Heap → Value × Heap
  /-- How a value is written into the owner, unless the member is read-only. It is only used with
  values that fit the declared type of the member. -/
  write? : Rule → Option (Catalog Rule → Composite → Value → Heap → Composite × Heap)

variable {Rule : Type} [Accessors Rule]

/-- Whether a member can be written; nothing for stored members. -/
def Member.writable? (member : Member Rule) : Option Bool :=
  match member.kind with
  | .field => none
  | .property rule => some (Accessors.write? rule).isSome

end ObjectGraph
