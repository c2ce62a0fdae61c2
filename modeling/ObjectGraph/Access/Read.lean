import ObjectGraph.Access.Container

/-!
# Reading along a path

Every step reads from the container that the step before it produced. What is read is a copy:
structs are copied, objects and lists are shared.
-/

namespace ObjectGraph

variable {Rule : Type} [Accessors Rule]

/-- Follows steps from a value that the step `reachedBy?` produced. -/
def Value.follow (catalog : Catalog Rule) : List Step → Option Step → Value → Access Value
  | [], _, value => return value
  | step :: steps, reachedBy?, value => do
      let reading ← value.fetch catalog reachedBy? step
      reading.value.follow catalog steps (some step)

def Value.read (catalog : Catalog Rule) (root : Value) (path : Path) : Access Value :=
  root.follow catalog path.steps none

end ObjectGraph
