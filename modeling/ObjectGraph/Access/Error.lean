import ObjectGraph.Path.Basic
import ObjectGraph.Heap

/-!
# Failures of path access

None of these is fatal: a read that fails has nothing to show, and a write that fails leaves the
graph alone. Accesses run on a heap, which computed members may extend, and the heap is known after
a failure as well as after a success.
-/

namespace ObjectGraph

inductive AccessError where
  | malformedPath (path : String) (malformation : Path.Malformation)
  | memberNotFound (typeName : String) (name : String)
  | indexOutOfRange (attempted : Nat) (length : Nat)
  | nullIntermediate (reachedBy : Step)
  | nullRoot
  | typeMismatch (expected : SlotType) (found : String)
  /-- The owner of the slot is a copy that nothing else holds; it was produced by this step, or it
  is the root. -/
  | detachedOwner (typeName : String) (reachedBy? : Option Step)
  | notIndexable (typeName : String)
  | readOnlyMember (typeName : String) (name : String)
  deriving DecidableEq, Repr

namespace AccessError

def wayToOwner : Option Step → String
  | some step => s!"`{step.text}`"
  | none => "the root"

def message : AccessError → String
  | malformedPath path malformation =>
      s!"malformed path `{path}` at offset {malformation.offset}: {malformation.fault.message}"
  | memberNotFound typeName name => s!"type `{typeName}` has no member named `{name}`"
  | indexOutOfRange attempted length =>
      s!"index {attempted} is out of range for a sequence of length {length}"
  | nullIntermediate reachedBy =>
      s!"`{reachedBy.text}` is null, the rest of the path cannot be resolved"
  | nullRoot => "the root is null"
  | typeMismatch expected found =>
      s!"a `{found}` cannot be stored in a slot of type `{expected.describe}`"
  | detachedOwner typeName reachedBy? =>
      s!"the `{typeName}` reached through {wayToOwner reachedBy?} is a detached copy, writes into it would be lost"
  | notIndexable typeName => s!"a `{typeName}` cannot be indexed"
  | readOnlyMember typeName name => s!"member `{name}` of `{typeName}` is read-only"

end AccessError

/-- The failure of a step that does not suit what it is applied to. -/
def Step.misfit (step : Step) (typeName : String) : AccessError :=
  match step with
  | .member name => .memberNotFound typeName name
  | .element _ => .notIndexable typeName

/-- An access to the graph: it may fail, and it may change the heap whether it fails or not. -/
abbrev Access (Result : Type) :=
  EStateM AccessError Heap Result

def Access.ofExcept {Result : Type} : Except AccessError Result → Access Result
  | .ok result => pure result
  | .error error => throw error

instance : MonadLift (Except AccessError) (EStateM AccessError Heap) :=
  ⟨Access.ofExcept⟩

end ObjectGraph
