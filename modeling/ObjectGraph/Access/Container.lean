import ObjectGraph.Access.Error
import ObjectGraph.Accessors

/-!
# One step on one container

A member step applies to a composite and an element step to a sequence. For each of the two there
are four operations: a step is probed without reading, it fetches a value, it finds the place of a
slot in live storage, and it puts a value in.
-/

namespace ObjectGraph

variable {Rule : Type}

/-- Where a value that was read comes from: a slot of the container, or a computed member, so that
no storage holds it. -/
inductive Origin where
  | stored
  | computed
  deriving DecidableEq, Repr, Inhabited

structure Reading where
  value : Value
  origin : Origin
  deriving Inhabited

namespace Composite

def select (catalog : Catalog Rule) (owner : Composite) (step : Step) :
    Except AccessError (PlacedMember Rule) :=
  match step with
  | .member name =>
      match (catalog.layout owner.type).member? name with
      | some placed => .ok placed
      | none => .error (.memberNotFound owner.type.name name)
  | .element _ => .error (step.misfit owner.type.name)

def probe (catalog : Catalog Rule) (owner : Composite) (step : Step) : Except AccessError Unit :=
  (owner.select catalog step).map fun _ => ()

def fetch [Accessors Rule] (catalog : Catalog Rule) (owner : Composite) (step : Step) :
    Access Reading := do
  let placed ← owner.select catalog step
  match placed.member.kind with
  | .field => return ⟨owner.slot placed.offset, .stored⟩
  | .property rule =>
      let value ← modifyGet (Accessors.read rule catalog owner)
      return ⟨value, .computed⟩

/-- The place of the stored field that a step selects. A computed member has no storage. -/
def storage (catalog : Catalog Rule) (owner : Composite) (step : Step) :
    Except AccessError Nat := do
  let placed ← owner.select catalog step
  match placed.member.kind with
  | .field => return placed.offset
  | .property _ => throw (.detachedOwner placed.type.describe (some step))

/-- Writes the member that a step selects: the member has to exist, to accept the value and to be
writable. -/
def put [Accessors Rule] (catalog : Catalog Rule) (owner : Composite) (step : Step)
    (value : Value) : Access Composite := do
  let placed ← owner.select catalog step
  if placed.type.accepts catalog value then
    match placed.member.kind with
    | .field => return owner.setSlot placed.offset value
    | .property rule =>
        match Accessors.write? rule with
        | some write => modifyGet (write catalog owner value)
        | none => throw (.readOnlyMember owner.type.name placed.name)
  else
    throw (.typeMismatch placed.type value.typeName)

end Composite

namespace Sequence

/-- The position that a step selects. Sequences never grow through a path: the position behind the
last element is out of range. -/
def select (sequence : Sequence) (step : Step) : Except AccessError Nat :=
  match step with
  | .element index =>
      if index < sequence.items.length then
        .ok index
      else
        .error (.indexOutOfRange index sequence.items.length)
  | .member _ => .error (step.misfit sequence.typeName)

def probe (sequence : Sequence) (step : Step) : Except AccessError Unit :=
  (sequence.select step).map fun _ => ()

def fetch (sequence : Sequence) (step : Step) : Except AccessError Value :=
  (sequence.select step).map sequence.slot

/-- Replaces the element that a step selects: the position has to exist before the type of the value
is looked at. -/
def put (catalog : Catalog Rule) (sequence : Sequence) (step : Step) (value : Value) :
    Except AccessError Sequence := do
  let index ← sequence.select step
  if sequence.element.accepts catalog value then
    return sequence.setSlot index value
  else
    throw (.typeMismatch sequence.element value.typeName)

end Sequence

namespace Container

def probe (catalog : Catalog Rule) (container : Container) (step : Step) :
    Except AccessError Unit :=
  match container with
  | .composite owner => owner.probe catalog step
  | .sequence elements => elements.probe step

def fetch [Accessors Rule] (catalog : Catalog Rule) (container : Container) (step : Step) :
    Access Reading := do
  match container with
  | .composite owner => owner.fetch catalog step
  | .sequence elements => return ⟨← elements.fetch step, .stored⟩

end Container

/-- Opens a value as the container to which the next step is applied; `reachedBy?` is the step that
produced the value, and nothing for the root. -/
def Heap.openValue (heap : Heap) (value : Value) (next : Step) (reachedBy? : Option Step) :
    Except AccessError Container :=
  match value with
  | .struct type fields => .ok (.composite ⟨type, fields⟩)
  | .shared handle => .ok (heap.read handle)
  | .null =>
      match reachedBy? with
      | some step => .error (.nullIntermediate step)
      | none => .error .nullRoot
  | .bool _ | .int _ | .float _ | .text _ => .error (next.misfit value.typeName)

def Value.fetch [Accessors Rule] (catalog : Catalog Rule) (value : Value)
    (reachedBy? : Option Step) (step : Step) : Access Reading := do
  let container ← (← get).openValue value step reachedBy?
  container.fetch catalog step

end ObjectGraph
