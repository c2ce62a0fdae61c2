import ObjectGraph.Access.Container

/-!
# Locations

A location is a slot that can be written in place. Its owner is kept as the nearest shared object or
list and the structs that lead from there to the owner, so that a write lands in live storage and
not in a copy. A struct that a computed member produced, and a struct that is the root itself, is
held by nothing: a slot whose owner is such a copy has no location.
-/

namespace ObjectGraph

variable {Rule : Type}

/-- A writable slot. It stays meaningful when the graph changes: it always goes through the same
cell, and it looks at the structs on the way afresh. -/
structure Location where
  anchor : Handle
  hops : List Step
  terminal : Step
  deriving DecidableEq, Repr

/-- Where a walk stands: in the storage of the anchor, behind the structs that some steps lead
through, or in a copy, produced by a step or passed as the root. -/
inductive Footing where
  | held (anchor : Handle) (hops : List Step)
  | detached (typeName : String) (producedBy? : Option Step)
  deriving DecidableEq, Repr

namespace Footing

def ofRoot : Value → Footing
  | .shared handle => .held handle []
  | value => .detached value.typeName none

/-- The footing after a step. A shared value is a new anchor, and a computed struct is a new copy;
everything else stays with what holds its container. -/
def advance (footing : Footing) (step : Step) (reading : Reading) : Footing :=
  match reading.value, reading.origin with
  | .shared handle, _ => .held handle []
  | .struct type _, .computed => .detached type.name (some step)
  | _, _ =>
      match footing with
      | held anchor hops => .held anchor (hops ++ [step])
      | detached typeName producedBy? => .detached typeName producedBy?

def locate (footing : Footing) (terminal : Step) : Except AccessError Location :=
  match footing with
  | held anchor hops => .ok ⟨anchor, hops, terminal⟩
  | detached typeName producedBy? => .error (.detachedOwner typeName producedBy?)

end Footing

structure Walk where
  value : Value
  reachedBy? : Option Step
  footing : Footing

namespace Walk

def ofRoot (root : Value) : Walk :=
  ⟨root, none, .ofRoot root⟩

def advance [Accessors Rule] (catalog : Catalog Rule) (walk : Walk) (step : Step) :
    Access Walk := do
  let reading ← walk.value.fetch catalog walk.reachedBy? step
  return ⟨reading.value, some step, walk.footing.advance step reading⟩

def advanceAll [Accessors Rule] (catalog : Catalog Rule) : List Step → Walk → Access Walk
  | [], walk => return walk
  | step :: steps, walk => do
      let walk ← walk.advance catalog step
      walk.advanceAll catalog steps

/-- Ends the walk at the owner: the terminal step has to select a slot there, which is not read, and
the owner has to be live. -/
def finish (catalog : Catalog Rule) (walk : Walk) (terminal : Step) : Access Location := do
  let owner ← (← get).openValue walk.value terminal walk.reachedBy?
  owner.probe catalog terminal
  walk.footing.locate terminal

end Walk

def Value.locate [Accessors Rule] (catalog : Catalog Rule) (root : Value) (path : Path) :
    Access Location := do
  let walk ← (Walk.ofRoot root).advanceAll catalog path.init
  walk.finish catalog path.last

def Value.structAt (value : Value) (step : Step) : Except AccessError Composite :=
  match value with
  | .struct type fields => .ok ⟨type, fields⟩
  | .null => .error (.nullIntermediate step)
  | _ => .error (.detachedOwner value.typeName (some step))

/-- Puts a value into the slot behind some structs of a composite. -/
def Composite.putAt [Accessors Rule] (catalog : Catalog Rule) (terminal : Step) (value : Value) :
    List Step → Composite → Access Composite
  | [], owner => owner.put catalog terminal value
  | hop :: hops, owner => do
      let index ← owner.storage catalog hop
      let inner ← (owner.slot index).structAt hop
      let inner ← inner.putAt catalog terminal value hops
      return owner.setSlot index inner.toValue

def Sequence.putAt [Accessors Rule] (catalog : Catalog Rule) (terminal : Step) (value : Value) :
    List Step → Sequence → Access Sequence
  | [], sequence => sequence.put catalog terminal value
  | hop :: hops, sequence => do
      let index ← sequence.select hop
      let inner ← (sequence.slot index).structAt hop
      let inner ← inner.putAt catalog terminal value hops
      return sequence.setSlot index inner.toValue

def Container.putAt [Accessors Rule] (catalog : Catalog Rule) (terminal : Step) (value : Value)
    (hops : List Step) : Container → Access Container
  | .composite owner => .composite <$> owner.putAt catalog terminal value hops
  | .sequence elements => .sequence <$> elements.putAt catalog terminal value hops

/-- Writes a value into a location. On failure nothing is written. -/
def Location.write [Accessors Rule] (catalog : Catalog Rule) (location : Location)
    (value : Value) : Access Unit := do
  let container := (← get).read location.anchor
  let updated ← container.putAt catalog location.terminal value location.hops
  modify fun heap => heap.write location.anchor updated

end ObjectGraph
