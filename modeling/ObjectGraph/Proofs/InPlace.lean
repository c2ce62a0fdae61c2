import ObjectGraph.Proofs.Target

/-!
# Writing in place

A write changes the container in its cell, one check after the other before it stores anything. Here
the container is kept on failure too, so that what a failed write leaves behind can be seen: it
leaves everything as it was. What a write in place leaves after a success is what `Location.write`
puts back into the cell.
-/

namespace ObjectGraph

variable {Rule : Type}

/-- A write that works on a container and on the heap, both of which it may have changed when it
fails. -/
abbrev InPlace (Owner : Type) :=
  EStateM AccessError (Owner × Heap)

/-- Goes down to the struct in a slot. Whatever a write does to the struct, it has done it in the
slot. -/
def InPlace.behind {Owner : Type} (slot : Owner → Value) (setSlot : Owner → Value → Owner)
    (hop : Step) (write : InPlace Composite Unit) :
    InPlace Owner Unit := fun (owner, heap) =>
  match (slot owner).structAt hop with
  | .error error => .error error (owner, heap)
  | .ok inner =>
      match write (inner, heap) with
      | .error error (inner, heap) => .error error (setSlot owner inner.toValue, heap)
      | .ok done (inner, heap) => .ok done (setSlot owner inner.toValue, heap)

namespace Composite

def assign [Accessors Rule] (catalog : Catalog Rule) (step : Step) (value : Value) :
    InPlace Composite Unit := do
  let owner := (← get).1
  match owner.select catalog step with
  | .error error => throw error
  | .ok placed =>
      unless placed.type.accepts catalog value do
        throw (.typeMismatch placed.type value.typeName)
      match placed.member.kind with
      | .field => modify fun (owner, heap) => (owner.setSlot placed.offset value, heap)
      | .property rule =>
          match Accessors.write? rule with
          | some write => modify fun (owner, heap) => write catalog owner value heap
          | none => throw (.readOnlyMember owner.type.name placed.name)

def assignAt [Accessors Rule] (catalog : Catalog Rule) (terminal : Step) (value : Value) :
    List Step → InPlace Composite Unit
  | [] => assign catalog terminal value
  | hop :: hops => do
      match (← get).1.storage catalog hop with
      | .error error => throw error
      | .ok index =>
          (assignAt catalog terminal value hops).behind (·.slot index)
            (fun owner value => owner.setSlot index value) hop

end Composite

namespace Sequence

def assign (catalog : Catalog Rule) (step : Step) (value : Value) : InPlace Sequence Unit := do
  let sequence := (← get).1
  match sequence.select step with
  | .error error => throw error
  | .ok index =>
      unless sequence.element.accepts catalog value do
        throw (.typeMismatch sequence.element value.typeName)
      modify fun (sequence, heap) => (sequence.setSlot index value, heap)

def assignAt [Accessors Rule] (catalog : Catalog Rule) (terminal : Step) (value : Value) :
    List Step → InPlace Sequence Unit
  | [] => assign catalog terminal value
  | hop :: hops => do
      match (← get).1.select hop with
      | .error error => throw error
      | .ok index =>
          (Composite.assignAt catalog terminal value hops).behind (·.slot index)
            (fun sequence value => sequence.setSlot index value) hop

end Sequence

/-- What is left of a container after a write goes into its cell, also when the write failed. -/
def InPlace.inCell {Owner : Type} (write : InPlace Owner Unit) (anchor : Handle)
    (wrap : Owner → Container) (owner : Owner) : Access Unit := fun heap =>
  match write (owner, heap) with
  | .ok done (owner, heap) => .ok done (heap.write anchor (wrap owner))
  | .error error (owner, heap) => .error error (heap.write anchor (wrap owner))

def Location.assign [Accessors Rule] (catalog : Catalog Rule) (location : Location)
    (value : Value) : Access Unit := do
  match (← get).read location.anchor with
  | .composite owner =>
      (Composite.assignAt catalog location.terminal value location.hops).inCell location.anchor
        .composite owner
  | .sequence elements =>
      (Sequence.assignAt catalog location.terminal value location.hops).inCell location.anchor
        .sequence elements

/-! ## What is left behind -/

/-- A write in place leaves the container that `put` computes, and on failure everything as it
was. -/
def Leaves {Owner : Type} (write : InPlace Owner Unit) (put : Owner → Access Owner) : Prop :=
  ∀ owner heap,
    match put owner heap with
    | .ok written after => write (owner, heap) = .ok () (written, after)
    | .error error after => after = heap ∧ write (owner, heap) = .error error (owner, heap)

theorem Leaves.unchanged_of_error
    {Owner : Type} {write : InPlace Owner Unit} {put : Owner → Access Owner}
    (leaves : Leaves write put) {before after : Owner × Heap} {error : AccessError}
    (failed : write before = .error error after) :
    after = before := by
  obtain ⟨owner, heap⟩ := before
  have left := leaves owner heap
  cases computed : put owner heap with
  | ok written reached =>
      rw [computed] at left
      cases left.symm.trans failed
  | error reason reached =>
      rw [computed] at left
      cases left.2.symm.trans failed
      rfl

theorem inPlace_bind_get {Owner Result : Type} (next : Owner × Heap → InPlace Owner Result)
    (state : Owner × Heap) :
    (get >>= next) state = next state state :=
  rfl

theorem Composite.leaves_assign
    [Accessors Rule] (catalog : Catalog Rule) (step : Step) (value : Value) :
    Leaves (assign catalog step value) fun owner => owner.put catalog step value := by
  intro owner heap
  simp only [assign, inPlace_bind_get, put, Access.bind_apply, Access.lift_apply]
  cases owner.select catalog step with
  | error error => exact ⟨rfl, rfl⟩
  | ok placed =>
      simp only
      cases placed.type.accepts catalog value with
      | false => exact ⟨rfl, rfl⟩
      | true =>
          cases placed.member.kind with
          | field => rfl
          | property rule =>
              simp only [if_true]
              cases Accessors.write? rule with
              | none => exact ⟨rfl, rfl⟩
              | some write => rfl

theorem Sequence.leaves_assign (catalog : Catalog Rule) (step : Step) (value : Value) :
    Leaves (assign catalog step value) fun elements => elements.put catalog step value := by
  intro elements heap
  simp only [assign, inPlace_bind_get, put, Access.lift_apply]
  cases elements.select step with
  | error error => exact ⟨rfl, rfl⟩
  | ok index =>
      simp only [bind, Except.bind]
      cases elements.element.accepts catalog value with
      | false => exact ⟨rfl, rfl⟩
      | true => rfl

/-- A struct that is put back unchanged changes nothing. -/
theorem set_of_getD
    {slots : List Value} {index : Nat} {inner : Composite}
    (held : slots.getD index .null = inner.toValue) :
    slots.set index inner.toValue = slots := by
  rw [List.getD_eq_getElem?_getD] at held
  by_cases inside : index < slots.length
  · rw [List.getElem?_eq_getElem inside, Option.getD_some] at held
    rw [← held, List.set_getElem_self]
  · rw [List.getElem?_eq_none (Nat.le_of_not_lt inside), Option.getD_none] at held
    cases held

theorem Composite.setSlot_of_slot
    {owner inner : Composite} {index : Nat} (held : owner.slot index = inner.toValue) :
    owner.setSlot index inner.toValue = owner := by
  rw [setSlot, set_of_getD held]

theorem Sequence.setSlot_of_slot
    {elements : Sequence} {inner : Composite} {index : Nat}
    (held : elements.slot index = inner.toValue) :
    elements.setSlot index inner.toValue = elements := by
  rw [setSlot, set_of_getD held]

theorem InPlace.leaves_behind
    {Owner : Type} {write : InPlace Composite Unit} {put : Composite → Access Composite}
    (leaves : Leaves write put) (slot : Owner → Value) (setSlot : Owner → Value → Owner)
    (putBack : ∀ owner inner, slot owner = Composite.toValue inner →
      setSlot owner inner.toValue = owner) (hop : Step) :
    Leaves (write.behind slot setSlot hop) fun owner => do
      let inner ← (slot owner).structAt hop
      let inner ← put inner
      return setSlot owner inner.toValue := by
  intro owner heap
  simp only [behind, Access.bind_apply, Access.lift_apply]
  cases found : (slot owner).structAt hop with
  | error error => exact ⟨rfl, rfl⟩
  | ok inner =>
      have left := leaves inner heap
      simp only
      cases written : put inner heap with
      | ok updated after =>
          rw [written] at left
          simp only [left, Access.pure_apply]
      | error error after =>
          rw [written] at left
          obtain ⟨sameHeap, failed⟩ := left
          simp only [failed]
          exact ⟨sameHeap, by rw [putBack owner inner (Value.structAt_eq_ok_iff.mp found)]⟩

section At

variable [Accessors Rule] (catalog : Catalog Rule) (terminal : Step) (value : Value)

theorem Composite.leaves_assignAt (hops : List Step) :
    Leaves (assignAt catalog terminal value hops) fun owner =>
      owner.putAt catalog terminal value hops := by
  induction hops with
  | nil => exact leaves_assign catalog terminal value
  | cons hop hops inductionHypothesis =>
      intro owner heap
      simp only [assignAt, inPlace_bind_get, putAt, Access.bind_apply, Access.lift_apply]
      cases owner.storage catalog hop with
      | error error => exact ⟨rfl, rfl⟩
      | ok index =>
          have left := InPlace.leaves_behind inductionHypothesis (slot · index) (setSlot · index)
            (fun _ _ => setSlot_of_slot) hop owner heap
          simpa only [Access.bind_apply, Access.lift_apply] using left

theorem Sequence.leaves_assignAt (hops : List Step) :
    Leaves (assignAt catalog terminal value hops) fun elements =>
      elements.putAt catalog terminal value hops := by
  cases hops with
  | nil => exact leaves_assign catalog terminal value
  | cons hop hops =>
      intro elements heap
      simp only [assignAt, inPlace_bind_get, putAt, Access.bind_apply, Access.lift_apply]
      cases elements.select hop with
      | error error => exact ⟨rfl, rfl⟩
      | ok index =>
          have left := InPlace.leaves_behind
            (Composite.leaves_assignAt catalog terminal value hops) (slot · index)
            (setSlot · index) (fun _ _ => setSlot_of_slot) hop elements heap
          simpa only [Access.bind_apply, Access.lift_apply] using left

/-- A failure leaves the container and the heap as they were. -/
theorem Composite.unchanged_of_assignAt_error
    {hops : List Step} {before after : Composite × Heap} {error : AccessError}
    (failed : assignAt catalog terminal value hops before = .error error after) :
    after = before :=
  (leaves_assignAt catalog terminal value hops).unchanged_of_error failed

/-- A failure leaves the container and the heap as they were. -/
theorem Sequence.unchanged_of_assignAt_error
    {hops : List Step} {before after : Sequence × Heap} {error : AccessError}
    (failed : assignAt catalog terminal value hops before = .error error after) :
    after = before :=
  (leaves_assignAt catalog terminal value hops).unchanged_of_error failed

theorem Heap.write_read (heap : Heap) (handle : Handle) :
    heap.write handle (heap.read handle) = heap := by
  rcases heap with ⟨cells⟩
  by_cases live : handle.cell < cells.size
  · have same : cells.setIfInBounds handle.cell cells[handle.cell] = cells := by
      rw [Array.setIfInBounds, dif_pos live, Array.set_getElem_self]
    simpa [write, read, live] using same
  · simp [write, Array.setIfInBounds, live]

/-- A container that is changed in place and one that is computed and put back go into the cell
alike. -/
theorem InPlace.inCell_eq
    {Owner : Type} {write : InPlace Owner Unit} {put : Owner → Access Owner}
    (leaves : Leaves write put) {wrap : Owner → Container} {anchor : Handle} {owner : Owner}
    {heap : Heap} (held : heap.read anchor = wrap owner) :
    write.inCell anchor wrap owner heap =
      (do
        let updated ← wrap <$> put owner
        modify fun heap => heap.write anchor updated : Access Unit) heap := by
  have left := leaves owner heap
  simp only [inCell, Access.bind_apply, Access.map_apply, Access.modify_apply]
  cases written : put owner heap with
  | ok updated after =>
      rw [written] at left
      simp only [left]
  | error error after =>
      rw [written] at left
      obtain ⟨sameHeap, failed⟩ := left
      simp only [failed, sameHeap]
      rw [← held, Heap.write_read]

/-- A write in place does what the write of a computed container does, and a write that fails leaves
the container in its cell as it was. -/
theorem Location.assign_eq_write (location : Location) :
    location.assign catalog value = location.write catalog value := by
  funext heap
  simp only [assign, write, Access.bind_apply, Access.get_apply]
  cases held : heap.read location.anchor with
  | composite owner =>
      have inPlace := InPlace.inCell_eq
        (Composite.leaves_assignAt catalog location.terminal value location.hops) held
      simpa only [Container.putAt, Access.bind_apply] using inPlace
  | sequence elements =>
      have inPlace := InPlace.inCell_eq
        (Sequence.leaves_assignAt catalog location.terminal value location.hops) held
      simpa only [Container.putAt, Access.bind_apply] using inPlace

end At

end ObjectGraph
