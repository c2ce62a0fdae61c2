import ObjectGraph.Examples.Ring
import ObjectGraph.Proofs.ReadAfterWrite
import ObjectGraph.Proofs.Session
import ObjectGraph.Proofs.WriteFrame

/-!
# Writing back what was read

A value that was read along stored slots can be written back to where it came from, and nothing
changes by that. Three things come together:

* a read along a trail gives what is held at the place at which the trail ends;
* a write at the end of the same trail replaces what is held at this place;
* where all slots hold values of their declared types, the slot accepts what it holds already.

The graph may have cycles, and the way may pass through the written slot before its end.
-/

namespace ObjectGraph

variable {Rule : Type}

/-! ## Slots that hold what they declare -/

/-- The slots of a container hold values of their declared types. A composite declares one type for
each stored member, hidden ones included, and a sequence one type for all of its elements. -/
def Container.HoldsDeclared (catalog : Catalog Rule) : Container → Prop
  | composite owner =>
      ∀ placed ∈ (catalog.layout owner.type).members, ∀ index slot,
        placed.stored? = some index → owner.fields[index]? = some slot →
          placed.type.accepts catalog slot = true
  | sequence elements =>
      ∀ item ∈ elements.items, elements.element.accepts catalog item = true

/-- The slots of all objects and lists hold values of their declared types, and so do those of all
structs in them. -/
def Heap.HoldsDeclared (catalog : Catalog Rule) (heap : Heap) : Prop :=
  ∀ place container, heap.containerAt? place = some container → container.HoldsDeclared catalog

section Declared

variable {catalog : Catalog Rule} {heap : Heap}

theorem Container.WellTyped.holdsDeclared
    {container : Container} (typed : container.WellTyped catalog heap) :
    container.HoldsDeclared catalog := by
  cases container with
  | sequence elements => exact fun item inside => (typed item inside).1
  | composite owner =>
      intro placed declared index slot stored present
      have fits := Composite.fitsLayout_layout (Composite.wellTyped_toValue_iff.mp typed).1
      have accepted := fits.accepted placed declared index stored
      rwa [Composite.slot, List.getD_eq_getElem?_getD, present] at accepted

/-- Well-typed graphs are among those that hold what they declare. -/
theorem Heap.WellTyped.holdsDeclared (typed : heap.WellTyped catalog) :
    heap.HoldsDeclared catalog :=
  fun _ _ found => (typed.containerAt? found).holdsDeclared

/-- What a step selects in a container accepts the value that is there already. -/
theorem Container.HoldsDeclared.accepts
    {container : Container} {terminal : Step} {passed indices : List Nat} {type : SlotType}
    (declared : container.HoldsDeclared catalog)
    (aimed : container.aim catalog terminal passed = .ok (.slot indices type)) :
    ∃ index, indices = passed ++ [index] ∧
      ∀ slot, container.slots[index]? = some slot → type.accepts catalog slot = true := by
  obtain ⟨index, stored, rfl⟩ := storage_of_aim_slot aimed
  refine ⟨index, rfl, fun slot present => ?_⟩
  cases container with
  | sequence elements =>
      have selected : elements.select terminal = .ok index := stored
      simp only [aim, selected, Except.ok.injEq, Target.slot.injEq] at aimed
      rw [← aimed.2]
      exact declared slot (List.mem_of_getElem? present)
  | composite owner =>
      obtain ⟨placed, selected, kind, rfl⟩ := Composite.storage_eq_ok_iff.mp stored
      simp only [aim, selected, kind, Except.ok.injEq, Target.slot.injEq] at aimed
      rw [← aimed.2]
      have keeps := PlacedMember.stored?_eq_some_iff.mpr ⟨kind, rfl⟩
      exact declared placed (Composite.mem_of_select selected) placed.offset slot keeps present

theorem Heap.HoldsDeclared.accepts
    {location : Location} {indices : List Nat} {type : SlotType} {slot : Value}
    (declared : heap.HoldsDeclared catalog)
    (aimed : location.target catalog heap = .ok (.slot indices type))
    (present : heap.value? ⟨location.anchor.cell, indices⟩ = some slot) :
    type.accepts catalog slot = true := by
  obtain ⟨passed, owner, descended, aims⟩ := Container.target_eq_ok_iff.mp aimed
  have live : location.anchor.cell < heap.cells.size := lt_size_of_value? present
  have holds := containerAt?_of_descend live descended
  obtain ⟨index, rfl, accepted⟩ := (declared _ _ holds).accepts aims
  have slotAt := value?_of_containerAt? holds index
  exact accepted slot (slotAt.symm.trans present)

end Declared

/-! ## Replacing a value by itself -/

private theorem modify_of_getElem?
    {values : List Value} {index : Nat} {value : Value} (change : Value → Value)
    (present : values[index]? = some value) (same : change value = value) :
    values.modify index change = values := by
  apply List.ext_getElem?
  intro position
  rw [List.getElem?_modify]
  by_cases here : index = position
  · subst here
    simp [present, same]
  · simp [here]

theorem Value.replace_self
    {value part : Value} {indices : List Nat} (found : value.part? indices = some part) :
    value.replace indices part = value := by
  induction indices generalizing value with
  | nil =>
      rw [part?_nil] at found
      rw [replace_nil]
      exact (Option.some.inj found).symm
  | cons index indices inductionHypothesis =>
      rw [part?_cons] at found
      obtain ⟨field, present, inside⟩ := Option.bind_eq_some_iff.mp found
      have unchanged : field.replace indices part = field := inductionHypothesis inside
      cases value with
      | struct type fields =>
          have same := modify_of_getElem? (·.replace indices part) present unchanged
          rw [replace]
          exact congrArg (struct type) same
      | _ => simp [fields] at present

theorem Container.replace_self
    {container : Container} {part : Value} {indices : List Nat}
    (found : container.part? indices = some part) :
    container.replace indices part = container := by
  cases indices with
  | nil => cases found
  | cons index indices =>
      obtain ⟨slot, present, inside⟩ := Option.bind_eq_some_iff.mp found
      have unchanged : slot.replace indices part = slot := Value.replace_self inside
      have same := modify_of_getElem? (·.replace indices part) present unchanged
      cases container with
      | composite owner =>
          rw [replace, Composite.replace]
          exact congrArg (fun fields => composite { owner with fields := fields }) same
      | sequence elements =>
          rw [replace, Sequence.replace]
          exact congrArg (fun items => sequence { elements with items := items }) same

/-- Replacing the value at a place by itself changes nothing. -/
theorem Heap.replace_self
    {heap : Heap} {place : Place} {value : Value} (held : heap.value? place = some value) :
    heap.replace place value = heap := by
  obtain ⟨container, present, inside⟩ := Option.bind_eq_some_iff.mp held
  have sameCells : (heap.replace place value).cells = heap.cells := by
    apply Array.ext_getElem?
    intro cell
    rw [getElem?_cells_replace]
    by_cases here : place.cell = cell
    · subst here
      rw [if_pos rfl, present, Option.map_some, container.replace_self inside]
    · rw [if_neg here]
  cases heap
  exact congrArg Heap.mk sameCells

/-! ## Reading along a trail -/

/-- The slots of what a value stands for are where the value says they are. -/
theorem Value.value?_of_slotPlace?
    {heap : Heap} {value slot : Value} {held? : Option Place} {container : Container}
    {index : Nat} {place : Place}
    (held : ∀ home, held? = some home → heap.value? home = some value)
    (opened : heap.container? value = some container)
    (present : container.slots[index]? = some slot)
    (somewhere : value.slotPlace? held? index = some place) :
    heap.value? place = some slot := by
  obtain ⟨home, housed, rfl⟩ := Option.map_eq_some_iff.mp somewhere
  rw [heap.value?_push, heap.containerAt?_home held housed opened present]
  exact present

/-- A read along a trail changes nothing and gives what is held at the end of the trail. -/
theorem Trail.follow
    [Accessors Rule] {catalog : Catalog Rule} {heap : Heap} {held? target? : Option Place}
    {root : Value} {steps : List Step} {earlier : List (Option Place)}
    (trail : Trail catalog heap held? root steps earlier target?)
    (held : ∀ home, held? = some home → heap.value? home = some root)
    (reachedBy? : Option Step) :
    ∃ value, root.follow catalog steps reachedBy? heap = .ok value heap ∧
      ∀ place, target? = some place → heap.value? place = some value := by
  induction trail generalizing reachedBy? with
  | @last held? value slot container step index opened stored present =>
      have fetched := Value.fetch_of_storage opened stored present reachedBy?
      refine ⟨slot, ?_, fun place ends => Value.value?_of_slotPlace? held opened present ends⟩
      rw [Value.follow, Access.bind_apply, fetched]
      rfl
  | @cons held? _ value slot container step steps earlier index opened stored present rest
      inductionHypothesis =>
      have fetched := Value.fetch_of_storage opened stored present reachedBy?
      have heldInside : ∀ place, value.slotPlace? held? index = some place →
          heap.value? place = some slot :=
        fun place => Value.value?_of_slotPlace? held opened present
      obtain ⟨final, followed, ends⟩ := inductionHypothesis heldInside (some step)
      refine ⟨final, ?_, ends⟩
      rw [Value.follow, Access.bind_apply, fetched]
      exact followed

/-! ## Write after read -/

/-- Where all slots hold values of their declared types, a value that was read along stored slots
can be written back by the same path text, if the slot has a location. Nothing changes by that. -/
theorem Value.set_of_get
    [Accessors Rule] {catalog : Catalog Rule} {heap after reached : Heap} {root value : Value}
    {text : String} {path : Path} {location : Location} {earlier : List (Option Place)}
    {target? : Option Place}
    (declared : heap.HoldsDeclared catalog)
    (parsed : Path.parse text = .ok path)
    (trail : Trail catalog heap none root path.steps earlier target?)
    (got : root.get catalog text heap = .ok value after)
    (located : root.locate catalog path heap = .ok location reached) :
    after = heap ∧ root.set catalog text value heap = .ok ⟨root, path⟩ heap := by
  have read : root.follow catalog path.steps none heap = .ok value after := by
    rw [get_of_parse parsed] at got
    exact got
  obtain ⟨slot, followed, held⟩ := trail.follow (by simp) none
  rw [read, EStateM.Result.ok.injEq] at followed
  obtain ⟨rfl, rfl⟩ := followed
  obtain ⟨indices, type, rfl, aimed, ends⟩ := trail.target_of_locate located
  have present := held _ ends
  have written : location.write catalog value reached = .ok () reached := by
    simp only [Location.write_apply, aimed, if_pos (declared.accepts aimed present),
      Heap.replace_self present]
  exact ⟨rfl, set_eq_ok_iff.mpr ⟨path, location, reached, parsed, located, written, rfl⟩⟩

/-- The way to the successor of the successor passes through the very slot that it ends at. The node
there is the ring's only one, and it is put back into its own slot. -/
theorem Value.set_of_get_ring :
    Ring.root.get Ring.catalog "next.next" (Ring.heapWith 7 7) =
        .ok Ring.root (Ring.heapWith 7 7) ∧
      Ring.root.set Ring.catalog "next.next" Ring.root (Ring.heapWith 7 7) =
        .ok ⟨Ring.root, ⟨[.member "next", .member "next"], by simp⟩⟩ (Ring.heapWith 7 7) := by
  have declared : (Ring.heapWith 7 7).HoldsDeclared Ring.catalog :=
    Ring.reachable_filled.wellTyped.heap.holdsDeclared
  have parsed :
      Path.parse "next.next" = .ok ⟨[.member "next", .member "next"], by simp⟩ := by
    decide +kernel
  have trail :
      Trail Ring.catalog (Ring.heapWith 7 7) none Ring.root [.member "next", .member "next"]
        [some ⟨0, [1]⟩] (some ⟨0, [1]⟩) :=
    .cons rfl rfl rfl (.last rfl rfl rfl)
  have got :
      Ring.root.get Ring.catalog "next.next" (Ring.heapWith 7 7) =
        .ok Ring.root (Ring.heapWith 7 7) := by
    rw [get_of_parse parsed]
    rfl
  have located :
      Ring.root.locate Ring.catalog ⟨[.member "next", .member "next"], by simp⟩
          (Ring.heapWith 7 7) =
        .ok ⟨Ring.handle, [], .member "next"⟩ (Ring.heapWith 7 7) := by
    rfl
  exact ⟨got, (set_of_get declared parsed trail got located).2⟩

end ObjectGraph
