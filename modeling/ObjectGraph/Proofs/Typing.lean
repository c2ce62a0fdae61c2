import Mathlib.Data.List.Pairwise
import ObjectGraph.Proofs.Place
import ObjectGraph.Proofs.Target
import ObjectGraph.Registration

/-!
# Well-typed graphs

A composite fits the layout of its type when its field buffer has one entry for each stored member
and every entry is a value that the member accepts, whether a name reaches the member or not. A
value is well typed when all structs in it fit their layouts, at any depth, and all handles in it
agree with the cells that they point at. A heap is well typed when its cells hold well-typed values
that their slots accept.

All this is relative to a catalog and a heap, and it lasts: types are registered once and for all,
and a cell never changes its type.
-/

namespace ObjectGraph

variable {Rule : Type}

/-! ## Agreement of handles and cells -/

def Container.handle (container : Container) (cell : Nat) : Handle :=
  match container with
  | .composite owner => .object owner.type cell
  | .sequence elements => .list elements.element cell

namespace Heap

/-- A handle points at a cell of its own type. -/
def Backs (heap : Heap) (handle : Handle) : Prop :=
  ∃ container, heap.cells[handle.cell]? = some container ∧ container.handle handle.cell = handle

/-- Every handle that agrees with its cell goes on to do so. -/
def Grows (before after : Heap) : Prop :=
  ∀ handle, before.Backs handle → after.Backs handle

end Heap

/-! ## Typing -/

/-- A composite has the shape that the layout of its type prescribes, and the slots of all stored
members hold values that they accept. -/
structure Composite.FitsLayout (catalog : Catalog Rule) (composite : Composite)
    (layout : Layout Rule) : Prop where
  registered : catalog.layout? composite.type = some layout
  length_eq : composite.fields.length = layout.fieldCount
  inside : ∀ placed ∈ layout.members, ∀ index,
    placed.stored? = some index → index < layout.fieldCount
  accepted : ∀ placed ∈ layout.members, ∀ index,
    placed.stored? = some index → placed.type.accepts catalog (composite.slot index) = true

/-- The type of a composite is registered, and the composite fits its layout. -/
def Composite.Fits (catalog : Catalog Rule) (composite : Composite) : Prop :=
  ∃ layout, composite.FitsLayout catalog layout

/-- A value in which all structs fit their layouts and all handles agree with their cells. -/
inductive Value.WellTyped (catalog : Catalog Rule) (heap : Heap) : Value → Prop where
  | null : WellTyped catalog heap .null
  | bool (value : Bool) : WellTyped catalog heap (.bool value)
  | int (value : Int64) : WellTyped catalog heap (.int value)
  | float (value : Float) : WellTyped catalog heap (.float value)
  | text (value : String) : WellTyped catalog heap (.text value)
  | struct {type : TypeId} {fields : List Value} (fits : Composite.Fits catalog ⟨type, fields⟩)
      (typed : ∀ field ∈ fields, WellTyped catalog heap field) :
      WellTyped catalog heap (.struct type fields)
  | shared {handle : Handle} (backed : heap.Backs handle) :
      WellTyped catalog heap (.shared handle)

/-- The content of a cell is well typed. -/
def Container.WellTyped (catalog : Catalog Rule) (heap : Heap) : Container → Prop
  | composite owner => owner.toValue.WellTyped catalog heap
  | sequence elements => ∀ item ∈ elements.items,
      elements.element.accepts catalog item = true ∧ item.WellTyped catalog heap

def Heap.WellTyped (catalog : Catalog Rule) (heap : Heap) : Prop :=
  ∀ (cell : Nat) (container : Container),
    heap.cells[cell]? = some container → container.WellTyped catalog heap

/-- A layout whose stored members share no slot and whose initial contents are well typed. They hold
nothing shared, so that no heap is needed to say so. -/
structure Layout.Sound (catalog : Catalog Rule) (layout : Layout Rule) : Prop where
  inside : ∀ placed ∈ layout.members, ∀ index,
    placed.stored? = some index → index < layout.fieldCount
  apart : layout.members.Pairwise fun first second => ∀ index,
    first.stored? = some index → second.stored? ≠ some index
  accepted : ∀ placed ∈ layout.members, ∀ index, placed.stored? = some index →
    placed.type.accepts catalog (layout.defaults.getD index .null) = true
  typed : ∀ value ∈ layout.defaults, value.WellTyped catalog Heap.empty

/-- Every layout is registered under its own name. -/
def Catalog.Named (catalog : Catalog Rule) : Prop :=
  ∀ type layout, catalog.layout? type = some layout → layout.name = type.name

/-- Every layout is sound and registered under its own name. -/
structure Catalog.WellFormed (catalog : Catalog Rule) : Prop where
  named : catalog.Named
  sound : ∀ type layout, catalog.layout? type = some layout → layout.Sound catalog

/-- Every registered type is still registered, with the same layout. -/
def Catalog.Includes (later earlier : Catalog Rule) : Prop :=
  ∀ type layout, earlier.layout? type = some layout → later.layout? type = some layout

/-- A change of the heap that keeps it well typed and keeps what is known about its handles. -/
structure Heap.Evolves (catalog : Catalog Rule) (before after : Heap) : Prop where
  typed : after.WellTyped catalog
  grows : before.Grows after

/-! ## Types last -/

theorem SlotType.accepts_of_includes
    {later earlier : Catalog Rule} (includes : later.Includes earlier)
    (named : later.Named) {slot : SlotType} {value : Value}
    (accepted : slot.accepts earlier value = true) :
    slot.accepts later value = true := by
  cases slot with
  | object name =>
      cases value with
      | shared handle =>
          cases handle with
          | list element cell => simp [accepts] at accepted
          | object type cell =>
              simp only [accepts, Catalog.layout] at accepted ⊢
              cases known : earlier.layout? type with
              | some layout =>
                  rw [known] at accepted
                  rwa [includes type layout known]
              | none =>
                  obtain rfl : name = type.name := by
                    simpa [known, Layout.isA, Layout.lineage, Layout.bare] using accepted
                  cases registered : later.layout? type with
                  | none => simp [Layout.isA, Layout.lineage, Layout.bare]
                  | some layout =>
                      simp [Layout.isA, Layout.lineage, named type layout registered]
      | _ => exact accepted
  | _ =>
      cases value with
      | shared handle => cases handle <;> exact accepted
      | _ => exact accepted

/-- Whether a slot accepts a struct depends on its type only. -/
theorem SlotType.accepts_toValue_congr
    (catalog : Catalog Rule) (slot : SlotType) {first second : Composite}
    (sameType : first.type = second.type) :
    slot.accepts catalog first.toValue = slot.accepts catalog second.toValue := by
  cases slot <;> simp [accepts, Composite.toValue, sameType]

section Lasting

variable {later earlier : Catalog Rule} {before after : Heap}

theorem Composite.Fits.of_includes
    {composite : Composite} (fits : composite.Fits earlier)
    (includes : later.Includes earlier) (named : later.Named) :
    composite.Fits later := by
  obtain ⟨layout, registered, length_eq, inside, accepted⟩ := fits
  refine ⟨layout, includes _ _ registered, length_eq, inside, fun placed present index stored => ?_⟩
  exact SlotType.accepts_of_includes includes named (accepted placed present index stored)

theorem Value.WellTyped.of_includes
    {value : Value} (typed : value.WellTyped earlier before)
    (includes : later.Includes earlier) (named : later.Named) :
    value.WellTyped later before := by
  induction typed with
  | struct fits _ inductionHypothesis =>
      exact .struct (fits.of_includes includes named) inductionHypothesis
  | shared backed => exact .shared backed
  | _ => constructor

theorem Value.WellTyped.of_grows
    {value : Value} (typed : value.WellTyped earlier before) (grows : before.Grows after) :
    value.WellTyped earlier after := by
  induction typed with
  | struct fits _ inductionHypothesis => exact .struct fits inductionHypothesis
  | shared backed => exact .shared (grows _ backed)
  | _ => constructor

theorem Container.WellTyped.of_includes
    {container : Container} (typed : container.WellTyped earlier before)
    (includes : later.Includes earlier) (named : later.Named) :
    container.WellTyped later before := by
  cases container with
  | composite owner => exact Value.WellTyped.of_includes typed includes named
  | sequence elements =>
      intro item present
      obtain ⟨accepted, itemTyped⟩ := typed item present
      exact ⟨SlotType.accepts_of_includes includes named accepted,
        itemTyped.of_includes includes named⟩

theorem Container.WellTyped.of_grows
    {container : Container} (typed : container.WellTyped earlier before)
    (grows : before.Grows after) :
    container.WellTyped earlier after := by
  cases container with
  | composite owner => exact Value.WellTyped.of_grows typed grows
  | sequence elements =>
      intro item present
      obtain ⟨accepted, itemTyped⟩ := typed item present
      exact ⟨accepted, itemTyped.of_grows grows⟩

theorem Heap.WellTyped.of_includes
    (typed : before.WellTyped earlier) (includes : later.Includes earlier)
    (named : later.Named) :
    before.WellTyped later :=
  fun cell container present => (typed cell container present).of_includes includes named

theorem Layout.Sound.of_includes
    {layout : Layout Rule} (sound : layout.Sound earlier)
    (includes : later.Includes earlier) (named : later.Named) :
    layout.Sound later where
  inside := sound.inside
  apart := sound.apart
  accepted placed present index stored :=
    SlotType.accepts_of_includes includes named (sound.accepted placed present index stored)
  typed value present := (sound.typed value present).of_includes includes named

end Lasting

/-! ## Changes of the heap -/

@[simp]
theorem Container.cell_handle (container : Container) (cell : Nat) :
    (container.handle cell).cell = cell := by
  cases container <;> rfl

namespace Heap

variable {catalog : Catalog Rule} {heap before middle after : Heap}

theorem read_of_backs {handle : Handle} (backed : heap.Backs handle) :
    heap.cells[handle.cell]? = some (heap.read handle) ∧
      (heap.read handle).handle handle.cell = handle := by
  obtain ⟨container, present, agrees⟩ := backed
  have found : heap.read handle = container := by
    simp only [read, present]
  rw [found]
  exact ⟨present, agrees⟩

theorem handle_eq_of_backs
    {first second : Handle} (firstBacked : heap.Backs first) (secondBacked : heap.Backs second)
    (sameCell : first.cell = second.cell) :
    first = second := by
  obtain ⟨container, present, firstAgrees⟩ := firstBacked
  obtain ⟨other, otherPresent, secondAgrees⟩ := secondBacked
  rw [← sameCell, present] at otherPresent
  cases otherPresent
  rw [← firstAgrees, ← secondAgrees, sameCell]

theorem WellTyped.read
    {handle : Handle} (typed : heap.WellTyped catalog) (backed : heap.Backs handle) :
    (heap.read handle).WellTyped catalog heap :=
  typed handle.cell _ (read_of_backs backed).1

theorem WellTyped.container?
    {value : Value} {container : Container} (typed : heap.WellTyped catalog)
    (valueTyped : value.WellTyped catalog heap) (found : heap.container? value = some container) :
    container.WellTyped catalog heap := by
  cases valueTyped with
  | struct fits fieldsTyped =>
      cases found
      exact .struct fits fieldsTyped
  | shared backed =>
      cases found
      exact typed.read backed
  | _ => cases found

theorem wellTyped_empty (catalog : Catalog Rule) :
    Heap.empty.WellTyped catalog := by
  intro cell container present
  simp [empty] at present

theorem grows_empty (heap : Heap) :
    Heap.empty.Grows heap := by
  rintro handle ⟨container, present, _⟩
  simp [empty] at present

theorem Extends.grows (kept : after.Extends before) :
    before.Grows after := by
  rintro handle ⟨container, present, agrees⟩
  exact ⟨container, kept handle.cell container present, agrees⟩

namespace Evolves

theorem refl (typed : heap.WellTyped catalog) :
    heap.Evolves catalog heap :=
  ⟨typed, fun _ backed => backed⟩

theorem trans (first : before.Evolves catalog middle) (second : middle.Evolves catalog after) :
    before.Evolves catalog after :=
  ⟨second.typed, fun handle backed => second.grows handle (first.grows handle backed)⟩

theorem push
    {container : Container} (typed : heap.WellTyped catalog)
    (containerTyped : container.WellTyped catalog heap) :
    heap.Evolves catalog ⟨heap.cells.push container⟩ := by
  have grows : heap.Grows ⟨heap.cells.push container⟩ := (heap.extends_push container).grows
  refine ⟨fun cell content present => ?_, grows⟩
  rw [Array.getElem?_push] at present
  split at present
  · cases present
    exact containerTyped.of_grows grows
  · exact (typed cell content present).of_grows grows

/-- New content for a cell, of the same type as the old one. -/
theorem write
    {handle : Handle} {container : Container} (typed : heap.WellTyped catalog)
    (backed : heap.Backs handle) (agrees : container.handle handle.cell = handle)
    (containerTyped : container.WellTyped catalog heap) :
    heap.Evolves catalog (heap.write handle container) := by
  have written : (heap.write handle container).cells[handle.cell]? = some container := by
    obtain ⟨old, present, _⟩ := backed
    obtain ⟨live, _⟩ := Array.getElem?_eq_some_iff.mp present
    simp [Heap.write, live]
  have grows : heap.Grows (heap.write handle container) := by
    intro other otherBacked
    by_cases sameCell : handle.cell = other.cell
    · obtain rfl := handle_eq_of_backs backed otherBacked sameCell
      exact ⟨container, written, agrees⟩
    · obtain ⟨content, present, otherAgrees⟩ := otherBacked
      refine ⟨content, ?_, otherAgrees⟩
      simpa [Heap.write, sameCell] using present
  refine ⟨fun cell content present => ?_, grows⟩
  by_cases sameCell : handle.cell = cell
  · subst sameCell
    rw [written] at present
    cases present
    exact containerTyped.of_grows grows
  · refine (typed cell content ?_).of_grows grows
    simpa [Heap.write, sameCell] using present

end Evolves

theorem backs_push (heap : Heap) (container : Container) :
    Backs ⟨heap.cells.push container⟩ (container.handle heap.cells.size) :=
  ⟨container, by simp, by simp⟩

end Heap

/-! ## Slots -/

section Slots

variable {catalog : Catalog Rule} {heap : Heap}

theorem Value.wellTyped_getD
    {values : List Value} (typed : ∀ value ∈ values, value.WellTyped catalog heap) (index : Nat) :
    (values.getD index .null).WellTyped catalog heap := by
  rw [List.getD_eq_getElem?_getD]
  cases found : values[index]? with
  | none => exact .null
  | some value => exact typed value (List.mem_of_getElem? found)

/-- Every part of a well-typed value is well typed, however deep it lies. -/
theorem Value.WellTyped.part
    {value part : Value} (typed : value.WellTyped catalog heap) {indices : List Nat}
    (found : value.part? indices = some part) :
    part.WellTyped catalog heap := by
  induction indices generalizing value with
  | nil =>
      rw [part?_nil] at found
      cases found
      exact typed
  | cons index indices inductionHypothesis =>
      rw [part?_cons] at found
      obtain ⟨field, present, rest⟩ := Option.bind_eq_some_iff.mp found
      cases typed with
      | struct fits fieldsTyped =>
          exact inductionHypothesis (fieldsTyped field (List.mem_of_getElem? present)) rest
      | _ => simp [fields] at present

namespace Composite

variable {owner : Composite}

theorem wellTyped_toValue_iff :
    owner.toValue.WellTyped catalog heap ↔
      owner.Fits catalog ∧ ∀ field ∈ owner.fields, field.WellTyped catalog heap := by
  constructor
  · rintro (_ | _ | _ | _ | _ | ⟨fits, typed⟩ | _)
    exact ⟨fits, typed⟩
  · rintro ⟨fits, typed⟩
    exact .struct fits typed

theorem wellTyped_slot (typed : owner.toValue.WellTyped catalog heap) (index : Nat) :
    (owner.slot index).WellTyped catalog heap :=
  Value.wellTyped_getD (wellTyped_toValue_iff.mp typed).2 index

theorem fitsLayout_layout (fits : owner.Fits catalog) :
    owner.FitsLayout catalog (catalog.layout owner.type) := by
  obtain ⟨layout, fitsLayout⟩ := fits
  rwa [Catalog.layout, fitsLayout.registered]

theorem FitsLayout.lt_length
    {layout : Layout Rule} {placed : PlacedMember Rule} {index : Nat}
    (fits : owner.FitsLayout catalog layout) (present : placed ∈ layout.members)
    (stored : placed.stored? = some index) :
    index < owner.fields.length := by
  rw [fits.length_eq]
  exact fits.inside placed present index stored

/-- A stored member takes a value that it accepts. -/
theorem FitsLayout.setSlot
    {layout : Layout Rule} {placed : PlacedMember Rule} {index : Nat} {value : Value}
    (fits : owner.FitsLayout catalog layout) (sound : layout.Sound catalog)
    (present : placed ∈ layout.members) (stored : placed.stored? = some index)
    (accepted : placed.type.accepts catalog value = true) :
    (owner.setSlot index value).FitsLayout catalog layout where
  registered := fits.registered
  length_eq := by
    rw [Composite.setSlot, List.length_set]
    exact fits.length_eq
  inside := fits.inside
  accepted other otherPresent position otherStored := by
    by_cases same : position = index
    · subst same
      have symmetric : Std.Symm fun (first second : PlacedMember Rule) => ∀ index,
          first.stored? = some index → second.stored? ≠ some index :=
        ⟨fun _ _ apart index secondStored firstStored => apart index firstStored secondStored⟩
      have member : other = placed := by
        by_contra different
        exact sound.apart.forall otherPresent present different position otherStored stored
      subst member
      have inside := fits.lt_length present stored
      simpa [Composite.slot, Composite.setSlot, inside] using accepted
    · have untouched : (owner.setSlot index value).slot position = owner.slot position := by
        simp [Composite.slot, Composite.setSlot, List.getElem?_set_ne (Ne.symm same)]
      rw [untouched]
      exact fits.accepted other otherPresent position otherStored

theorem wellTyped_setSlot
    {placed : PlacedMember Rule} {index : Nat} {value : Value} (wellFormed : catalog.WellFormed)
    (typed : owner.toValue.WellTyped catalog heap)
    (present : placed ∈ (catalog.layout owner.type).members)
    (stored : placed.stored? = some index)
    (accepted : placed.type.accepts catalog value = true)
    (valueTyped : value.WellTyped catalog heap) :
    (owner.setSlot index value).toValue.WellTyped catalog heap := by
  obtain ⟨fits, fieldsTyped⟩ := wellTyped_toValue_iff.mp typed
  have fitsLayout := fitsLayout_layout fits
  have sound := wellFormed.sound _ _ fitsLayout.registered
  refine wellTyped_toValue_iff.mpr
    ⟨⟨_, fitsLayout.setSlot sound present stored accepted⟩, fun field found => ?_⟩
  rcases List.mem_or_eq_of_mem_set found with old | rfl
  · exact fieldsTyped field old
  · exact valueTyped

theorem mem_of_select
    {step : Step} {placed : PlacedMember Rule} (selected : owner.select catalog step = .ok placed) :
    placed ∈ (catalog.layout owner.type).members := by
  obtain ⟨name, _, found⟩ := select_eq_ok_iff.mp selected
  obtain ⟨position, _, reached⟩ := Option.bind_eq_some_iff.mp found
  exact List.mem_of_getElem? reached

end Composite

/-- Whatever stands in a well-typed container is well typed, however deep it lies. -/
theorem Container.WellTyped.part
    {container : Container} {part : Value} {indices : List Nat}
    (typed : container.WellTyped catalog heap) (found : container.part? indices = some part) :
    part.WellTyped catalog heap := by
  cases indices with
  | nil => cases found
  | cons index indices =>
      obtain ⟨slot, present, inside⟩ := Option.bind_eq_some_iff.mp found
      have slotTyped : slot.WellTyped catalog heap := by
        have held := List.mem_of_getElem? present
        cases container with
        | composite owner => exact (Composite.wellTyped_toValue_iff.mp typed).2 slot held
        | sequence elements => exact (typed slot held).2
      exact slotTyped.part inside

/-- Whatever a well-typed heap holds at a place is well typed. -/
theorem Heap.WellTyped.containerAt?
    {place : Place} {container : Container} (typed : heap.WellTyped catalog)
    (found : heap.containerAt? place = some container) :
    container.WellTyped catalog heap := by
  cases chain : place.indices with
  | nil =>
      simp only [Heap.containerAt?, chain] at found
      exact typed place.cell container found
  | cons index indices =>
      rw [containerAt?_of_indices_ne_nil (by simp [chain])] at found
      rcases Option.bind_eq_some_iff.mp found with ⟨value, held, opened⟩
      rcases Option.bind_eq_some_iff.mp held with ⟨whole, present, inside⟩
      have valueTyped := (typed place.cell whole present).part inside
      cases value with
      | struct type fields =>
          cases opened
          exact valueTyped
      | _ => cases opened

theorem PlacedMember.stored?_eq_some_iff {placed : PlacedMember Rule} {index : Nat} :
    placed.stored? = some index ↔ placed.member.kind = .field ∧ placed.offset = index := by
  obtain ⟨⟨name, type, kind, visibility, initial?⟩, declaredBy, offset⟩ := placed
  cases kind <;> simp [stored?, Member.isField]

theorem Sequence.wellTyped_slot
    {elements : Sequence} (typed : (Container.sequence elements).WellTyped catalog heap)
    (index : Nat) :
    (elements.slot index).WellTyped catalog heap :=
  Value.wellTyped_getD (fun item present => (typed item present).2) index

theorem Sequence.wellTyped_setSlot
    {elements : Sequence} {index : Nat} {value : Value}
    (typed : (Container.sequence elements).WellTyped catalog heap)
    (accepted : elements.element.accepts catalog value = true)
    (valueTyped : value.WellTyped catalog heap) :
    (Container.sequence (elements.setSlot index value)).WellTyped catalog heap := by
  intro item present
  rcases List.mem_or_eq_of_mem_set present with old | rfl
  · exact typed item old
  · exact ⟨accepted, valueTyped⟩

end Slots

/-! ## Lists -/

section Lists

variable {catalog : Catalog Rule} {heap after : Heap}

theorem Heap.evolves_newList
    {element : SlotType} {items : List Value} {list : Value} (typed : heap.WellTyped catalog)
    (itemsTyped : ∀ item ∈ items, item.WellTyped catalog heap)
    (made : heap.newList catalog element items = .ok (list, after)) :
    heap.Evolves catalog after ∧ list.WellTyped catalog after := by
  unfold newList at made
  split at made
  · cases made
  · next noneRejected =>
      cases made
      rw [List.find?_eq_none] at noneRejected
      have listTyped : (Container.sequence ⟨element, items⟩).WellTyped catalog heap :=
        fun item present => ⟨by simpa using noneRejected item present, itemsTyped item present⟩
      exact ⟨.push typed listTyped, .shared (heap.backs_push _)⟩

theorem Heap.evolves_push
    {handle : Handle} {value : Value} (typed : heap.WellTyped catalog)
    (backed : heap.Backs handle) (valueTyped : value.WellTyped catalog heap)
    (pushed : heap.push catalog handle value = some after) :
    heap.Evolves catalog after := by
  have listTyped := typed.read backed
  have agrees := (read_of_backs backed).2
  unfold push at pushed
  cases content : heap.read handle with
  | composite owner => simp [content] at pushed
  | sequence elements =>
      rw [content] at pushed listTyped agrees
      simp only [Option.ite_none_right_eq_some, Option.some.injEq] at pushed
      obtain ⟨accepted, rfl⟩ := pushed
      refine .write typed backed agrees fun item present => ?_
      rcases List.mem_append.mp present with old | new
      · exact listTyped item old
      · rw [List.mem_singleton.mp new]
        exact ⟨accepted, valueTyped⟩

end Lists

end ObjectGraph
