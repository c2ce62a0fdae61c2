import Mathlib.Data.List.Infix
import ObjectGraph.Heap

/-!
# Places

Structs are held in the slots of other structs, of objects and of lists. A place names a slot by the
cell in which it lives and by the chain of positions that leads from the cell down to it. The main
facts are about replacing the value at one place:

* the place itself then holds the new value;
* a place that encloses it holds what it held, with the part inside replaced;
* every place apart from it is as it was.
-/

namespace ObjectGraph

/-- A cell and a chain of positions in nested field buffers. The empty chain stands for the object
or list as a whole, every other chain for one slot. -/
structure Place where
  cell : Nat
  indices : List Nat
  deriving DecidableEq, Repr

namespace Place

/-- Whether the second place is the first or lies inside it. -/
def Encloses (outer inner : Place) : Prop :=
  outer.cell = inner.cell ∧ outer.indices <+: inner.indices

instance (outer inner : Place) : Decidable (outer.Encloses inner) :=
  inferInstanceAs (Decidable (_ ∧ _))

/-- Neither of the places encloses the other. -/
def Apart (first second : Place) : Prop :=
  ¬ first.Encloses second ∧ ¬ second.Encloses first

instance (first second : Place) : Decidable (first.Apart second) :=
  inferInstanceAs (Decidable (_ ∧ _))

def push (place : Place) (index : Nat) : Place :=
  ⟨place.cell, place.indices ++ [index]⟩

theorem encloses_iff {outer inner : Place} :
    outer.Encloses inner ↔
      ∃ rest, inner = ⟨outer.cell, outer.indices ++ rest⟩ := by
  constructor
  · rintro ⟨sameCell, rest, joined⟩
    exact ⟨rest, by rw [sameCell, joined]⟩
  · rintro ⟨rest, rfl⟩
    exact ⟨rfl, List.prefix_append _ _⟩

theorem Encloses.refl (place : Place) :
    place.Encloses place :=
  ⟨rfl, List.prefix_rfl⟩

end Place

/-! ## Parts of one value -/

namespace Value

/-- The fields of a struct. Nothing else holds values in itself. -/
def fields : Value → List Value
  | struct _ fields => fields
  | _ => []

def part? : Value → List Nat → Option Value
  | value, [] => some value
  | value, index :: indices => value.fields[index]?.bind fun field => field.part? indices

def replace : Value → List Nat → Value → Value
  | _, [], new => new
  | struct type fields, index :: indices, new =>
      struct type (fields.modify index fun field => field.replace indices new)
  | value, _ :: _, _ => value

@[simp]
theorem part?_nil (value : Value) :
    value.part? [] = some value := by
  rw [part?]

theorem part?_cons (value : Value) (index : Nat) (indices : List Nat) :
    value.part? (index :: indices) =
      value.fields[index]?.bind fun field => field.part? indices := by
  rw [part?]

@[simp]
theorem replace_nil (value new : Value) :
    value.replace [] new = new := by
  rw [replace]

@[simp]
theorem fields_replace_cons (value : Value) (index : Nat) (indices : List Nat) (new : Value) :
    (value.replace (index :: indices) new).fields =
      value.fields.modify index fun field => field.replace indices new := by
  cases value <;> simp [replace, fields]

theorem part?_append (value : Value) (first second : List Nat) :
    value.part? (first ++ second) =
      (value.part? first).bind fun part => part.part? second := by
  induction first generalizing value with
  | nil => simp
  | cons index first inductionHypothesis =>
      rw [List.cons_append, part?_cons, part?_cons]
      cases value.fields[index]? with
      | none => rfl
      | some field => exact inductionHypothesis field

/-- Where a part encloses the replaced one, it is its old self with the part inside replaced. -/
theorem part?_replace_append (value : Value) (first second : List Nat) (new : Value) :
    (value.replace (first ++ second) new).part? first =
      (value.part? first).map fun part => part.replace second new := by
  induction first generalizing value with
  | nil => simp
  | cons index first inductionHypothesis =>
      rw [List.cons_append, part?_cons, part?_cons, fields_replace_cons, List.getElem?_modify_eq]
      cases value.fields[index]? with
      | none => rfl
      | some field => exact inductionHypothesis field

theorem part?_replace_of_apart
    {value new : Value} {written other : List Nat}
    (notInside : ¬ written <+: other) (notAround : ¬ other <+: written) :
    (value.replace written new).part? other = value.part? other := by
  induction written generalizing value other with
  | nil => exact absurd List.nil_prefix notInside
  | cons index written inductionHypothesis =>
      cases other with
      | nil => exact absurd List.nil_prefix notAround
      | cons position other =>
          rw [part?_cons, part?_cons, fields_replace_cons]
          by_cases same : index = position
          · subst same
            rw [List.getElem?_modify_eq]
            cases value.fields[index]? with
            | none => rfl
            | some field =>
                apply inductionHypothesis
                · exact fun inside => notInside (List.cons_prefix_cons.mpr ⟨rfl, inside⟩)
                · exact fun around => notAround (List.cons_prefix_cons.mpr ⟨rfl, around⟩)
          · rw [List.getElem?_modify_ne _ _ same]

end Value

@[simp]
theorem Composite.asStruct?_toValue (composite : Composite) :
    composite.toValue.asStruct? = some composite :=
  rfl

/-! ## Parts of a container -/

/-- What writing into the slots of a container leaves as it is: its type and the number of slots. -/
inductive Outline where
  | composite (type : TypeId) (fieldCount : Nat)
  | sequence (element : SlotType) (length : Nat)
  deriving DecidableEq, Repr

namespace Container

def outline : Container → Outline
  | composite owner => .composite owner.type owner.fields.length
  | sequence elements => .sequence elements.element elements.items.length

def part? (container : Container) : List Nat → Option Value
  | [] => none
  | index :: indices => container.slots[index]?.bind fun slot => slot.part? indices

end Container

def Composite.replace (owner : Composite) : List Nat → Value → Composite
  | [], _ => owner
  | index :: indices, new =>
      { owner with fields := owner.fields.modify index fun slot => slot.replace indices new }

def Sequence.replace (elements : Sequence) : List Nat → Value → Sequence
  | [], _ => elements
  | index :: indices, new =>
      { elements with items := elements.items.modify index fun slot => slot.replace indices new }

namespace Container

def replace (container : Container) (indices : List Nat) (new : Value) : Container :=
  match container with
  | composite owner => composite (owner.replace indices new)
  | sequence elements => sequence (elements.replace indices new)

@[simp]
theorem slots_replace_cons
    (container : Container) (index : Nat) (indices : List Nat) (new : Value) :
    (container.replace (index :: indices) new).slots =
      container.slots.modify index fun slot => slot.replace indices new := by
  cases container <;> rfl

@[simp]
theorem outline_replace (container : Container) (indices : List Nat) (new : Value) :
    (container.replace indices new).outline = container.outline := by
  cases indices with
  | nil => cases container <;> rfl
  | cons index indices =>
      cases container <;> simp [replace, Composite.replace, Sequence.replace, outline]

theorem part?_replace_append
    (container : Container) {first : List Nat} (second : List Nat) (new : Value)
    (nonempty : first ≠ []) :
    (container.replace (first ++ second) new).part? first =
      (container.part? first).map fun part => part.replace second new := by
  cases first with
  | nil => exact absurd rfl nonempty
  | cons index first =>
      simp only [List.cons_append, part?, slots_replace_cons, List.getElem?_modify_eq]
      cases container.slots[index]? with
      | none => rfl
      | some slot => exact slot.part?_replace_append first second new

theorem part?_replace_of_apart
    {container : Container} {new : Value} {written other : List Nat}
    (notInside : ¬ written <+: other) (notAround : ¬ other <+: written) :
    (container.replace written new).part? other = container.part? other := by
  cases written with
  | nil => exact absurd List.nil_prefix notInside
  | cons index written =>
      cases other with
      | nil => exact absurd List.nil_prefix notAround
      | cons position other =>
          simp only [part?, slots_replace_cons]
          by_cases same : index = position
          · subst same
            rw [List.getElem?_modify_eq]
            cases container.slots[index]? with
            | none => rfl
            | some slot =>
                apply Value.part?_replace_of_apart
                · exact fun inside => notInside (List.cons_prefix_cons.mpr ⟨rfl, inside⟩)
                · exact fun around => notAround (List.cons_prefix_cons.mpr ⟨rfl, around⟩)
          · rw [List.getElem?_modify_ne _ _ same]

end Container

/-! ## Places of a heap -/

namespace Heap

def value? (heap : Heap) (place : Place) : Option Value :=
  heap.cells[place.cell]?.bind fun container => container.part? place.indices

/-- The container at a place: the object or list of a cell, or a struct in a slot. -/
def containerAt? (heap : Heap) (place : Place) : Option Container :=
  match place.indices with
  | [] => heap.cells[place.cell]?
  | _ :: _ => (heap.value? place).bind fun value => value.asStruct?.map .composite

def replace (heap : Heap) (place : Place) (new : Value) : Heap :=
  ⟨heap.cells.modify place.cell fun container => container.replace place.indices new⟩

/-- Every cell of the second heap is a cell of the first one, with the same content. -/
def Extends (after before : Heap) : Prop :=
  ∀ (cell : Nat) (container : Container),
    before.cells[cell]? = some container → after.cells[cell]? = some container

theorem indices_ne_nil_of_value?
    {heap : Heap} {place : Place} {value : Value} (present : heap.value? place = some value) :
    place.indices ≠ [] := by
  intro whole
  simp [value?, whole, Container.part?] at present

theorem lt_size_of_value?
    {heap : Heap} {place : Place} {value : Value} (present : heap.value? place = some value) :
    place.cell < heap.cells.size := by
  obtain ⟨container, stored, _⟩ := Option.bind_eq_some_iff.mp present
  exact (Array.getElem?_eq_some_iff.mp stored).1

theorem containerAt?_of_indices_ne_nil
    {heap : Heap} {place : Place} (slot : place.indices ≠ []) :
    heap.containerAt? place =
      (heap.value? place).bind fun value => value.asStruct?.map .composite := by
  unfold containerAt?
  cases chain : place.indices with
  | nil => exact absurd chain slot
  | cons index indices => rfl

/-- A slot belongs to the container at the place that is one position shorter. -/
theorem value?_push (heap : Heap) (place : Place) (index : Nat) :
    heap.value? (place.push index) =
      (heap.containerAt? place).bind fun container => container.slots[index]? := by
  obtain ⟨cell, indices⟩ := place
  cases indices with
  | nil =>
      simp only [value?, containerAt?, Place.push, List.nil_append, Container.part?]
      cases heap.cells[cell]? with
      | none => rfl
      | some container => cases found : container.slots[index]? <;> simp [found]
  | cons position indices =>
      simp only [value?, containerAt?, Place.push, List.cons_append, Container.part?]
      cases heap.cells[cell]? with
      | none => rfl
      | some container =>
          cases found : container.slots[position]? with
          | none => simp [found]
          | some slot =>
              simp only [found, Option.bind_some, Value.part?_append]
              cases slot.part? indices with
              | none => rfl
              | some value =>
                  cases value <;>
                    simp [Value.part?_cons, Value.fields, Value.asStruct?, Container.slots]

theorem value?_of_containerAt?
    {heap : Heap} {cell : Nat} {indices : List Nat} {container : Container}
    (held : heap.containerAt? ⟨cell, indices⟩ = some container) (index : Nat) :
    heap.value? ⟨cell, indices ++ [index]⟩ = container.slots[index]? := by
  have slot := heap.value?_push ⟨cell, indices⟩ index
  rwa [held, Option.bind_some] at slot

theorem getElem?_cells_replace (heap : Heap) (place : Place) (new : Value) (cell : Nat) :
    (heap.replace place new).cells[cell]? =
      if place.cell = cell then
        heap.cells[cell]?.map fun container => container.replace place.indices new
      else
        heap.cells[cell]? := by
  simp [replace, Array.getElem?_modify]

theorem read_of_getElem?
    {heap : Heap} {handle : Handle} {container : Container}
    (present : heap.cells[handle.cell]? = some container) :
    heap.read handle = container := by
  simp only [read, present]

theorem read_replace (heap : Heap) (handle : Handle) (indices : List Nat) (new : Value) :
    (heap.replace ⟨handle.cell, indices⟩ new).read handle =
      (heap.read handle).replace indices new := by
  simp only [read, getElem?_cells_replace, if_true]
  cases heap.cells[handle.cell]? with
  | some container => rfl
  | none =>
      cases indices with
      | nil => cases handle <;> rfl
      | cons index indices =>
          cases handle <;> simp [Container.replace, Composite.replace, Sequence.replace]

theorem read_replace_of_ne
    {heap : Heap} {place : Place} {handle : Handle} (different : place.cell ≠ handle.cell)
    (new : Value) :
    (heap.replace place new).read handle = heap.read handle := by
  simp only [read, getElem?_cells_replace, if_neg different]

theorem value?_replace_of_encloses
    (heap : Heap) {place outer : Place} {rest : List Nat} (new : Value)
    (inside : place = ⟨outer.cell, outer.indices ++ rest⟩) (slot : outer.indices ≠ []) :
    (heap.replace place new).value? outer =
      (heap.value? outer).map fun value => value.replace rest new := by
  subst inside
  simp only [value?, getElem?_cells_replace, if_true]
  cases heap.cells[outer.cell]? with
  | none => rfl
  | some container => exact container.part?_replace_append rest new slot

theorem value?_replace_self
    {heap : Heap} {place : Place} {old : Value} (new : Value)
    (present : heap.value? place = some old) :
    (heap.replace place new).value? place = some new := by
  have slot := indices_ne_nil_of_value? present
  have replaced := @value?_replace_of_encloses heap place place [] new (by simp) slot
  simpa [present] using replaced

theorem value?_replace_of_apart
    (heap : Heap) {place other : Place} (new : Value) (apart : place.Apart other) :
    (heap.replace place new).value? other = heap.value? other := by
  simp only [value?, getElem?_cells_replace]
  by_cases same : place.cell = other.cell
  · rw [if_pos same]
    cases heap.cells[other.cell]? with
    | none => rfl
    | some container =>
        apply Container.part?_replace_of_apart
        · exact fun inside => apart.1 ⟨same, inside⟩
        · exact fun around => apart.2 ⟨same.symm, around⟩
  · rw [if_neg same]

/-- A replacement keeps the type and the number of slots of every object, list and struct that does
not lie in the replaced slot. -/
theorem outline_containerAt?_replace
    (heap : Heap) {place other : Place} (new : Value) (outside : ¬ place.Encloses other) :
    ((heap.replace place new).containerAt? other).map Container.outline =
      (heap.containerAt? other).map Container.outline := by
  unfold containerAt?
  cases chain : other.indices with
  | nil =>
      simp only [getElem?_cells_replace]
      split
      · cases heap.cells[other.cell]? <;> simp
      · rfl
  | cons index indices =>
      simp only
      by_cases around : other.Encloses place
      · obtain ⟨rest, inside⟩ := Place.encloses_iff.mp around
        rw [heap.value?_replace_of_encloses new inside (by simp [chain])]
        cases rest with
        | nil =>
            exact absurd (by rw [inside]; simp [Place.Encloses.refl]) outside
        | cons position rest =>
            cases heap.value? other with
            | none => rfl
            | some value =>
                cases value <;> simp [Value.replace, Value.asStruct?, Container.outline]
      · rw [heap.value?_replace_of_apart new ⟨outside, around⟩]

namespace Extends

theorem refl (heap : Heap) :
    heap.Extends heap :=
  fun _ _ present => present

theorem trans
    {first second third : Heap}
    (later : third.Extends second) (earlier : second.Extends first) :
    third.Extends first :=
  fun cell container present => later cell container (earlier cell container present)

theorem getElem?_cells
    {before after : Heap} (kept : after.Extends before) {cell : Nat}
    (existed : cell < before.cells.size) :
    after.cells[cell]? = before.cells[cell]? := by
  have present := Array.getElem?_eq_getElem existed
  rw [present, kept cell _ present]

theorem size_le
    {before after : Heap} (kept : after.Extends before) :
    before.cells.size ≤ after.cells.size := by
  by_contra smaller
  have existed : after.cells.size < before.cells.size := by omega
  have found := kept.getElem?_cells existed
  simp [existed] at found

theorem value?_eq
    {before after : Heap} (kept : after.Extends before) {place : Place}
    (existed : place.cell < before.cells.size) :
    after.value? place = before.value? place := by
  unfold value?
  rw [kept.getElem?_cells existed]

theorem read_eq
    {before after : Heap} (kept : after.Extends before) {handle : Handle}
    (live : handle.cell < before.cells.size) :
    after.read handle = before.read handle := by
  unfold read
  rw [kept.getElem?_cells live]

theorem containerAt?_eq
    {before after : Heap} (kept : after.Extends before) {place : Place}
    (existed : place.cell < before.cells.size) :
    after.containerAt? place = before.containerAt? place := by
  unfold containerAt?
  rw [kept.getElem?_cells existed, kept.value?_eq existed]

end Extends

theorem extends_push (heap : Heap) (container : Container) :
    Extends ⟨heap.cells.push container⟩ heap := by
  intro cell content present
  obtain ⟨existed, _⟩ := Array.getElem?_eq_some_iff.mp present
  rw [Array.getElem?_push_lt existed, ← present, Array.getElem?_eq_getElem existed]

end Heap

end ObjectGraph
