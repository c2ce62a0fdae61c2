import ObjectGraph.Examples.Ring
import ObjectGraph.Proofs.Conservation
import ObjectGraph.Proofs.Target

/-!
# What a successful write changes

A write that succeeds has one of two effects, and which one is decided by what its location denotes
in the heap right before it:

* the value is stored in one slot, and everything outside that slot is as it was;
* the writer of a computed member runs once on the live owner, the result takes the place of the
  owner, and everything outside that owner is as it was.

Objects and lists that exist already are meant throughout: a write at a path text may read computed
members on its way, and these may add cells.
-/

namespace ObjectGraph

variable {Rule : Type}

namespace Heap

/-- Nothing that existed before differs outside a place. Values apart from the place are the same.
So are the type and the number of slots of all objects, lists and structs that do not lie in it. -/
structure UnchangedOutside (before after : Heap) (place : Place) : Prop where
  value?_eq : ∀ other : Place, other.cell < before.cells.size → place.Apart other →
    after.value? other = before.value? other
  outline_eq : ∀ other : Place, other.cell < before.cells.size → ¬ place.Encloses other →
    (after.containerAt? other).map Container.outline =
      (before.containerAt? other).map Container.outline

/-- Every stored member of the object in a cell, and of every struct in that cell, has its slot in
the buffer. -/
def Covered (catalog : Catalog Rule) (heap : Heap) (cell : Nat) : Prop :=
  ∀ (indices : List Nat) (owner : Composite) (name : String) (placed : PlacedMember Rule),
    heap.containerAt? ⟨cell, indices⟩ = some (.composite owner) →
      (catalog.layout owner.type).member? name = some placed →
        placed.member.kind = .field → placed.offset < owner.fields.length

theorem unchangedOutside_replace (heap : Heap) (place : Place) (new : Value) :
    heap.UnchangedOutside (heap.replace place new) place where
  value?_eq _ _ apart := heap.value?_replace_of_apart new apart
  outline_eq _ _ outside := heap.outline_containerAt?_replace new outside

theorem UnchangedOutside.of_extends
    {before reached after : Heap} {place : Place} (kept : reached.Extends before)
    (unchanged : reached.UnchangedOutside after place) :
    before.UnchangedOutside after place := by
  constructor
  · intro other existed apart
    have stillExists := existed.trans_le kept.size_le
    rw [unchanged.value?_eq other stillExists apart, kept.value?_eq existed]
  · intro other existed outside
    have stillExists := existed.trans_le kept.size_le
    rw [unchanged.outline_eq other stillExists outside, kept.containerAt?_eq existed]

/-- A write into a cell changes nothing in the other cells, also when cells have been added. -/
theorem unchangedOutside_write
    {before middle : Heap} {handle : Handle} {place : Place} (container : Container)
    (kept : middle.Extends before)
    (elsewhere : ∀ other : Place, other.cell < before.cells.size → ¬ place.Encloses other →
      handle.cell ≠ other.cell) :
    before.UnchangedOutside (middle.write handle container) place := by
  have sameCell : ∀ other : Place, other.cell < before.cells.size → ¬ place.Encloses other →
      (middle.write handle container).cells[other.cell]? = before.cells[other.cell]? := by
    intro other existed outside
    have different := elsewhere other existed outside
    rw [write, Array.getElem?_setIfInBounds, if_neg different, kept.getElem?_cells existed]
  constructor
  · intro other existed apart
    unfold value?
    rw [sameCell other existed apart.1]
  · intro other existed outside
    unfold containerAt? value?
    rw [sameCell other existed outside]

theorem containerAt?_anchor {heap : Heap} {anchor : Handle} (live : anchor.cell < heap.cells.size) :
    heap.containerAt? ⟨anchor.cell, []⟩ = some (heap.read anchor) := by
  simp [containerAt?, read, live]

end Heap

/-! ## The owner of the slot -/

namespace Container

theorem getElem?_slots_of_structAt
    {container : Container} {index : Nat} {hop : Step} {inner : Composite}
    (found : (container.slot index).structAt hop = .ok inner) :
    container.slots[index]? = some inner.toValue := by
  have held : container.slots.getD index .null = inner.toValue := Value.structAt_eq_ok_iff.mp found
  rw [List.getD_eq_getElem?_getD] at held
  cases slot : container.slots[index]? with
  | none =>
      rw [slot] at held
      exact absurd held (by simp [Composite.toValue])
  | some value =>
      rw [slot] at held
      exact congrArg some held

/-- The way down ends at what the heap holds behind the positions passed. -/
theorem containerAt?_of_descend
    {catalog : Catalog Rule} {heap : Heap} {hops : List Step} {place : Place}
    {container owner : Container} {indices : List Nat}
    (starts : heap.containerAt? place = some container)
    (descended : container.descend catalog hops = .ok (indices, owner)) :
    heap.containerAt? ⟨place.cell, place.indices ++ indices⟩ = some owner := by
  induction hops generalizing place container indices with
  | nil =>
      simp only [descend, Except.ok.injEq, Prod.mk.injEq] at descended
      obtain ⟨rfl, rfl⟩ := descended
      simpa using starts
  | cons hop hops inductionHypothesis =>
      obtain ⟨index, inner, further, _, found, rest, rfl⟩ := descend_cons_eq_ok_iff.mp descended
      have value : heap.value? (place.push index) = some inner.toValue := by
        rw [heap.value?_push, starts]
        exact getElem?_slots_of_structAt found
      have innerStarts : heap.containerAt? (place.push index) = some (composite inner) := by
        rw [Heap.containerAt?_of_indices_ne_nil (by simp [Place.push]), value]
        simp
      simpa [Place.push] using inductionHypothesis innerStarts rest

end Container

/-- From an anchor the way down ends at what the heap holds there. -/
theorem Heap.containerAt?_of_descend
    {catalog : Catalog Rule} {heap : Heap} {anchor : Handle} {hops : List Step}
    {owner : Container} {indices : List Nat} (live : anchor.cell < heap.cells.size)
    (descended : (heap.read anchor).descend catalog hops = .ok (indices, owner)) :
    heap.containerAt? ⟨anchor.cell, indices⟩ = some owner := by
  have starts := containerAt?_anchor live
  exact Container.containerAt?_of_descend starts descended

/-! ## The two effects -/

/-- A value that fits has been stored in the slot at a place. The slot exists when the anchor is
live and the buffers in its cell cover their layouts. -/
structure SlotWrite (catalog : Catalog Rule) (value : Value) (before reached after : Heap)
    (anchor : Handle) (indices : List Nat) (type : SlotType) : Prop where
  accepts : type.accepts catalog value = true
  present : anchor.cell < reached.cells.size → reached.Covered catalog anchor.cell →
    (reached.value? ⟨anchor.cell, indices⟩).isSome
  holds : (reached.value? ⟨anchor.cell, indices⟩).isSome →
    after.value? ⟨anchor.cell, indices⟩ = some value
  unchanged : before.UnchangedOutside after ⟨anchor.cell, indices⟩

/-- The writer of a computed member has run once, on the owner that the heap holds at a place, with
a value that fits, and its result has been put back there. -/
structure OwnerWrite [Accessors Rule] (catalog : Catalog Rule) (value : Value)
    (before reached after : Heap) (anchor : Handle) (indices : List Nat) (owner : Composite)
    (placed : PlacedMember Rule) (rule : Rule) : Prop where
  accepts : placed.type.accepts catalog value = true
  live : anchor.cell < reached.cells.size →
    reached.containerAt? ⟨anchor.cell, indices⟩ = some (.composite owner)
  ran : ∃ write, Accessors.write? rule = some write ∧
    after = (write catalog owner value reached).2.write anchor
      ((reached.read anchor).setOwner indices (write catalog owner value reached).1) ∧
    (anchor.cell < reached.cells.size →
      after.containerAt? ⟨anchor.cell, indices⟩ =
        some (.composite (write catalog owner value reached).1))
  unchanged : before.UnchangedOutside after ⟨anchor.cell, indices⟩

/-- What a write through a location comes to, from the heap at the time of the request over the heap
in which the location was reached to the heap in the end. -/
def Location.WriteEffect [Accessors Rule] (catalog : Catalog Rule) (location : Location)
    (value : Value) (before reached after : Heap) : Prop :=
  match location.target catalog reached with
  | .error _ => False
  | .ok (.slot indices type) =>
      SlotWrite catalog value before reached after location.anchor indices type
  | .ok (.computed indices owner placed rule) =>
      OwnerWrite catalog value before reached after location.anchor indices owner placed rule

/-! ## Stored slots -/

theorem Heap.Covered.index_lt
    {catalog : Catalog Rule} {heap : Heap} {cell : Nat} (covered : heap.Covered catalog cell)
    {indices : List Nat} {container : Container} {step : Step} {index : Nat}
    (held : heap.containerAt? ⟨cell, indices⟩ = some container)
    (stored : container.storage catalog step = .ok index) :
    index < container.slots.length := by
  cases container with
  | sequence elements => exact (Sequence.select_eq_ok_iff.mp stored).2
  | composite owner =>
      obtain ⟨placed, selected, kind, rfl⟩ := Composite.storage_eq_ok_iff.mp stored
      obtain ⟨name, _, found⟩ := Composite.select_eq_ok_iff.mp selected
      exact covered indices owner name placed held found kind

theorem Location.isSome_value?_of_target
    {catalog : Catalog Rule} {heap : Heap} {location : Location} {indices : List Nat}
    {type : SlotType} (live : location.anchor.cell < heap.cells.size)
    (covered : heap.Covered catalog location.anchor.cell)
    (aimed : location.target catalog heap = .ok (.slot indices type)) :
    (heap.value? ⟨location.anchor.cell, indices⟩).isSome := by
  obtain ⟨passed, owner, descended, aims⟩ := Container.target_eq_ok_iff.mp aimed
  obtain ⟨index, stored, rfl⟩ := Container.storage_of_aim_slot aims
  have holds := Heap.containerAt?_of_descend live descended
  have inside := covered.index_lt holds stored
  rw [Heap.value?_of_containerAt? holds index]
  simpa using inside

theorem Location.slotWrite_of_target
    {catalog : Catalog Rule} {heap : Heap} {location : Location} {indices : List Nat}
    {type : SlotType} {value : Value}
    (aimed : location.target catalog heap = .ok (.slot indices type))
    (fits : type.accepts catalog value = true) :
    SlotWrite catalog value heap heap (heap.replace ⟨location.anchor.cell, indices⟩ value)
      location.anchor indices type where
  accepts := fits
  present live covered := isSome_value?_of_target live covered aimed
  holds present := by
    obtain ⟨old, held⟩ := Option.isSome_iff_exists.mp present
    exact Heap.value?_replace_self value held
  unchanged := heap.unchangedOutside_replace _ value

/-! ## Owners of computed members -/

namespace Heap

/-- Putting an owner back changes nothing outside it, also when cells have been added since the
owner was found. -/
theorem unchangedOutside_setOwner
    {before middle : Heap} {anchor : Handle} {indices : List Nat} {updated : Composite}
    (kept : middle.Extends before) :
    before.UnchangedOutside
      (middle.write anchor ((before.read anchor).setOwner indices updated))
      ⟨anchor.cell, indices⟩ := by
  cases indices with
  | nil =>
      refine unchangedOutside_write _ kept fun other _ outside same => ?_
      exact outside ⟨same, List.nil_prefix⟩
  | cons index indices =>
      by_cases live : anchor.cell < before.cells.size
      · rw [← kept.read_eq live, Container.setOwner, write_replace]
        exact (unchangedOutside_replace middle _ _).of_extends kept
      · refine unchangedOutside_write _ kept fun other existed _ same => live ?_
        rwa [same]

theorem containerAt?_setOwner
    {before middle : Heap} {anchor : Handle} {indices : List Nat} {owner updated : Composite}
    (kept : middle.Extends before) (live : anchor.cell < before.cells.size)
    (held : before.containerAt? ⟨anchor.cell, indices⟩ = some (.composite owner)) :
    (middle.write anchor ((before.read anchor).setOwner indices updated)).containerAt?
        ⟨anchor.cell, indices⟩ =
      some (.composite updated) := by
  have stillLive : anchor.cell < middle.cells.size := live.trans_le kept.size_le
  cases indices with
  | nil =>
      rw [containerAt?_anchor (by simpa using stillLive), read_write_same stillLive,
        Container.setOwner]
  | cons index indices =>
      rw [← kept.containerAt?_eq live, containerAt?_of_indices_ne_nil (by simp)] at held
      rw [← kept.read_eq live, Container.setOwner, write_replace,
        containerAt?_of_indices_ne_nil (by simp)]
      cases old : middle.value? ⟨anchor.cell, index :: indices⟩ with
      | none => simp [old] at held
      | some value => simp [value?_replace_self updated.toValue old]

end Heap

theorem Location.containerAt?_of_target
    {catalog : Catalog Rule} {heap : Heap} {location : Location} {indices : List Nat}
    {owner : Composite} {placed : PlacedMember Rule} {rule : Rule}
    (live : location.anchor.cell < heap.cells.size)
    (aimed : location.target catalog heap = .ok (.computed indices owner placed rule)) :
    heap.containerAt? ⟨location.anchor.cell, indices⟩ = some (.composite owner) := by
  obtain ⟨passed, reached, descended, aims⟩ := Container.target_eq_ok_iff.mp aimed
  obtain ⟨rfl, rfl⟩ := Container.eq_owner_of_aim_computed aims
  exact Heap.containerAt?_of_descend live descended

theorem Location.ownerWrite_of_target
    [Accessors Rule] (writesOwner : Accessors.WritesOwner Rule)
    {catalog : Catalog Rule} {heap : Heap} {location : Location} {indices : List Nat}
    {owner : Composite} {placed : PlacedMember Rule} {rule : Rule} {value : Value}
    {write : Catalog Rule → Composite → Value → Heap → Composite × Heap}
    (aimed : location.target catalog heap = .ok (.computed indices owner placed rule))
    (fits : placed.type.accepts catalog value = true)
    (writer : Accessors.write? rule = some write) :
    OwnerWrite catalog value heap heap
      ((write catalog owner value heap).2.write location.anchor
        ((heap.read location.anchor).setOwner indices (write catalog owner value heap).1))
      location.anchor indices owner placed rule := by
  have kept : (write catalog owner value heap).2.Extends heap :=
    writesOwner rule write writer catalog owner value heap
  constructor
  case accepts => exact fits
  case live => exact fun live => containerAt?_of_target live aimed
  case ran =>
    refine ⟨write, writer, rfl, fun live => ?_⟩
    exact Heap.containerAt?_setOwner kept live (containerAt?_of_target live aimed)
  case unchanged => exact Heap.unchangedOutside_setOwner kept

/-! ## Successful writes -/

theorem Location.writeEffect_of_write
    [Accessors Rule] (writesOwner : Accessors.WritesOwner Rule)
    {catalog : Catalog Rule} {location : Location} {value : Value} {heap after : Heap}
    (written : location.write catalog value heap = .ok () after) :
    location.WriteEffect catalog value heap heap after := by
  unfold WriteEffect
  rcases write_cases written with
    ⟨indices, type, aimed, fits, rfl⟩ |
      ⟨indices, owner, placed, rule, write, aimed, fits, writer, rfl⟩
  · rw [aimed]
    exact slotWrite_of_target aimed fits
  · rw [aimed]
    exact ownerWrite_of_target writesOwner aimed fits writer

theorem Location.WriteEffect.of_extends
    [Accessors Rule] {catalog : Catalog Rule} {location : Location} {value : Value}
    {before reached after : Heap} (kept : reached.Extends before)
    (effect : location.WriteEffect catalog value reached reached after) :
    location.WriteEffect catalog value before reached after := by
  unfold WriteEffect at effect ⊢
  split at effect
  · exact effect
  · exact { effect with unchanged := effect.unchanged.of_extends kept }
  · exact { effect with unchanged := effect.unchanged.of_extends kept }

/-- A write through any location, and a write at any path text, changes only what its location
denotes in the heap in which the location was reached. -/
theorem writeEffect_of_ok
    [Accessors Rule] (readsOnly : Accessors.ReadsOnly Rule)
    (writesOwner : Accessors.WritesOwner Rule) (catalog : Catalog Rule) (value : Value) :
    (∀ (location : Location) (heap after : Heap),
      location.write catalog value heap = .ok () after →
        location.WriteEffect catalog value heap heap after) ∧
      ∀ (root : Value) (text : String) (heap after : Heap) (change : Change),
        root.set catalog text value heap = .ok change after →
          ∃ path location reached, Path.parse text = .ok path ∧
            root.locate catalog path heap = .ok location reached ∧ reached.Extends heap ∧
            location.WriteEffect catalog value heap reached after := by
  constructor
  · intro location heap after written
    exact location.writeEffect_of_write writesOwner written
  · intro root text heap after change assigned
    obtain ⟨path, location, reached, parsed, located, written, _⟩ := Value.set_eq_ok_iff.mp assigned
    have kept : reached.Extends heap :=
      (root.keeps_locate readsOnly catalog path).of_ok located
    have effect := location.writeEffect_of_write writesOwner written
    exact ⟨path, location, reached, parsed, located, kept, effect.of_extends kept⟩

/-- A number is stored in the pair of the next node, which is the node itself. Then both numbers of
the pair are written through a location found before. -/
theorem writeEffect_of_ring :
    (∃ path location reached, Path.parse "next.pair.x" = .ok path ∧
      Ring.root.locate Ring.catalog path Ring.heap = .ok location reached ∧
      reached.Extends Ring.heap ∧
      location.WriteEffect Ring.catalog (.int 5) Ring.heap reached (Ring.heapWith 5 2)) ∧
    Location.WriteEffect Ring.catalog ⟨Ring.handle, [.member "pair"], .member "both"⟩ (.int 7)
      (Ring.heapWith 5 2) (Ring.heapWith 5 2) (Ring.heapWith 7 7) := by
  have parsed :
      Path.parse "next.pair.x" =
        .ok ⟨[.member "next", .member "pair", .member "x"], by simp⟩ := by
    decide +kernel
  have assigned :
      Ring.root.set Ring.catalog "next.pair.x" (.int 5) Ring.heap =
        .ok ⟨Ring.root, ⟨[.member "next", .member "pair", .member "x"], by simp⟩⟩
          (Ring.heapWith 5 2) := by
    rw [Value.set_apply, Path.ofText_of_parse parsed]
    rfl
  have written :
      Location.write Ring.catalog ⟨Ring.handle, [.member "pair"], .member "both"⟩ (.int 7)
        (Ring.heapWith 5 2) = .ok () (Ring.heapWith 7 7) := by
    rfl
  constructor
  · exact (writeEffect_of_ok PropertyRule.readsOnly PropertyRule.writesOwner Ring.catalog
      (.int 5)).2 _ _ _ _ _ assigned
  · exact (writeEffect_of_ok PropertyRule.readsOnly PropertyRule.writesOwner Ring.catalog
      (.int 7)).1 _ _ _ written

end ObjectGraph
