import ObjectGraph.Examples.Ring
import ObjectGraph.Proofs.Inheritance
import ObjectGraph.Proofs.KeptLocation
import ObjectGraph.Proofs.TreeReads

/-!
# Two writes

A location has a position: the cell of its anchor, and the steps that lead from there to its slot.
Where the slots are stored, positions alone decide how two writes work together.

* A write at the same position hides the one before it.
* Writes at positions of which neither encloses the other do not notice each other. The positions
  may share the cell and any number of structs on the way down. They part at some step, and from
  there on they use different slots.
-/

namespace ObjectGraph

variable {Rule : Type}

/-- What was aimed at is a slot, or it was not reached. -/
def Target.NotComputed (aimed : Except AccessError (Target Rule)) : Prop :=
  ∀ indices owner placed rule, aimed ≠ .ok (.computed indices owner placed rule)

@[simp]
theorem Target.notComputed_slot (indices : List Nat) (type : SlotType) :
    NotComputed (.ok (slot indices type : Target Rule)) := by
  intro _ _ _ _ same
  cases same

namespace Location

def SamePosition (first second : Location) : Prop :=
  first.anchor.cell = second.anchor.cell ∧ first.hops = second.hops ∧
    first.terminal = second.terminal

/-- Neither of the positions is the other one, encloses it or lies inside it. -/
def Apart (first second : Location) : Prop :=
  first.anchor.cell = second.anchor.cell →
    ¬ first.path.steps <+: second.path.steps ∧ ¬ second.path.steps <+: first.path.steps

/-- The last step, where it is reached, selects no computed member. -/
def Stored (catalog : Catalog Rule) (location : Location) (heap : Heap) : Prop :=
  Target.NotComputed (location.target catalog heap)

/-- Two writes that can be done in either order. -/
structure Commute [Accessors Rule] (catalog : Catalog Rule) (first second : Location)
    (value other : Value) (heap : Heap) : Prop where
  first_eq : Access.answer (first.write catalog value
      (Access.heapAfter (second.write catalog other) heap)) =
    Access.answer (first.write catalog value heap)
  second_eq : Access.answer (second.write catalog other
      (Access.heapAfter (first.write catalog value) heap)) =
    Access.answer (second.write catalog other heap)
  heap_eq : Access.heapAfter (second.write catalog other)
      (Access.heapAfter (first.write catalog value) heap) =
    Access.heapAfter (first.write catalog value)
      (Access.heapAfter (second.write catalog other) heap)

end Location

/-! ## Different steps, different slots -/

/-- Two steps never select the same slot. -/
def Catalog.SeparatesSlots (catalog : Catalog Rule) : Prop :=
  ∀ (container : Container) (first second : Step) (index : Nat),
    container.storage catalog first = .ok index → container.storage catalog second = .ok index →
      first = second

/-- Stored members of different positions have different slots. -/
theorem Layout.Numbered.position_eq
    {layout : Layout Rule} (numbered : layout.Numbered) {first second slot : Nat}
    {placed other : PlacedMember Rule} (firstAt : layout.members[first]? = some placed)
    (secondAt : layout.members[second]? = some other) (firstSlot : placed.stored? = some slot)
    (secondSlot : other.stored? = some slot) :
    first = second := by
  have increasing := List.pairwise_iff_getElem.mp numbered.pairwise_lt
  obtain ⟨firstInside, rfl⟩ := List.getElem?_eq_some_iff.mp firstAt
  obtain ⟨secondInside, rfl⟩ := List.getElem?_eq_some_iff.mp secondAt
  rcases Nat.lt_trichotomy first second with before | same | behind
  · have parted := increasing _ _ firstInside secondInside before _ firstSlot _ secondSlot
    exact absurd parted (Nat.lt_irrefl slot)
  · exact same
  · have parted := increasing _ _ secondInside firstInside behind _ secondSlot _ firstSlot
    exact absurd parted (Nat.lt_irrefl slot)

theorem Catalog.Records.numbered_layout
    {catalog : Catalog Rule} {accepted : List (Submission Rule)}
    (records : catalog.Records accepted) (type : TypeId) :
    (catalog.layout type).Numbered := by
  rw [layout]
  cases registered : catalog.layout? type with
  | none => exact Layout.numbered_bare _ _
  | some layout => exact records.numbered registered

theorem Catalog.Records.separatesSlots
    {catalog : Catalog Rule} {accepted : List (Submission Rule)}
    (records : catalog.Records accepted) :
    catalog.SeparatesSlots := by
  intro container first second index firstStored secondStored
  cases container with
  | sequence elements =>
      rw [(Sequence.select_eq_ok_iff.mp firstStored).1,
        (Sequence.select_eq_ok_iff.mp secondStored).1]
  | composite owner =>
      obtain ⟨placed, selected, kind, rfl⟩ := Composite.storage_eq_ok_iff.mp firstStored
      obtain ⟨other, otherSelected, otherKind, sameOffset⟩ :=
        Composite.storage_eq_ok_iff.mp secondStored
      obtain ⟨name, rfl, found⟩ := Composite.select_eq_ok_iff.mp selected
      obtain ⟨otherName, rfl, otherFound⟩ := Composite.select_eq_ok_iff.mp otherSelected
      obtain ⟨position, indexed, present⟩ := Option.bind_eq_some_iff.mp found
      obtain ⟨otherPosition, otherIndexed, otherPresent⟩ := Option.bind_eq_some_iff.mp otherFound
      obtain rfl : position = otherPosition :=
        (records.numbered_layout owner.type).position_eq present otherPresent
          (PlacedMember.stored?_eq_some_iff.mpr ⟨kind, rfl⟩)
          (PlacedMember.stored?_eq_some_iff.mpr ⟨otherKind, sameOffset⟩)
      obtain ⟨here, hereAt, hereNamed⟩ := records.indexed_layout owner.type _ _ indexed
      obtain ⟨there, thereAt, thereNamed⟩ := records.indexed_layout owner.type _ _ otherIndexed
      rw [hereAt] at thereAt
      cases thereAt
      rw [← hereNamed, thereNamed]

/-! ## Replacing two parts -/

namespace Value

/-- A later replacement of the same part hides the earlier one. -/
theorem replace_replace (value new newer : Value) (indices : List Nat) :
    (value.replace indices new).replace indices newer = value.replace indices newer := by
  induction indices generalizing value with
  | nil => rw [replace_nil, replace_nil]
  | cons index indices inductionHypothesis =>
      cases value with
      | struct type fields =>
          simp only [replace, List.modify_modify_eq, Function.comp_def, inductionHypothesis]
      | _ => rfl

/-- Parts of slots are replaced in either order, if that is so in a slot which holds both. -/
theorem modify_replace_comm
    {index position : Nat} {first second : List Nat} {new other : Value} (values : List Value)
    (sameSlot : index = position → ∀ value : Value,
      (value.replace first new).replace second other =
        (value.replace second other).replace first new) :
    (values.modify index fun value => value.replace first new).modify position
        (fun value => value.replace second other) =
      (values.modify position fun value => value.replace second other).modify index
        fun value => value.replace first new := by
  by_cases same : index = position
  · subst same
    simp only [List.modify_modify_eq, Function.comp_def, sameSlot rfl]
  · exact List.modify_modify_ne _ _ _ same

/-- Parts of which neither lies in the other are replaced in either order. -/
theorem replace_comm
    {first second : List Nat} (value new other : Value) (notInside : ¬ first <+: second)
    (notAround : ¬ second <+: first) :
    (value.replace first new).replace second other =
      (value.replace second other).replace first new := by
  induction first generalizing value second with
  | nil => exact absurd List.nil_prefix notInside
  | cons index first inductionHypothesis =>
      cases second with
      | nil => exact absurd List.nil_prefix notAround
      | cons position second =>
          cases value with
          | struct type fields =>
              simp only [replace]
              rw [modify_replace_comm]
              intro same value
              apply inductionHypothesis
              · exact fun inside => notInside (List.cons_prefix_cons.mpr ⟨same, inside⟩)
              · exact fun around => notAround (List.cons_prefix_cons.mpr ⟨same.symm, around⟩)
          | _ => rfl

end Value

namespace Container

theorem replace_replace (container : Container) (new newer : Value) (indices : List Nat) :
    (container.replace indices new).replace indices newer = container.replace indices newer := by
  cases indices with
  | nil => cases container <;> rfl
  | cons index indices =>
      cases container <;>
        simp only [replace, Composite.replace, Sequence.replace, List.modify_modify_eq,
          Function.comp_def, Value.replace_replace]

theorem replace_comm
    {first second : List Nat} (container : Container) (new other : Value)
    (notInside : ¬ first <+: second) (notAround : ¬ second <+: first) :
    (container.replace first new).replace second other =
      (container.replace second other).replace first new := by
  cases first with
  | nil => exact absurd List.nil_prefix notInside
  | cons index first =>
      cases second with
      | nil => exact absurd List.nil_prefix notAround
      | cons position second =>
          have sameSlot : index = position → ∀ value : Value,
              (value.replace first new).replace second other =
                (value.replace second other).replace first new := by
            intro same value
            apply value.replace_comm
            · exact fun inside => notInside (List.cons_prefix_cons.mpr ⟨same, inside⟩)
            · exact fun around => notAround (List.cons_prefix_cons.mpr ⟨same.symm, around⟩)
          cases container <;>
            simp only [replace, Composite.replace, Sequence.replace,
              Value.modify_replace_comm _ sameSlot]

end Container

namespace Heap

theorem replace_replace (heap : Heap) (place : Place) (new newer : Value) :
    (heap.replace place new).replace place newer = heap.replace place newer := by
  have sameCells : ((heap.replace place new).replace place newer).cells =
      (heap.replace place newer).cells := by
    apply Array.ext_getElem?
    intro cell
    simp only [getElem?_cells_replace]
    by_cases here : place.cell = cell
    · simp only [if_pos here, Option.map_map, Function.comp_def, Container.replace_replace]
    · simp only [if_neg here]
  exact congrArg Heap.mk sameCells

/-- A place in no cell cannot be written. -/
theorem replace_of_dead
    {heap : Heap} {place : Place} (dead : heap.cells[place.cell]? = none) (new : Value) :
    heap.replace place new = heap := by
  have sameCells : (heap.replace place new).cells = heap.cells := by
    apply Array.ext_getElem?
    intro cell
    rw [getElem?_cells_replace]
    by_cases here : place.cell = cell
    · rw [if_pos here, ← here, dead, Option.map_none]
    · rw [if_neg here]
  exact congrArg Heap.mk sameCells

theorem replace_comm
    {first second : Place} (heap : Heap) (new other : Value) (apart : first.Apart second) :
    (heap.replace first new).replace second other =
      (heap.replace second other).replace first new := by
  have sameCells : ((heap.replace first new).replace second other).cells =
      ((heap.replace second other).replace first new).cells := by
    apply Array.ext_getElem?
    intro cell
    simp only [getElem?_cells_replace]
    by_cases atFirst : first.cell = cell
    · by_cases atSecond : second.cell = cell
      · have sameCell : first.cell = second.cell := atFirst.trans atSecond.symm
        simp only [if_pos atFirst, if_pos atSecond, Option.map_map, Function.comp_def]
        congr 1
        funext container
        apply container.replace_comm
        · exact fun inside => apart.1 ⟨sameCell, inside⟩
        · exact fun around => apart.2 ⟨sameCell.symm, around⟩
      · simp only [if_pos atFirst, if_neg atSecond]
    · simp only [if_neg atFirst]
  exact congrArg Heap.mk sameCells

end Heap

/-! ## Targets after a replacement -/

namespace Container

theorem aim_congr
    {catalog : Catalog Rule} {first second : Container} (same : first.outline = second.outline)
    {terminal : Step} {passed : List Nat}
    (stored : Target.NotComputed (first.aim catalog terminal passed)) :
    second.aim catalog terminal passed = first.aim catalog terminal passed := by
  cases first with
  | composite first =>
      cases second with
      | sequence second => simp [outline] at same
      | composite second =>
          simp only [outline, Outline.composite.injEq] at same
          have selects : second.select catalog terminal = first.select catalog terminal := by
            simp only [Composite.select, same.1]
          simp only [aim, selects] at stored ⊢
          cases selected : first.select catalog terminal with
          | error error => rfl
          | ok placed =>
              cases kind : placed.member.kind with
              | field => simp [kind]
              | property rule =>
                  have aimed := stored passed first placed rule
                  simp [selected, kind] at aimed
  | sequence first =>
      cases second with
      | composite second => simp [outline] at same
      | sequence second =>
          simp only [outline, Outline.sequence.injEq] at same
          simp only [aim, Sequence.select, Sequence.typeName, same]

theorem slot_replace_of_ne
    {container : Container} {index position : Nat} (different : index ≠ position)
    (indices : List Nat) (new : Value) :
    (container.replace (index :: indices) new).slot position = container.slot position := by
  simp only [slot, List.getD_eq_getElem?_getD, slots_replace_cons,
    List.getElem?_modify_ne _ _ different]

/-- A struct on the way down to a replaced slot is there afterwards, with the slot in it
replaced. -/
theorem structAt_replace
    {container : Container} {index : Nat} {hop : Step} {inner : Composite} {indices : List Nat}
    (found : (container.slot index).structAt hop = .ok inner) (nonempty : indices ≠ [])
    (new : Value) :
    ((container.replace (index :: indices) new).slot index).structAt hop =
      .ok (inner.replace indices new) := by
  have present := getElem?_slots_of_structAt found
  rw [Value.structAt_eq_ok_iff, Composite.toValue_replace nonempty, slot,
    List.getD_eq_getElem?_getD, slots_replace_cons, List.getElem?_modify_eq, present]
  rfl

theorem target_nil (catalog : Catalog Rule) (terminal : Step) (container : Container) :
    container.target catalog [] terminal = container.aim catalog terminal [] :=
  rfl

theorem target_cons_eq_slot_iff
    {catalog : Catalog Rule} {hop : Step} {hops : List Step} {terminal : Step}
    {container : Container} {indices : List Nat} {type : SlotType} :
    container.target catalog (hop :: hops) terminal = .ok (.slot indices type) ↔
      ∃ index inner further, container.storage catalog hop = .ok index ∧
        (container.slot index).structAt hop = .ok inner ∧
        (composite inner).target catalog hops terminal = .ok (.slot further type) ∧
        indices = index :: further := by
  rw [target_cons]
  constructor
  · intro aimed
    cases stored : container.storage catalog hop with
    | error error => simp [stored] at aimed
    | ok index =>
        cases found : (container.slot index).structAt hop with
        | error error => simp [stored, found] at aimed
        | ok inner =>
            cases below : (composite inner).target catalog hops terminal with
            | error error => simp [stored, found, below, Except.map] at aimed
            | ok target =>
                simp only [stored, found, below, Except.map, Except.ok.injEq] at aimed
                cases target with
                | computed further owner placed rule => cases aimed
                | slot further belowType =>
                    cases aimed
                    exact ⟨index, inner, further, rfl, found, below, rfl⟩
  · rintro ⟨index, inner, further, stored, found, aimed, rfl⟩
    simp only [stored, found, aimed]
    rfl

/-- The slot that is replaced stays the target. -/
theorem target_replace_self
    {catalog : Catalog Rule} {hops : List Step} {terminal : Step} {container : Container}
    {indices : List Nat} {type : SlotType}
    (aimed : container.target catalog hops terminal = .ok (.slot indices type)) (new : Value) :
    (container.replace indices new).target catalog hops terminal = .ok (.slot indices type) := by
  induction hops generalizing container indices with
  | nil =>
      rw [target_nil] at aimed ⊢
      have same := container.outline_replace indices new
      rw [aim_congr same.symm (by simp [aimed]), aimed]
  | cons hop hops inductionHypothesis =>
      obtain ⟨index, inner, further, stored, found, rest, rfl⟩ := target_cons_eq_slot_iff.mp aimed
      have same := container.outline_replace (index :: further) new
      refine target_cons_eq_slot_iff.mpr
        ⟨index, inner.replace further new, further, ?_, ?_, inductionHypothesis rest, rfl⟩
      · rw [storage_congr catalog same, stored]
      · exact structAt_replace found (indices_ne_nil_of_target rest) new

/-- The first step to a stored slot selects the first of the positions. -/
theorem exists_first_of_target
    {catalog : Catalog Rule} {hops : List Step} {terminal : Step} {container : Container}
    {indices : List Nat} {type : SlotType}
    (aimed : container.target catalog hops terminal = .ok (.slot indices type)) :
    ∃ step index further, (hops ++ [terminal]).head? = some step ∧
      container.storage catalog step = .ok index ∧ indices = index :: further := by
  cases hops with
  | nil =>
      obtain ⟨index, stored, rfl⟩ := storage_of_aim_slot aimed
      exact ⟨terminal, index, [], rfl, stored, rfl⟩
  | cons hop hops =>
      obtain ⟨index, inner, further, stored, _, _, rfl⟩ := target_cons_eq_slot_iff.mp aimed
      exact ⟨hop, index, further, rfl, stored, rfl⟩

/-- Only the slot that the first step selects matters for a target. -/
theorem target_congr
    {catalog : Catalog Rule} {hops : List Step} {terminal : Step} {first second : Container}
    (same : first.outline = second.outline)
    (stored : Target.NotComputed (first.target catalog hops terminal))
    (sameSlot : ∀ step index, (hops ++ [terminal]).head? = some step →
      first.storage catalog step = .ok index → second.slot index = first.slot index) :
    second.target catalog hops terminal = first.target catalog hops terminal := by
  cases hops with
  | nil => exact aim_congr same stored
  | cons hop hops =>
      rw [target_cons, target_cons, ← storage_congr catalog same]
      cases selected : first.storage catalog hop with
      | error error => rfl
      | ok index => simp only [sameSlot hop index rfl selected]

section Parted

variable {catalog : Catalog Rule} {otherHops : List Step} {terminal otherTerminal : Step}
  {indices : List Nat} {type : SlotType}

/-- Steps that part at once use different slots. -/
theorem target_replace_of_head?_ne
    {container : Container} {hops : List Step} (separates : catalog.SeparatesSlots)
    (aimed : container.target catalog hops terminal = .ok (.slot indices type))
    (stored : Target.NotComputed (container.target catalog otherHops otherTerminal))
    (parted : (hops ++ [terminal]).head? ≠ (otherHops ++ [otherTerminal]).head?) (new : Value) :
    (container.replace indices new).target catalog otherHops otherTerminal =
        container.target catalog otherHops otherTerminal ∧
      ∀ otherIndices otherType,
        container.target catalog otherHops otherTerminal = .ok (.slot otherIndices otherType) →
          ¬ indices <+: otherIndices ∧ ¬ otherIndices <+: indices := by
  obtain ⟨step, index, further, first, stepStored, rfl⟩ := exists_first_of_target aimed
  have different : ∀ other position, (otherHops ++ [otherTerminal]).head? = some other →
      container.storage catalog other = .ok position → index ≠ position := by
    rintro other position otherFirst otherStored rfl
    apply parted
    rw [first, otherFirst, separates container step other index stepStored otherStored]
  constructor
  · refine target_congr (container.outline_replace _ new).symm stored ?_
    intro other position otherFirst otherStored
    exact slot_replace_of_ne (different other position otherFirst otherStored) further new
  · intro otherIndices otherType otherAimed
    obtain ⟨other, position, below, otherFirst, otherStored, rfl⟩ :=
      exists_first_of_target otherAimed
    have notSame := different other position otherFirst otherStored
    constructor
    · exact fun inside => notSame (List.cons_prefix_cons.mp inside).1
    · exact fun around => notSame (List.cons_prefix_cons.mp around).1.symm

/-- Behind steps that part somewhere, what is replaced for one of them does not matter for the
other: they lead to parts of which neither lies in the other. -/
theorem target_replace_of_apart
    {container : Container} {hops : List Step} (separates : catalog.SeparatesSlots)
    (aimed : container.target catalog hops terminal = .ok (.slot indices type))
    (stored : Target.NotComputed (container.target catalog otherHops otherTerminal))
    (notInside : ¬ hops ++ [terminal] <+: otherHops ++ [otherTerminal])
    (notAround : ¬ otherHops ++ [otherTerminal] <+: hops ++ [terminal]) (new : Value) :
    (container.replace indices new).target catalog otherHops otherTerminal =
        container.target catalog otherHops otherTerminal ∧
      ∀ otherIndices otherType,
        container.target catalog otherHops otherTerminal = .ok (.slot otherIndices otherType) →
          ¬ indices <+: otherIndices ∧ ¬ otherIndices <+: indices := by
  induction hops generalizing container otherHops indices with
  | nil =>
      apply target_replace_of_head?_ne separates aimed stored
      intro same
      obtain ⟨further, joined⟩ := List.head?_eq_some_iff.mp same.symm
      exact notInside ⟨further, joined.symm⟩
  | cons hop hops inductionHypothesis =>
      by_cases parted : (hop :: hops ++ [terminal]).head? ≠ (otherHops ++ [otherTerminal]).head?
      · exact target_replace_of_head?_ne separates aimed stored parted new
      · have same : some hop = (otherHops ++ [otherTerminal]).head? := not_not.mp parted
        cases otherHops with
        | nil =>
            cases same
            exact absurd ⟨hops ++ [terminal], rfl⟩ notAround
        | cons otherHop otherHops =>
            cases same
            obtain ⟨index, inner, further, hopStored, found, rest, rfl⟩ :=
              target_cons_eq_slot_iff.mp aimed
            have outline := container.outline_replace (index :: further) new
            have replaced := structAt_replace found (indices_ne_nil_of_target rest) new
            have whole : container.target catalog (hop :: otherHops) otherTerminal =
                ((composite inner).target catalog otherHops otherTerminal).map
                  (Target.under index) := by
              rw [target_cons, hopStored]
              simp only [found]
            have innerStored : Target.NotComputed
                ((composite inner).target catalog otherHops otherTerminal) := by
              intro below owner placed rule computed
              apply stored (index :: below) owner placed rule
              rw [whole, computed]
              rfl
            obtain ⟨sameBelow, apartBelow⟩ := inductionHypothesis rest innerStored
              (fun inside => notInside (List.cons_prefix_cons.mpr ⟨rfl, inside⟩))
              (fun around => notAround (List.cons_prefix_cons.mpr ⟨rfl, around⟩))
            constructor
            · rw [whole, target_cons, storage_congr catalog outline, hopStored, ← sameBelow]
              simp only [replaced]
              rfl
            · intro otherIndices otherType otherAimed
              obtain ⟨position, again, below, otherStored, foundAgain, otherRest, rfl⟩ :=
                target_cons_eq_slot_iff.mp otherAimed
              rw [hopStored] at otherStored
              cases otherStored
              rw [found] at foundAgain
              cases foundAgain
              obtain ⟨notInsideBelow, notAroundBelow⟩ := apartBelow below otherType otherRest
              constructor
              · exact fun inside => notInsideBelow (List.cons_prefix_cons.mp inside).2
              · exact fun around => notAroundBelow (List.cons_prefix_cons.mp around).2

end Parted

end Container

/-! ## Writes at stored slots -/

namespace Location

variable {catalog : Catalog Rule} {first second location : Location} {heap : Heap}
  {indices : List Nat} {type : SlotType}

/-- In a cell that exists, both anchors stand for its content. -/
theorem exists_container_of_sameCell
    (heap : Heap) (same : first.anchor.cell = second.anchor.cell) :
    heap.cells[first.anchor.cell]? = none ∨
      ∃ container, heap.read first.anchor = container ∧ heap.read second.anchor = container := by
  cases present : heap.cells[first.anchor.cell]? with
  | none => exact .inl rfl
  | some container =>
      refine .inr ⟨container, Heap.read_of_getElem? present, Heap.read_of_getElem? ?_⟩
      rw [← same, present]

/-- Behind positions apart, a replacement for one location leaves the target of the other one as it
is. -/
theorem target_replace_of_apart
    (separates : catalog.SeparatesSlots) (apart : first.Apart second)
    (aimed : first.target catalog heap = .ok (.slot indices type))
    (stored : second.Stored catalog heap) (new : Value) :
    second.target catalog (heap.replace ⟨first.anchor.cell, indices⟩ new) =
      second.target catalog heap := by
  by_cases same : first.anchor.cell = second.anchor.cell
  · rcases exists_container_of_sameCell heap same with dead | ⟨container, firstRead, secondRead⟩
    · rw [heap.replace_of_dead dead]
    · obtain ⟨notInside, notAround⟩ := apart same
      rw [target, firstRead] at aimed
      rw [Stored, target, secondRead] at stored
      rw [target, target, same, Heap.read_replace, secondRead]
      exact (Container.target_replace_of_apart separates aimed stored notInside notAround new).1
  · rw [target, target, Heap.read_replace_of_ne same]

/-- Stored slots behind positions apart are replaced in either order. -/
theorem replace_comm_of_apart
    (separates : catalog.SeparatesSlots) (apart : first.Apart second) {otherIndices : List Nat}
    {otherType : SlotType} (aimed : first.target catalog heap = .ok (.slot indices type))
    (otherAimed : second.target catalog heap = .ok (.slot otherIndices otherType))
    (value other : Value) :
    (heap.replace ⟨first.anchor.cell, indices⟩ value).replace
        ⟨second.anchor.cell, otherIndices⟩ other =
      (heap.replace ⟨second.anchor.cell, otherIndices⟩ other).replace
        ⟨first.anchor.cell, indices⟩ value := by
  by_cases same : first.anchor.cell = second.anchor.cell
  · rcases exists_container_of_sameCell heap same with dead | ⟨container, firstRead, secondRead⟩
    · have otherDead : heap.cells[second.anchor.cell]? = none := same ▸ dead
      rw [heap.replace_of_dead dead, heap.replace_of_dead otherDead, heap.replace_of_dead dead]
    · obtain ⟨notInside, notAround⟩ := apart same
      rw [target, firstRead] at aimed
      rw [target, secondRead] at otherAimed
      have places := (Container.target_replace_of_apart separates aimed (by simp [otherAimed])
        notInside notAround value).2 otherIndices otherType otherAimed
      apply heap.replace_comm
      exact ⟨fun inside => places.1 inside.2, fun around => places.2 around.2⟩
  · apply heap.replace_comm
    exact ⟨fun inside => same inside.1, fun around => same around.1.symm⟩

section Write

variable [Accessors Rule]

/-- What a write comes to, where it stores the value in a slot if anything. Its target decides, in
every heap. -/
theorem write_cases_of_stored
    (stored : location.Stored catalog heap) (value : Value) :
    (∃ error, ∀ other, location.target catalog other = location.target catalog heap →
        location.write catalog value other = .error error other) ∨
      ∃ indices type, location.target catalog heap = .ok (.slot indices type) ∧
        ∀ other, location.target catalog other = location.target catalog heap →
          location.write catalog value other =
            .ok () (other.replace ⟨location.anchor.cell, indices⟩ value) := by
  cases aimed : location.target catalog heap with
  | error error =>
      refine .inl ⟨error, fun other same => ?_⟩
      rw [write_apply, same]
  | ok target =>
      cases target with
      | computed indices owner placed rule => exact absurd aimed (stored indices owner placed rule)
      | slot indices type =>
          by_cases fits : type.accepts catalog value = true
          · refine .inr ⟨indices, type, rfl, fun other same => ?_⟩
            rw [write_apply, same]
            simp only [if_pos fits]
          · refine .inl ⟨.typeMismatch type value.typeName, fun other same => ?_⟩
            rw [write_apply, same]
            simp only [if_neg fits]

/-- Behind positions apart, no write changes the target of the other location. -/
theorem target_heapAfter_write
    (separates : catalog.SeparatesSlots) (apart : first.Apart second)
    (firstStored : first.Stored catalog heap) (secondStored : second.Stored catalog heap)
    (value : Value) :
    second.target catalog (Access.heapAfter (first.write catalog value) heap) =
      second.target catalog heap := by
  rcases write_cases_of_stored firstStored value with
    ⟨error, fails⟩ | ⟨indices, type, aimed, stores⟩
  · rw [Access.heapAfter_of_error (fails heap rfl)]
  · rw [Access.heapAfter_of_ok (stores heap rfl)]
    exact target_replace_of_apart separates apart aimed secondStored value

theorem Apart.symm (apart : first.Apart second) : second.Apart first :=
  fun same => (apart same.symm).symm

theorem answer_write_congr
    {other : Heap} (stored : location.Stored catalog heap) (value : Value)
    (same : location.target catalog other = location.target catalog heap) :
    Access.answer (location.write catalog value other) =
      Access.answer (location.write catalog value heap) := by
  rcases write_cases_of_stored stored value with ⟨error, fails⟩ | ⟨_, _, _, stores⟩
  · rw [fails other same, fails heap rfl]
    rfl
  · rw [stores other same, stores heap rfl]
    rfl

/-- Behind positions apart, both orders of two writes lead to the same graph. -/
theorem heapAfter_write_comm
    (separates : catalog.SeparatesSlots) (apart : first.Apart second)
    (firstStored : first.Stored catalog heap) (secondStored : second.Stored catalog heap)
    (value other : Value) :
    Access.heapAfter (second.write catalog other)
        (Access.heapAfter (first.write catalog value) heap) =
      Access.heapAfter (first.write catalog value)
        (Access.heapAfter (second.write catalog other) heap) := by
  have firstSame := target_heapAfter_write separates apart.symm secondStored firstStored other
  have secondSame := target_heapAfter_write separates apart firstStored secondStored value
  rcases write_cases_of_stored firstStored value with
    ⟨error, fails⟩ | ⟨indices, type, aimed, stores⟩
  · rw [Access.heapAfter_of_error (fails _ firstSame), Access.heapAfter_of_error (fails heap rfl)]
  · rw [Access.heapAfter_of_ok (stores _ firstSame)]
    rcases write_cases_of_stored secondStored other with
      ⟨error, fails⟩ | ⟨otherIndices, otherType, otherAimed, otherStores⟩
    · rw [Access.heapAfter_of_error (fails _ secondSame),
        Access.heapAfter_of_error (fails heap rfl), Access.heapAfter_of_ok (stores heap rfl)]
    · rw [Access.heapAfter_of_ok (otherStores _ secondSame),
        Access.heapAfter_of_ok (otherStores heap rfl), Access.heapAfter_of_ok (stores heap rfl)]
      exact replace_comm_of_apart separates apart aimed otherAimed value other

theorem commute_of_apart
    (separates : catalog.SeparatesSlots) (apart : first.Apart second)
    (firstStored : first.Stored catalog heap) (secondStored : second.Stored catalog heap)
    (value other : Value) :
    first.Commute catalog second value other heap where
  first_eq := answer_write_congr firstStored value
    (target_heapAfter_write separates apart.symm secondStored firstStored other)
  second_eq := answer_write_congr secondStored other
    (target_heapAfter_write separates apart firstStored secondStored value)
  heap_eq := heapAfter_write_comm separates apart firstStored secondStored value other

/-- A write at the same position makes what it would have made without the write before it. -/
theorem write_eq_of_samePosition
    (same : first.SamePosition second) (stored : first.Stored catalog heap) {value other : Value}
    {between after : Heap} (written : first.write catalog value heap = .ok () between)
    (rewritten : second.write catalog other between = .ok () after) :
    second.write catalog other heap = .ok () after := by
  obtain ⟨sameCell, sameHops, sameTerminal⟩ := same
  rcases write_cases_of_stored stored value with ⟨error, fails⟩ | ⟨indices, type, aimed, stores⟩
  · rw [fails heap rfl] at written
    cases written
  · rw [stores heap rfl] at written
    cases written
    rcases exists_container_of_sameCell heap sameCell with
      dead | ⟨container, firstRead, secondRead⟩
    · rwa [heap.replace_of_dead dead] at rewritten
    · have sameTarget : second.target catalog heap = .ok (.slot indices type) := by
        rw [target, secondRead, ← sameHops, ← sameTerminal, ← firstRead]
        exact aimed
      have sameTargetBetween : second.target catalog
          (heap.replace ⟨first.anchor.cell, indices⟩ value) = .ok (.slot indices type) := by
        rw [sameCell, target, Heap.read_replace]
        exact Container.target_replace_self sameTarget value
      rw [write_apply, sameTargetBetween] at rewritten
      rw [write_apply, sameTarget]
      simp only [sameCell, Heap.replace_replace] at rewritten ⊢
      by_cases fits : type.accepts catalog other = true
      · simpa only [if_pos fits] using rewritten
      · simp [if_neg fits] at rewritten

end Write

end Location

/-! ## Both laws -/

/-- Of two writes to stored slots at the same position, the second one leaves what it leaves alone.
Writes to stored slots at positions apart can be done in either order. -/
theorem Location.writes_of_stored
    [Accessors Rule] {catalog : Catalog Rule} {accepted : List (Submission Rule)}
    (records : catalog.Records accepted) {heap : Heap} {first second : Location}
    (firstStored : first.Stored catalog heap) (secondStored : second.Stored catalog heap)
    (value other : Value) :
    (first.SamePosition second → ∀ between after,
        first.write catalog value heap = .ok () between →
          second.write catalog other between = .ok () after →
            second.write catalog other heap = .ok () after) ∧
      (first.Apart second → first.Commute catalog second value other heap) := by
  constructor
  · intro same between after written rewritten
    exact write_eq_of_samePosition same firstStored written rewritten
  · exact fun apart =>
      commute_of_apart records.separatesSlots apart firstStored secondStored value other

/-- The numbers of the pair of the node share the cell and the struct that holds them. -/
theorem Location.writes_of_stored_ring :
    let first : Location := ⟨Ring.handle, [.member "pair"], .member "x"⟩
    let second : Location := ⟨Ring.handle, [.member "pair"], .member "y"⟩
    first.Apart second ∧ first.Commute Ring.catalog second (.int 5) (.int 6) Ring.heap ∧
      first.Commute Ring.catalog second (.int 5) (.text "six") Ring.heap ∧
      first.write Ring.catalog (.int 5) Ring.heap = .ok () (Ring.heapWith 5 2) ∧
      first.write Ring.catalog (.int 7) (Ring.heapWith 5 2) = .ok () (Ring.heapWith 7 2) ∧
      first.write Ring.catalog (.int 7) Ring.heap = .ok () (Ring.heapWith 7 2) := by
  intro first second
  have records : Ring.catalog.Records [⟨"main", Ring.node⟩, ⟨"main", Ring.pair⟩] :=
    .accepted (.accepted .empty rfl) rfl
  have firstTarget : first.target Ring.catalog Ring.heap = .ok (.slot [0, 0] .int) := by
    rfl
  have secondTarget : second.target Ring.catalog Ring.heap = .ok (.slot [0, 1] .int) := by
    rfl
  have firstStored : first.Stored Ring.catalog Ring.heap := by simp [Stored, firstTarget]
  have secondStored : second.Stored Ring.catalog Ring.heap := by simp [Stored, secondTarget]
  have apart : first.Apart second := fun _ => by decide
  have written : first.write Ring.catalog (.int 5) Ring.heap = .ok () (Ring.heapWith 5 2) := by
    rfl
  have rewritten : first.write Ring.catalog (.int 7) (Ring.heapWith 5 2) =
      .ok () (Ring.heapWith 7 2) := by
    rfl
  refine ⟨apart, ?_, ?_, written, rewritten, ?_⟩
  · exact (writes_of_stored records firstStored secondStored _ _).2 apart
  · exact (writes_of_stored records firstStored secondStored _ _).2 apart
  · exact (writes_of_stored records firstStored firstStored _ _).1 ⟨rfl, rfl, rfl⟩ _ _ written
      rewritten

end ObjectGraph
