import ObjectGraph.Access.Location
import ObjectGraph.Proofs.Access
import ObjectGraph.Proofs.Place

/-!
# What a location denotes

In a given heap a location denotes a stored slot, or a computed member of a composite. The heap
alone decides which, before any value is written. Writing then has one equation: a stored slot is
replaced at its place, and a computed member runs its rule on the live owner and puts the owner
back.
-/

namespace ObjectGraph

variable {Rule : Type}

/-- What the last step of a location selects. The positions start at the slots of the container at
which the way down begins. -/
inductive Target (Rule : Type) where
  | slot (indices : List Nat) (type : SlotType)
  | computed (indices : List Nat) (owner : Composite) (placed : PlacedMember Rule) (rule : Rule)

def Target.under (index : Nat) : Target Rule → Target Rule
  | slot indices type => slot (index :: indices) type
  | computed indices owner placed rule => computed (index :: indices) owner placed rule

namespace Container

def slot (container : Container) (index : Nat) : Value :=
  container.slots.getD index .null

@[simp]
theorem slot_composite (owner : Composite) (index : Nat) :
    (composite owner).slot index = owner.slot index :=
  rfl

@[simp]
theorem slot_sequence (elements : Sequence) (index : Nat) :
    (sequence elements).slot index = elements.slot index :=
  rfl

def storage (catalog : Catalog Rule) (container : Container) (step : Step) :
    Except AccessError Nat :=
  match container with
  | composite owner => owner.storage catalog step
  | sequence elements => elements.select step

/-- Goes down through the structs in the slots that some steps select. Answers the positions passed
and the container reached. -/
def descend (catalog : Catalog Rule) :
    List Step → Container → Except AccessError (List Nat × Container)
  | [], container => .ok ([], container)
  | hop :: hops, container =>
      match container.storage catalog hop with
      | .error error => .error error
      | .ok index =>
          match (container.slot index).structAt hop with
          | .error error => .error error
          | .ok inner =>
              match descend catalog hops (composite inner) with
              | .error error => .error error
              | .ok (indices, owner) => .ok (index :: indices, owner)

/-- What a step selects for a write into a container that stands behind some positions. -/
def aim (catalog : Catalog Rule) (terminal : Step) (indices : List Nat) :
    Container → Except AccessError (Target Rule)
  | composite owner =>
      match owner.select catalog terminal with
      | .error error => .error error
      | .ok placed =>
          match placed.member.kind with
          | .field => .ok (.slot (indices ++ [placed.offset]) placed.type)
          | .property rule => .ok (.computed indices owner placed rule)
  | sequence elements =>
      match elements.select terminal with
      | .error error => .error error
      | .ok index => .ok (.slot (indices ++ [index]) elements.element)

def target (catalog : Catalog Rule) (hops : List Step) (terminal : Step) (container : Container) :
    Except AccessError (Target Rule) :=
  match container.descend catalog hops with
  | .error error => .error error
  | .ok (indices, owner) => owner.aim catalog terminal indices

end Container

/-- The composite with the owner behind some positions replaced. -/
def Composite.setOwner (composite : Composite) (indices : List Nat) (updated : Composite) :
    Composite :=
  match indices with
  | [] => updated
  | _ :: _ => composite.replace indices updated.toValue

def Container.setOwner (container : Container) (indices : List Nat) (updated : Composite) :
    Container :=
  match indices with
  | [] => .composite updated
  | _ :: _ => container.replace indices updated.toValue

/-- What a location denotes in a heap. -/
def Location.target (catalog : Catalog Rule) (location : Location) (heap : Heap) :
    Except AccessError (Target Rule) :=
  (heap.read location.anchor).target catalog location.hops location.terminal

/-! ## Selecting -/

theorem Composite.select_eq_ok_iff
    {catalog : Catalog Rule} {owner : Composite} {step : Step} {placed : PlacedMember Rule} :
    owner.select catalog step = .ok placed ↔
      ∃ name, step = .member name ∧ (catalog.layout owner.type).member? name = some placed := by
  cases step with
  | element index => simp [select]
  | member name =>
      simp only [select, Step.member.injEq, exists_eq_left']
      cases (catalog.layout owner.type).member? name <;> simp

theorem Composite.storage_eq_ok_iff
    {catalog : Catalog Rule} {owner : Composite} {step : Step} {index : Nat} :
    owner.storage catalog step = .ok index ↔
      ∃ placed, owner.select catalog step = .ok placed ∧ placed.member.kind = .field ∧
        placed.offset = index := by
  simp only [storage, bind, Except.bind, pure, Except.pure]
  cases owner.select catalog step with
  | error error => simp
  | ok placed =>
      cases kind : placed.member.kind with
      | field => simp [kind]
      | property rule => simp [kind, throw, throwThe, MonadExceptOf.throw]

theorem Sequence.select_eq_ok_iff {elements : Sequence} {step : Step} {index : Nat} :
    elements.select step = .ok index ↔ step = .element index ∧ index < elements.items.length := by
  cases step with
  | member name => simp [select]
  | element position =>
      simp only [select, Step.element.injEq]
      by_cases inside : position < elements.items.length
      · rw [if_pos inside]
        constructor
        · intro found
          cases found
          exact ⟨rfl, inside⟩
        · rintro ⟨rfl, _⟩
          rfl
      · rw [if_neg inside]
        constructor
        · intro found
          cases found
        · rintro ⟨rfl, contradictory⟩
          exact absurd contradictory inside

/-! ## The way down -/

namespace Container

theorem aim_under
    (catalog : Catalog Rule) (terminal : Step) (index : Nat) (indices : List Nat)
    (container : Container) :
    container.aim catalog terminal (index :: indices) =
      (container.aim catalog terminal indices).map (Target.under index) := by
  cases container with
  | composite owner =>
      simp only [aim]
      cases owner.select catalog terminal with
      | error error => rfl
      | ok placed =>
          simp only
          cases placed.member.kind <;> simp [Except.map, Target.under]
  | sequence elements =>
      simp only [aim]
      cases elements.select terminal <;> rfl

theorem target_cons
    (catalog : Catalog Rule) (hop : Step) (hops : List Step) (terminal : Step)
    (container : Container) :
    container.target catalog (hop :: hops) terminal =
      match container.storage catalog hop with
      | .error error => .error error
      | .ok index =>
          match (container.slot index).structAt hop with
          | .error error => .error error
          | .ok inner =>
              ((composite inner).target catalog hops terminal).map (Target.under index) := by
  simp only [target, descend]
  cases container.storage catalog hop with
  | error error => rfl
  | ok index =>
      simp only
      cases (container.slot index).structAt hop with
      | error error => rfl
      | ok inner =>
          simp only
          cases descend catalog hops (composite inner) with
          | error error => rfl
          | ok reached => exact aim_under catalog terminal index reached.1 reached.2

theorem descend_cons_eq_ok_iff
    {catalog : Catalog Rule} {hop : Step} {hops : List Step} {container owner : Container}
    {indices : List Nat} :
    container.descend catalog (hop :: hops) = .ok (indices, owner) ↔
      ∃ index inner further, container.storage catalog hop = .ok index ∧
        (container.slot index).structAt hop = .ok inner ∧
        (composite inner).descend catalog hops = .ok (further, owner) ∧
        indices = index :: further := by
  simp only [descend]
  cases container.storage catalog hop with
  | error error => simp
  | ok index =>
      cases found : (container.slot index).structAt hop with
      | error error => simp [found]
      | ok inner =>
          cases rest : (composite inner).descend catalog hops with
          | error error => simp [found, rest]
          | ok reached =>
              obtain ⟨further, final⟩ := reached
              simp only [found, rest, Except.ok.injEq, Prod.mk.injEq]
              constructor
              · rintro ⟨rfl, rfl⟩
                exact ⟨index, inner, further, rfl, found, rest, rfl⟩
              · rintro ⟨_, _, _, rfl, foundAgain, restAgain, rfl⟩
                rw [found] at foundAgain
                cases foundAgain
                rw [rest] at restAgain
                cases restAgain
                exact ⟨rfl, rfl⟩

theorem descend_concat
    {catalog : Catalog Rule} {hops : List Step} {hop : Step} {container owner : Container}
    {indices : List Nat} {index : Nat} {inner : Composite}
    (descended : container.descend catalog hops = .ok (indices, owner))
    (stored : owner.storage catalog hop = .ok index)
    (found : (owner.slot index).structAt hop = .ok inner) :
    container.descend catalog (hops ++ [hop]) = .ok (indices ++ [index], composite inner) := by
  induction hops generalizing container indices with
  | nil =>
      cases descended
      exact descend_cons_eq_ok_iff.mpr ⟨index, inner, [], stored, found, rfl, rfl⟩
  | cons first hops inductionHypothesis =>
      obtain ⟨position, middle, further, firstStored, firstFound, rest, rfl⟩ :=
        descend_cons_eq_ok_iff.mp descended
      have prolonged := inductionHypothesis rest
      rw [List.cons_append, List.cons_append]
      exact descend_cons_eq_ok_iff.mpr
        ⟨position, middle, _, firstStored, firstFound, prolonged, rfl⟩

theorem aim_of_storage
    {catalog : Catalog Rule} {terminal : Step} {container : Container} {index : Nat}
    (stored : container.storage catalog terminal = .ok index) (indices : List Nat) :
    ∃ type, container.aim catalog terminal indices = .ok (.slot (indices ++ [index]) type) := by
  cases container with
  | sequence elements =>
      rw [storage] at stored
      exact ⟨elements.element, by rw [aim, stored]⟩
  | composite owner =>
      obtain ⟨placed, selected, kind, rfl⟩ := Composite.storage_eq_ok_iff.mp stored
      exact ⟨placed.type, by simp [aim, selected, kind]⟩

theorem probe_of_storage
    {catalog : Catalog Rule} {terminal : Step} {container : Container} {index : Nat}
    (stored : container.storage catalog terminal = .ok index) :
    container.probe catalog terminal = .ok () := by
  cases container with
  | sequence elements =>
      rw [storage] at stored
      rw [probe, Sequence.probe, stored]
      rfl
  | composite owner =>
      obtain ⟨placed, selected, _⟩ := Composite.storage_eq_ok_iff.mp stored
      rw [probe, Composite.probe, selected]
      rfl

theorem storage_of_aim_slot
    {catalog : Catalog Rule} {terminal : Step} {container : Container}
    {passed indices : List Nat} {type : SlotType}
    (aimed : container.aim catalog terminal passed = .ok (.slot indices type)) :
    ∃ index, container.storage catalog terminal = .ok index ∧ indices = passed ++ [index] := by
  cases container with
  | composite owner =>
      simp only [aim] at aimed
      cases selected : owner.select catalog terminal with
      | error error => simp [selected] at aimed
      | ok placed =>
          simp only [selected] at aimed
          cases kind : placed.member.kind with
          | property rule => simp [kind] at aimed
          | field =>
              simp only [kind, Except.ok.injEq, Target.slot.injEq] at aimed
              refine ⟨placed.offset, ?_, aimed.1.symm⟩
              exact Composite.storage_eq_ok_iff.mpr ⟨placed, selected, kind, rfl⟩
  | sequence elements =>
      simp only [aim] at aimed
      cases selected : elements.select terminal with
      | error error => simp [selected] at aimed
      | ok index =>
          simp only [selected, Except.ok.injEq, Target.slot.injEq] at aimed
          exact ⟨index, selected, aimed.1.symm⟩

theorem eq_owner_of_aim_computed
    {catalog : Catalog Rule} {terminal : Step} {container : Container}
    {passed indices : List Nat} {owner : Composite} {placed : PlacedMember Rule} {rule : Rule}
    (aimed : container.aim catalog terminal passed = .ok (.computed indices owner placed rule)) :
    container = composite owner ∧ indices = passed := by
  cases container with
  | sequence elements =>
      simp only [aim] at aimed
      cases selected : elements.select terminal <;> simp [selected] at aimed
  | composite found =>
      simp only [aim] at aimed
      cases selected : found.select catalog terminal with
      | error error => simp [selected] at aimed
      | ok member =>
          simp only [selected] at aimed
          cases kind : member.member.kind with
          | field => simp [kind] at aimed
          | property token =>
              simp only [kind, Except.ok.injEq, Target.computed.injEq] at aimed
              obtain ⟨rfl, rfl, _⟩ := aimed
              exact ⟨rfl, rfl⟩

theorem target_eq_ok_iff
    {catalog : Catalog Rule} {hops : List Step} {terminal : Step} {container : Container}
    {target : Target Rule} :
    container.target catalog hops terminal = .ok target ↔
      ∃ passed owner, container.descend catalog hops = .ok (passed, owner) ∧
        owner.aim catalog terminal passed = .ok target := by
  simp only [Container.target]
  cases descended : container.descend catalog hops with
  | error error => simp
  | ok reached =>
      obtain ⟨passed, owner⟩ := reached
      simp

theorem indices_ne_nil_of_target
    {catalog : Catalog Rule} {hops : List Step} {terminal : Step} {container : Container}
    {indices : List Nat} {type : SlotType}
    (aimed : container.target catalog hops terminal = .ok (.slot indices type)) :
    indices ≠ [] := by
  obtain ⟨passed, owner, _, aims⟩ := target_eq_ok_iff.mp aimed
  obtain ⟨index, _, rfl⟩ := storage_of_aim_slot aims
  simp

end Container

theorem Value.structAt_eq_ok_iff {value : Value} {step : Step} {inner : Composite} :
    value.structAt step = .ok inner ↔ value = inner.toValue := by
  cases value <;> cases inner <;> simp [structAt, Composite.toValue]

/-! ## Putting a value in -/

private theorem modify_eq_set_getD
    (slots : List Value) (index : Nat) (change : Value → Value) :
    slots.modify index change = slots.set index (change (slots.getD index .null)) := by
  rw [List.modify_eq_set, List.getD_eq_getElem?_getD]
  rfl

theorem Composite.toValue_replace
    {owner : Composite} {indices : List Nat} {new : Value} (nonempty : indices ≠ []) :
    (owner.replace indices new).toValue = owner.toValue.replace indices new := by
  cases indices with
  | nil => exact absurd rfl nonempty
  | cons index indices => rfl

theorem Composite.replace_cons
    (owner : Composite) (index : Nat) (indices : List Nat) (new : Value) :
    owner.replace (index :: indices) new =
      owner.setSlot index ((owner.slot index).replace indices new) := by
  simp only [replace, setSlot, slot, modify_eq_set_getD]

theorem Sequence.replace_cons
    (elements : Sequence) (index : Nat) (indices : List Nat) (new : Value) :
    elements.replace (index :: indices) new =
      elements.setSlot index ((elements.slot index).replace indices new) := by
  simp only [replace, setSlot, slot, modify_eq_set_getD]

theorem Value.replace_toValue
    (inner updated : Composite) (indices : List Nat) :
    inner.toValue.replace indices updated.toValue = (inner.setOwner indices updated).toValue := by
  cases indices with
  | nil => rw [Value.replace_nil, Composite.setOwner]
  | cons index indices => rw [Composite.setOwner, Composite.toValue_replace (by simp)]

section Put

variable [Accessors Rule]

/-- Puts a value into a target: the value has to fit, and a computed member has to be writable. The
two functions say what becomes of the container when a slot or an owner in it is replaced. -/
def Target.put {Result : Type} (catalog : Catalog Rule) (value : Value)
    (replace : List Nat → Value → Result) (setOwner : List Nat → Composite → Result) :
    Target Rule → Access Result
  | .slot indices type => fun heap =>
      if type.accepts catalog value then
        .ok (replace indices value) heap
      else
        .error (.typeMismatch type value.typeName) heap
  | .computed indices owner placed rule => fun heap =>
      if placed.type.accepts catalog value then
        match Accessors.write? rule with
        | some write =>
            .ok (setOwner indices (write catalog owner value heap).1)
              (write catalog owner value heap).2
        | none => .error (.readOnlyMember owner.type.name placed.name) heap
      else
        .error (.typeMismatch placed.type value.typeName) heap

theorem Target.map_put
    {First Second : Type} (change : First → Second) (target : Target Rule)
    (catalog : Catalog Rule) (value : Value)
    (replace : List Nat → Value → First) (setOwner : List Nat → Composite → First)
    (heap : Heap) :
    (change <$> target.put catalog value replace setOwner) heap =
      target.put catalog value (fun indices new => change (replace indices new))
        (fun indices updated => change (setOwner indices updated)) heap := by
  rw [Access.map_apply]
  cases target with
  | slot indices type =>
      simp only [put]
      by_cases fits : type.accepts catalog value = true
      · simp only [if_pos fits]
      · simp only [if_neg fits]
  | computed indices owner placed rule =>
      simp only [put]
      by_cases fits : placed.type.accepts catalog value = true
      · simp only [if_pos fits]
        cases Accessors.write? rule <;> rfl
      · simp only [if_neg fits]

/-- Putting a value behind one more struct is putting it into that struct and rebuilding what holds
the struct. -/
theorem Target.put_under
    {Result : Type} {catalog : Catalog Rule} {value : Value} {inner : Composite}
    {hops : List Step} {terminal : Step} {target : Target Rule} {index : Nat}
    {replace : List Nat → Value → Result} {setOwner : List Nat → Composite → Result}
    {rebuild : Composite → Result}
    (aimed : (Container.composite inner).target catalog hops terminal = .ok target)
    (replaces : ∀ indices, indices ≠ [] →
      replace (index :: indices) value = rebuild (inner.replace indices value))
    (setsOwner : ∀ indices updated,
      setOwner (index :: indices) updated = rebuild (inner.setOwner indices updated))
    (heap : Heap) :
    (target.under index).put catalog value replace setOwner heap =
      (rebuild <$> target.put catalog value inner.replace inner.setOwner) heap := by
  rw [map_put]
  cases target with
  | slot indices type =>
      simp only [under, put, replaces indices (Container.indices_ne_nil_of_target aimed)]
  | computed indices owner placed rule => simp only [under, put, setsOwner]

theorem Composite.put_apply
    (catalog : Catalog Rule) (owner : Composite) (terminal : Step) (value : Value) (heap : Heap) :
    owner.put catalog terminal value heap =
      match (Container.composite owner).target catalog [] terminal with
      | .error error => .error error heap
      | .ok target => target.put catalog value owner.replace owner.setOwner heap := by
  simp only [put, Container.target, Container.descend, Container.aim, Access.bind_apply,
    Access.lift_apply]
  cases owner.select catalog terminal with
  | error error => rfl
  | ok placed =>
      simp only
      cases placed.member.kind with
      | field =>
          simp only [Target.put, List.nil_append, replace_cons, Value.replace_nil]
          split <;> rfl
      | property rule =>
          simp only [Target.put]
          split
          · cases Accessors.write? rule <;> rfl
          · rfl

theorem Composite.putAt_apply
    (catalog : Catalog Rule) (owner : Composite) (hops : List Step) (terminal : Step)
    (value : Value) (heap : Heap) :
    owner.putAt catalog terminal value hops heap =
      match (Container.composite owner).target catalog hops terminal with
      | .error error => .error error heap
      | .ok target => target.put catalog value owner.replace owner.setOwner heap := by
  induction hops generalizing owner with
  | nil => exact owner.put_apply catalog terminal value heap
  | cons hop hops inductionHypothesis =>
      rw [Container.target_cons]
      simp only [putAt, Access.bind_apply, Access.lift_apply, Container.storage,
        Container.slot_composite]
      cases owner.storage catalog hop with
      | error error => rfl
      | ok index =>
          simp only
          cases found : (owner.slot index).structAt hop with
          | error error => rfl
          | ok inner =>
              have held : owner.slot index = inner.toValue := Value.structAt_eq_ok_iff.mp found
              simp only
              rw [inductionHypothesis inner]
              cases aimed : (Container.composite inner).target catalog hops terminal with
              | error error => rfl
              | ok target =>
                  have rebuilt :
                      (target.under index).put catalog value owner.replace owner.setOwner heap =
                        ((fun updated => owner.setSlot index updated.toValue) <$>
                          target.put catalog value inner.replace inner.setOwner) heap := by
                    refine Target.put_under aimed ?_ ?_ heap
                    · intro indices nonempty
                      rw [replace_cons, held, toValue_replace nonempty]
                    · intro indices updated
                      rw [setOwner, replace_cons, held, Value.replace_toValue]
                  simp only [Except.map, Access.pure_apply, rebuilt, Access.map_apply]

theorem Sequence.putAt_apply
    (catalog : Catalog Rule) (elements : Sequence) (hops : List Step) (terminal : Step)
    (value : Value) (heap : Heap) :
    (Container.sequence <$> elements.putAt catalog terminal value hops) heap =
      match (Container.sequence elements).target catalog hops terminal with
      | .error error => .error error heap
      | .ok target =>
          target.put catalog value (Container.sequence elements).replace
            (Container.sequence elements).setOwner heap := by
  cases hops with
  | nil =>
      simp only [putAt, put, Container.target, Container.descend, Container.aim,
        Access.map_apply, Access.lift_apply]
      cases elements.select terminal with
      | error error => rfl
      | ok index =>
          simp only [Target.put, List.nil_append, Container.replace, replace_cons,
            Value.replace_nil, bind, Except.bind]
          by_cases fits : elements.element.accepts catalog value = true
          · rw [if_pos fits, if_pos fits]
            rfl
          · rw [if_neg fits, if_neg fits]
            rfl
  | cons hop hops =>
      rw [Container.target_cons]
      simp only [putAt, Access.bind_apply, Access.map_apply, Access.lift_apply,
        Container.storage, Container.slot_sequence]
      cases elements.select hop with
      | error error => rfl
      | ok index =>
          simp only
          cases found : (elements.slot index).structAt hop with
          | error error => rfl
          | ok inner =>
              have held : elements.slot index = inner.toValue := Value.structAt_eq_ok_iff.mp found
              simp only
              rw [inner.putAt_apply catalog]
              cases aimed : (Container.composite inner).target catalog hops terminal with
              | error error => rfl
              | ok target =>
                  have rebuilt :
                      (target.under index).put catalog value
                          (Container.sequence elements).replace
                          (Container.sequence elements).setOwner heap =
                        ((fun updated =>
                            Container.sequence (elements.setSlot index updated.toValue)) <$>
                          target.put catalog value inner.replace inner.setOwner) heap := by
                    refine Target.put_under aimed ?_ ?_ heap
                    · intro indices nonempty
                      rw [Container.replace, replace_cons, held,
                        Composite.toValue_replace nonempty]
                    · intro indices updated
                      rw [Container.setOwner, Container.replace, replace_cons, held,
                        Value.replace_toValue]
                  simp only [Except.map, Access.pure_apply, rebuilt, Access.map_apply]
                  cases target.put catalog value inner.replace inner.setOwner heap <;> rfl

theorem Container.putAt_apply
    (catalog : Catalog Rule) (container : Container) (hops : List Step) (terminal : Step)
    (value : Value) (heap : Heap) :
    container.putAt catalog terminal value hops heap =
      match container.target catalog hops terminal with
      | .error error => .error error heap
      | .ok target => target.put catalog value container.replace container.setOwner heap := by
  cases container with
  | sequence elements => exact elements.putAt_apply catalog hops terminal value heap
  | composite owner =>
      have setsOwner :
          (composite owner).setOwner =
            fun indices updated => composite (owner.setOwner indices updated) := by
        funext indices updated
        cases indices <;> rfl
      rw [putAt, Access.map_apply, owner.putAt_apply catalog, setsOwner]
      cases (composite owner).target catalog hops terminal with
      | error error => rfl
      | ok target =>
          simp only
          rw [← Access.map_apply]
          exact target.map_put composite catalog value owner.replace owner.setOwner heap

end Put

/-! ## Writing through a location -/

theorem Heap.write_replace (heap : Heap) (handle : Handle) (indices : List Nat) (new : Value) :
    heap.write handle ((heap.read handle).replace indices new) =
      heap.replace ⟨handle.cell, indices⟩ new := by
  have sameCells :
      (heap.write handle ((heap.read handle).replace indices new)).cells =
        (heap.replace ⟨handle.cell, indices⟩ new).cells := by
    apply Array.ext_getElem?
    intro cell
    rw [getElem?_cells_replace, write, Array.getElem?_setIfInBounds]
    by_cases same : handle.cell = cell
    · subst same
      by_cases live : handle.cell < heap.cells.size
      · simp [read, live]
      · simp [live]
    · rw [if_neg same, if_neg same]
  cases written : heap.write handle ((heap.read handle).replace indices new)
  cases replaced : heap.replace ⟨handle.cell, indices⟩ new
  simp_all

theorem Location.write_apply [Accessors Rule]
    (catalog : Catalog Rule) (location : Location) (value : Value) (heap : Heap) :
    location.write catalog value heap =
      match location.target catalog heap with
      | .error error => .error error heap
      | .ok (.slot indices type) =>
          if type.accepts catalog value then
            .ok () (heap.replace ⟨location.anchor.cell, indices⟩ value)
          else
            .error (.typeMismatch type value.typeName) heap
      | .ok (.computed indices owner placed rule) =>
          if placed.type.accepts catalog value then
            match Accessors.write? rule with
            | some write =>
                .ok () ((write catalog owner value heap).2.write location.anchor
                  ((heap.read location.anchor).setOwner indices
                    (write catalog owner value heap).1))
            | none => .error (.readOnlyMember owner.type.name placed.name) heap
          else
            .error (.typeMismatch placed.type value.typeName) heap := by
  simp only [write, Access.bind_apply, Access.get_apply, Access.modify_apply,
    Container.putAt_apply, target]
  cases (heap.read location.anchor).target catalog location.hops location.terminal with
  | error error => rfl
  | ok target =>
      cases target with
      | slot indices type =>
          simp only [Target.put]
          by_cases fits : type.accepts catalog value = true
          · simp only [if_pos fits, Heap.write_replace]
          · simp only [if_neg fits]
      | computed indices owner placed rule =>
          simp only [Target.put]
          by_cases fits : placed.type.accepts catalog value = true
          · simp only [if_pos fits]
            cases Accessors.write? rule <;> rfl
          · simp only [if_neg fits]

/-- A write that succeeds has stored a value that fits in a slot, or it has run the writer of a
computed member with such a value. -/
theorem Location.write_cases
    [Accessors Rule] {catalog : Catalog Rule} {location : Location} {value : Value}
    {heap after : Heap} (written : location.write catalog value heap = .ok () after) :
    (∃ indices type, location.target catalog heap = .ok (.slot indices type) ∧
        type.accepts catalog value = true ∧
        after = heap.replace ⟨location.anchor.cell, indices⟩ value) ∨
      ∃ indices owner placed rule write,
        location.target catalog heap = .ok (.computed indices owner placed rule) ∧
          placed.type.accepts catalog value = true ∧ Accessors.write? rule = some write ∧
          after = (write catalog owner value heap).2.write location.anchor
            ((heap.read location.anchor).setOwner indices (write catalog owner value heap).1) := by
  rw [write_apply] at written
  cases aimed : location.target catalog heap with
  | error error => simp [aimed] at written
  | ok target =>
      simp only [aimed] at written
      cases target with
      | slot indices type =>
          by_cases fits : type.accepts catalog value = true
          · simp only [if_pos fits, EStateM.Result.ok.injEq, true_and] at written
            exact .inl ⟨indices, type, rfl, fits, written.symm⟩
          · simp [if_neg fits] at written
      | computed indices owner placed rule =>
          by_cases fits : placed.type.accepts catalog value = true
          · simp only [if_pos fits] at written
            cases writer : Accessors.write? rule with
            | none => simp [writer] at written
            | some write =>
                simp only [writer, EStateM.Result.ok.injEq, true_and] at written
                exact .inr ⟨indices, owner, placed, rule, write, rfl, fits, writer, written.symm⟩
          · simp [if_neg fits] at written

end ObjectGraph
