import ObjectGraph.Examples.Ring
import ObjectGraph.Proofs.Addressability
import ObjectGraph.Proofs.Target

/-!
# Writing where a location was just found

The search for a location walks over copies: it fetches one value after the other. A write goes down
through the live storage of the anchor. In the heap in which the location was found both arrive at
the same container, because every recorded step leads to a struct that a slot holds in place. So the
write cannot fail on its way down, and its last step is known to exist: only the type of the value
and a member that is read-only can stop it.
-/

namespace ObjectGraph

variable {Rule : Type}

/-! ## What a write can come to -/

namespace Container

/-- The declared type of the slot or the computed member that a step selects. -/
def declaredType? (catalog : Catalog Rule) : Container → Step → Option SlotType
  | composite owner, .member name =>
      ((catalog.layout owner.type).member? name).map PlacedMember.type
  | sequence elements, .element index =>
      if index < elements.items.length then some elements.element else none
  | _, _ => none

/-- Whether a step selects a computed member that cannot be written. -/
def ReadOnly [Accessors Rule] (catalog : Catalog Rule) : Container → Step → Prop
  | composite owner, .member name =>
      ∃ placed, (catalog.layout owner.type).member? name = some placed ∧
        placed.member.writable? = some false
  | _, _ => False

end Container

/-- What a write to an existing slot comes to, in terms of the declared type of the slot. The value
has to fit, then the member has to be writable, and nothing else can go wrong. -/
structure WriteVerdict [Accessors Rule] (catalog : Catalog Rule) (container : Container)
    (terminal : Step) (type : SlotType) (value : Value) (heap : Heap)
    (outcome : EStateM.Result AccessError Heap Unit) : Prop where
  mismatch_iff :
    outcome = .error (.typeMismatch type value.typeName) heap ↔
      type.accepts catalog value = false
  readOnly_iff :
    (∃ name, outcome = .error (.readOnlyMember container.typeName name) heap) ↔
      type.accepts catalog value = true ∧ container.ReadOnly catalog terminal
  ok_iff :
    (∃ after, outcome = .ok () after) ↔
      type.accepts catalog value = true ∧ ¬ container.ReadOnly catalog terminal
  failures : ∀ error after, outcome = .error error after →
    error = .typeMismatch type value.typeName ∨
      ∃ name, error = .readOnlyMember container.typeName name

theorem WriteVerdict.of_cases
    [Accessors Rule] {catalog : Catalog Rule} {container : Container} {terminal : Step}
    {type : SlotType} {value : Value} {heap : Heap}
    {outcome : EStateM.Result AccessError Heap Unit}
    (misfit : type.accepts catalog value = false →
      outcome = .error (.typeMismatch type value.typeName) heap)
    (readOnly : type.accepts catalog value = true → container.ReadOnly catalog terminal →
      ∃ name, outcome = .error (.readOnlyMember container.typeName name) heap)
    (writable : type.accepts catalog value = true → ¬ container.ReadOnly catalog terminal →
      ∃ after, outcome = .ok () after) :
    WriteVerdict catalog container terminal type value heap outcome := by
  cases fits : type.accepts catalog value with
  | false =>
      obtain rfl := misfit fits
      constructor <;> simp [fits]
  | true =>
      by_cases fixed : container.ReadOnly catalog terminal
      · obtain ⟨name, rfl⟩ := readOnly fits fixed
        constructor <;> simp [fits, fixed]
      · obtain ⟨after, rfl⟩ := writable fits fixed
        constructor <;> simp [fits, fixed]

/-! ## The last step -/

theorem Composite.exists_select_of_probe
    {catalog : Catalog Rule} {owner : Composite} {step : Step}
    (allowed : (Container.composite owner).probe catalog step = .ok ()) :
    ∃ name placed, step = .member name ∧ owner.select catalog step = .ok placed ∧
      (catalog.layout owner.type).member? name = some placed := by
  rw [Container.probe, probe] at allowed
  cases selected : owner.select catalog step with
  | error error => simp [selected, Except.map] at allowed
  | ok placed =>
      obtain ⟨name, named, found⟩ := select_eq_ok_iff.mp selected
      exact ⟨name, placed, named, rfl, found⟩

theorem Sequence.exists_select_of_probe
    {catalog : Catalog Rule} {elements : Sequence} {step : Step}
    (allowed : (Container.sequence elements).probe catalog step = .ok ()) :
    ∃ index, step = .element index ∧ elements.select step = .ok index ∧
      index < elements.items.length := by
  rw [Container.probe, probe] at allowed
  cases selected : elements.select step with
  | error error => simp [selected, Except.map] at allowed
  | ok index =>
      obtain ⟨named, inside⟩ := select_eq_ok_iff.mp selected
      exact ⟨index, named, rfl, inside⟩

section Last

variable [Accessors Rule]

theorem Location.verdict_of_slot
    {catalog : Catalog Rule} {location : Location} {heap : Heap} {indices : List Nat}
    {type : SlotType} {container : Container}
    (aimed : location.target catalog heap = .ok (.slot indices type))
    (stored : ¬ container.ReadOnly catalog location.terminal) (value : Value) :
    WriteVerdict catalog container location.terminal type value heap
      (location.write catalog value heap) := by
  rw [write_apply, aimed]
  refine .of_cases (fun misfit => ?_) (fun _ fixed => absurd fixed stored) fun fits _ => ?_
  · simp [misfit]
  · exact ⟨_, if_pos fits⟩

theorem Location.verdict_of_computed
    {catalog : Catalog Rule} {location : Location} {heap : Heap} {indices : List Nat}
    {owner : Composite} {placed : PlacedMember Rule} {rule : Rule}
    (aimed : location.target catalog heap = .ok (.computed indices owner placed rule))
    (readOnly_iff : (Container.composite owner).ReadOnly catalog location.terminal ↔
      Accessors.write? rule = none) (value : Value) :
    WriteVerdict catalog (.composite owner) location.terminal placed.type value heap
      (location.write catalog value heap) := by
  rw [write_apply, aimed]
  refine .of_cases (fun misfit => ?_) (fun fits fixed => ?_) fun fits free => ?_
  · simp [misfit]
  · simp only [if_pos fits, readOnly_iff.mp fixed]
    exact ⟨placed.name, rfl⟩
  · simp only [if_pos fits]
    cases writer : Accessors.write? rule with
    | none => exact absurd (readOnly_iff.mpr writer) free
    | some write => exact ⟨_, rfl⟩

/-- Where the way down ends at a container that has the last step, the write has a verdict. -/
theorem Location.verdict_of_descend
    {catalog : Catalog Rule} {location : Location} {heap : Heap} {indices : List Nat}
    {container : Container}
    (descended :
      (heap.read location.anchor).descend catalog location.hops = .ok (indices, container))
    (allowed : container.probe catalog location.terminal = .ok ()) :
    ∃ type, container.declaredType? catalog location.terminal = some type ∧
      ∀ value, WriteVerdict catalog container location.terminal type value heap
        (location.write catalog value heap) := by
  have target :
      location.target catalog heap = container.aim catalog location.terminal indices := by
    simp only [Location.target, Container.target, descended]
  cases container with
  | sequence elements =>
      obtain ⟨index, named, selected, inside⟩ := Sequence.exists_select_of_probe allowed
      have aimed : location.target catalog heap =
          .ok (.slot (indices ++ [index]) elements.element) := by
        simp only [target, Container.aim, selected]
      refine ⟨elements.element, ?_, fun value => verdict_of_slot aimed ?_ value⟩
      · simp only [named, Container.declaredType?, if_pos inside]
      · simp [Container.ReadOnly]
  | composite owner =>
      obtain ⟨name, placed, named, selected, found⟩ := Composite.exists_select_of_probe allowed
      have declared : (Container.composite owner).declaredType? catalog location.terminal =
          some placed.type := by
        simp only [named, Container.declaredType?, found, Option.map_some]
      have readOnly_iff : (Container.composite owner).ReadOnly catalog location.terminal ↔
          placed.member.writable? = some false := by
        simp [named, Container.ReadOnly, found]
      refine ⟨placed.type, declared, ?_⟩
      cases kind : placed.member.kind with
      | field =>
          have aimed : location.target catalog heap =
              .ok (.slot (indices ++ [placed.offset]) placed.type) := by
            simp only [target, Container.aim, selected, kind]
          refine verdict_of_slot aimed ?_
          rw [readOnly_iff]
          simp [Member.writable?, kind]
      | property rule =>
          have aimed : location.target catalog heap =
              .ok (.computed indices owner placed rule) := by
            simp only [target, Container.aim, selected, kind]
          refine verdict_of_computed aimed ?_
          rw [readOnly_iff]
          simp [Member.writable?, kind]

end Last

/-! ## The way down -/

/-- From the anchor of a walk, the way down leads to the container that the walk has reached. -/
def Walk.Grounded (catalog : Catalog Rule) (heap : Heap) (walk : Walk) : Prop :=
  ∀ container anchor hops, heap.container? walk.value = some container →
    walk.footing = .held anchor hops →
      ∃ indices, (heap.read anchor).descend catalog hops = .ok (indices, container)

theorem Walk.grounded_ofRoot (catalog : Catalog Rule) (heap : Heap) (root : Value) :
    (Walk.ofRoot root).Grounded catalog heap := by
  intro container anchor hops opened held
  cases root with
  | shared handle =>
      cases held
      cases opened
      exact ⟨[], rfl⟩
  | _ => cases held

theorem Walk.finish_eq_ok_iff
    {catalog : Catalog Rule} {owner : Walk} {terminal : Step} {heap after : Heap}
    {location : Location} :
    owner.finish catalog terminal heap = .ok location after ↔
      ∃ container anchor hops,
        heap.openValue owner.value terminal owner.reachedBy? = .ok container ∧
          container.probe catalog terminal = .ok () ∧ owner.footing = .held anchor hops ∧
          location = ⟨anchor, hops, terminal⟩ ∧ after = heap := by
  rw [finish_apply]
  cases heap.openValue owner.value terminal owner.reachedBy? with
  | error error => simp
  | ok container =>
      cases allowed : container.probe catalog terminal with
      | error error => simp [allowed]
      | ok done =>
          cases footing : owner.footing with
          | detached typeName producedBy? => simp [allowed, Footing.locate]
          | held anchor hops => simp [allowed, Footing.locate, eq_comm]

section Way

variable [Accessors Rule]

/-- A value that was read from storage is in a slot of the container, and reading it has left the
heap alone. -/
theorem Value.slot_of_fetch
    {catalog : Catalog Rule} {value slot : Value} {reachedBy? : Option Step} {step : Step}
    {heap after : Heap}
    (fetched : value.fetch catalog reachedBy? step heap = .ok ⟨slot, .stored⟩ after) :
    ∃ container index, heap.container? value = some container ∧
      container.storage catalog step = .ok index ∧ container.slot index = slot ∧
      after = heap := by
  rw [fetch_apply] at fetched
  cases opened : heap.openValue value step reachedBy? with
  | error error => simp [opened] at fetched
  | ok container =>
      simp only [opened] at fetched
      refine ⟨container, ?_⟩
      cases container with
      | sequence elements =>
          rw [Sequence.fetch_apply] at fetched
          cases selected : elements.select step with
          | error error => simp [selected] at fetched
          | ok index =>
              simp only [selected] at fetched
              cases fetched
              exact ⟨index, Heap.container?_of_openValue opened, selected, rfl, rfl⟩
      | composite owner =>
          simp only [Container.fetch, Composite.fetch_apply] at fetched
          cases selected : owner.select catalog step with
          | error error => simp [selected] at fetched
          | ok placed =>
              simp only [selected] at fetched
              cases kind : placed.member.kind with
              | property rule => simp [kind] at fetched
              | field =>
                  simp only [kind] at fetched
                  cases fetched
                  have stored : owner.storage catalog step = .ok placed.offset :=
                    Composite.storage_eq_ok_iff.mpr ⟨placed, selected, kind, rfl⟩
                  exact ⟨placed.offset, Heap.container?_of_openValue opened, stored, rfl, rfl⟩

theorem Walk.Grounded.advance
    {catalog : Catalog Rule} {walk : Walk} {step : Step} {reading : Reading}
    {heap after : Heap} (grounded : walk.Grounded catalog heap)
    (fetched : walk.value.fetch catalog walk.reachedBy? step heap = .ok reading after) :
    Walk.Grounded catalog after
      ⟨reading.value, some step, walk.footing.advance step reading⟩ := by
  intro inner anchor hops opened held
  obtain ⟨value, origin⟩ := reading
  cases value with
  | shared handle =>
      cases opened
      cases held
      exact ⟨[], rfl⟩
  | struct type fields =>
      cases opened
      cases origin with
      | computed => cases held
      | stored =>
          obtain ⟨container, index, reached, stored, slot, rfl⟩ := Value.slot_of_fetch fetched
          cases footing : walk.footing with
          | detached typeName producedBy? => simp [footing, Footing.advance] at held
          | held oldAnchor oldHops =>
              simp only [footing, Footing.advance, Footing.held.injEq] at held
              obtain ⟨rfl, rfl⟩ := held
              obtain ⟨indices, descended⟩ := grounded container _ _ reached footing
              have found : (container.slot index).structAt step = .ok ⟨type, fields⟩ := by
                rw [slot]
                rfl
              exact ⟨indices ++ [index], Container.descend_concat descended stored found⟩
  | _ => cases opened

theorem Walk.Grounded.advanceAll
    {catalog : Catalog Rule} {steps : List Step} {walk owner : Walk} {heap after : Heap}
    (grounded : walk.Grounded catalog heap)
    (walked : walk.advanceAll catalog steps heap = .ok owner after) :
    owner.Grounded catalog after := by
  induction steps generalizing walk heap with
  | nil =>
      cases walked
      exact grounded
  | cons step steps inductionHypothesis =>
      rw [Walk.advanceAll_cons_apply, Walk.advance_apply] at walked
      cases fetched : walk.value.fetch catalog walk.reachedBy? step heap with
      | error error failedAt => simp [fetched] at walked
      | ok reading middle =>
          simp only [fetched] at walked
          exact inductionHypothesis (grounded.advance fetched) walked

/-- The value that a walk arrives at is the one that a read of the same steps gives. -/
theorem Walk.follow_of_advanceAll
    {catalog : Catalog Rule} {steps : List Step} {walk owner : Walk} {heap after : Heap}
    (walked : walk.advanceAll catalog steps heap = .ok owner after) :
    walk.value.follow catalog steps walk.reachedBy? heap = .ok owner.value after := by
  rw [follow_eq_advanceAll, walked]

/-- Right after the location of a slot has been found, a write to it comes to one of three things.
They are told apart by the declared type of the slot, in the container that a read of the path
without its last step gives, and by whether that slot is a read-only member. -/
theorem Location.verdict_of_locate
    {catalog : Catalog Rule} {root : Value} {path : Path} {heap reached : Heap}
    {location : Location} (located : root.locate catalog path heap = .ok location reached) :
    ∃ owner container type,
      root.follow catalog path.init none heap = .ok owner reached ∧
        reached.container? owner = some container ∧
        container.declaredType? catalog path.last = some type ∧
        ∀ value, WriteVerdict catalog container path.last type value reached
          (location.write catalog value reached) := by
  rw [Value.locate_apply] at located
  cases walked : (Walk.ofRoot root).advanceAll catalog path.init heap with
  | error error failedAt => simp [walked] at located
  | ok owner middle =>
      simp only [walked] at located
      obtain ⟨container, anchor, hops, opened, allowed, footing, rfl, rfl⟩ :=
        Walk.finish_eq_ok_iff.mp located
      have followed : root.follow catalog path.init none heap = .ok owner.value reached :=
        Walk.follow_of_advanceAll walked
      have grounded : owner.Grounded catalog reached :=
        (Walk.grounded_ofRoot catalog heap root).advanceAll walked
      have arrived : reached.container? owner.value = some container :=
        Heap.container?_of_openValue opened
      obtain ⟨indices, descended⟩ := grounded container anchor hops arrived footing
      obtain ⟨type, declared, verdict⟩ :=
        @Location.verdict_of_descend _ _ _ ⟨anchor, hops, path.last⟩ _ _ _ descended allowed
      exact ⟨owner.value, container, type, followed, arrived, declared, verdict⟩

end Way

/-- The copy of the pair of the next node has a location, since its owner is live, and no value can
be written there. -/
theorem Location.verdict_of_locate_copy :
    Ring.root.locate Ring.catalog ⟨[.member "next", .member "copy"], by simp⟩ Ring.heap =
        .ok ⟨Ring.handle, [], .member "copy"⟩ Ring.heap ∧
      ∃ owner container type,
        Ring.root.follow Ring.catalog [.member "next"] none Ring.heap = .ok owner Ring.heap ∧
          Ring.heap.container? owner = some container ∧
          container.declaredType? Ring.catalog (.member "copy") = some type ∧
          ∀ value, WriteVerdict Ring.catalog container (.member "copy") type value Ring.heap
            (Location.write Ring.catalog ⟨Ring.handle, [], .member "copy"⟩ value Ring.heap) :=
  have located :
      Ring.root.locate Ring.catalog ⟨[.member "next", .member "copy"], by simp⟩ Ring.heap =
        .ok ⟨Ring.handle, [], .member "copy"⟩ Ring.heap := by
    rfl
  ⟨located, verdict_of_locate located⟩

end ObjectGraph
