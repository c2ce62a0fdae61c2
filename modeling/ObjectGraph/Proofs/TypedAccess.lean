import ObjectGraph.Access.Edit
import ObjectGraph.Proofs.Access
import ObjectGraph.Proofs.Typing

/-!
# Access keeps types

Reading a path, looking for a location and writing through one all start from well-typed values.
They leave a well-typed heap behind, whether they succeed or fail, and what they answer is well
typed in it. Computed members run code that is not part of the graph. What is asked of it is a law
about the catalog: it answers well-typed values, and a writer keeps its owner well typed and of the
same type.
-/

namespace ObjectGraph

variable {Rule : Type}

/-! ## Laws of computed members -/

/-- Where a computed member belongs to the type of a well-typed owner, reading it gives a well-typed
value, and writing it gives a well-typed owner of the same type. Both keep the heap well typed. -/
structure Catalog.AccessorsKeepTypes [Accessors Rule] (catalog : Catalog Rule) : Prop where
  read : ∀ (owner : Composite) (placed : PlacedMember Rule) (rule : Rule) (heap : Heap),
    placed ∈ (catalog.layout owner.type).members → placed.member.kind = .property rule →
    heap.WellTyped catalog → owner.toValue.WellTyped catalog heap →
      heap.Evolves catalog (Accessors.read rule catalog owner heap).2 ∧
        (Accessors.read rule catalog owner heap).1.WellTyped catalog
          (Accessors.read rule catalog owner heap).2
  write : ∀ (owner : Composite) (placed : PlacedMember Rule) (rule : Rule) (heap : Heap)
    (run : Catalog Rule → Composite → Value → Heap → Composite × Heap) (value : Value),
    placed ∈ (catalog.layout owner.type).members → placed.member.kind = .property rule →
    Accessors.write? rule = some run →
    heap.WellTyped catalog → owner.toValue.WellTyped catalog heap →
    value.WellTyped catalog heap → placed.type.accepts catalog value = true →
      heap.Evolves catalog (run catalog owner value heap).2 ∧
        (run catalog owner value heap).1.type = owner.type ∧
        (run catalog owner value heap).1.toValue.WellTyped catalog
          (run catalog owner value heap).2

/-! ## Accesses that keep the heap well typed -/

namespace Access

variable {Result Next : Type} {catalog : Catalog Rule} {heap : Heap}

/-- An access keeps the heap well typed, and a condition on the final heap holds of its answer. -/
def Ensures (catalog : Catalog Rule) (access : Access Result) (heap : Heap)
    (answer : Heap → Result → Prop) : Prop :=
  match access heap with
  | .ok result after => heap.Evolves catalog after ∧ answer after result
  | .error _ after => heap.Evolves catalog after

theorem Ensures.of_ok
    {access : Access Result} {answer : Heap → Result → Prop} {after : Heap} {result : Result}
    (ensures : Ensures catalog access heap answer) (done : access heap = .ok result after) :
    heap.Evolves catalog after ∧ answer after result := by
  rwa [Ensures, done] at ensures

theorem Ensures.of_error
    {access : Access Result} {answer : Heap → Result → Prop} {after : Heap} {error : AccessError}
    (ensures : Ensures catalog access heap answer) (failed : access heap = .error error after) :
    heap.Evolves catalog after := by
  rwa [Ensures, failed] at ensures

theorem ensures_pure
    {answer : Heap → Result → Prop} {result : Result} (typed : heap.WellTyped catalog)
    (holds : answer heap result) :
    Ensures catalog (pure result) heap answer :=
  ⟨.refl typed, holds⟩

theorem ensures_throw
    {answer : Heap → Result → Prop} (error : AccessError) (typed : heap.WellTyped catalog) :
    Ensures catalog (throw error : Access Result) heap answer :=
  .refl typed

theorem ensures_lift
    {found : Except AccessError Result} {answer : Heap → Result → Prop}
    (typed : heap.WellTyped catalog) (holds : ∀ result, found = .ok result → answer heap result) :
    Ensures catalog (liftM found) heap answer := by
  cases found with
  | error error => exact .refl typed
  | ok result => exact ⟨.refl typed, holds result rfl⟩

theorem ensures_modifyGet
    {change : Heap → Result × Heap} {answer : Heap → Result → Prop}
    (evolves : heap.Evolves catalog (change heap).2)
    (holds : answer (change heap).2 (change heap).1) :
    Ensures catalog (modifyGet change) heap answer :=
  ⟨evolves, holds⟩

/-- What is found without the heap leaves the heap alone. -/
theorem ensures_lift_bind
    {found : Except AccessError Result} {next : Result → Access Next} {answer : Heap → Next → Prop}
    (typed : heap.WellTyped catalog)
    (rest : ∀ result, found = .ok result → Ensures catalog (next result) heap answer) :
    Ensures catalog (liftM found >>= next) heap answer := by
  cases found with
  | error error => exact .refl typed
  | ok result => exact rest result rfl

theorem ensures_get_bind
    {next : Heap → Access Next} {answer : Heap → Next → Prop}
    (rest : Ensures catalog (next heap) heap answer) :
    Ensures catalog (get >>= next) heap answer :=
  rest

theorem Ensures.bind
    {access : Access Result} {next : Result → Access Next} {between : Heap → Result → Prop}
    {answer : Heap → Next → Prop} (first : Ensures catalog access heap between)
    (second : ∀ result middle, heap.Evolves catalog middle → between middle result →
      Ensures catalog (next result) middle answer) :
    Ensures catalog (access >>= next) heap answer := by
  cases done : access heap with
  | error error after =>
      simp only [Ensures, bind_apply, done]
      exact first.of_error done
  | ok result middle =>
      obtain ⟨evolves, holds⟩ := first.of_ok done
      have rest := second result middle evolves holds
      simp only [Ensures, bind_apply, done]
      cases finished : next result middle with
      | error error after => exact evolves.trans (rest.of_error finished)
      | ok final after =>
          obtain ⟨further, answered⟩ := rest.of_ok finished
          exact ⟨evolves.trans further, answered⟩

theorem Ensures.map
    {access : Access Result} {change : Result → Next} {between : Heap → Result → Prop}
    {answer : Heap → Next → Prop} (first : Ensures catalog access heap between)
    (holds : ∀ result after, between after result → answer after (change result)) :
    Ensures catalog (change <$> access) heap answer := by
  cases done : access heap with
  | error error after =>
      simp only [Ensures, map_apply, done]
      exact first.of_error done
  | ok result after =>
      simp only [Ensures, map_apply, done]
      obtain ⟨evolves, held⟩ := first.of_ok done
      exact ⟨evolves, holds result after held⟩

end Access

/-! ## Reading -/

section Reading

variable [Accessors Rule] {catalog : Catalog Rule} {heap : Heap}

theorem Composite.ensures_fetch
    {owner : Composite} (keepTypes : catalog.AccessorsKeepTypes)
    (heapTyped : heap.WellTyped catalog) (typed : owner.toValue.WellTyped catalog heap)
    (step : Step) :
    Access.Ensures catalog (owner.fetch catalog step) heap fun after reading =>
      reading.value.WellTyped catalog after := by
  refine Access.ensures_lift_bind heapTyped fun placed selected => ?_
  have member := mem_of_select selected
  cases kind : placed.member.kind with
  | field => exact Access.ensures_pure heapTyped (wellTyped_slot typed placed.offset)
  | property rule =>
      obtain ⟨evolves, valueTyped⟩ :=
        keepTypes.read owner placed rule heap member kind heapTyped typed
      have computed : Access.Ensures catalog
          (modifyGet (Accessors.read rule catalog owner) : Access Value) heap
          fun after value => value.WellTyped catalog after :=
        Access.ensures_modifyGet evolves valueTyped
      exact computed.bind fun value after later valueTyped =>
        Access.ensures_pure later.typed valueTyped

theorem Value.ensures_fetch
    {value : Value} (keepTypes : catalog.AccessorsKeepTypes)
    (heapTyped : heap.WellTyped catalog) (typed : value.WellTyped catalog heap)
    (reachedBy? : Option Step) (step : Step) :
    Access.Ensures catalog (value.fetch catalog reachedBy? step) heap fun after reading =>
      reading.value.WellTyped catalog after := by
  refine Access.ensures_get_bind (Access.ensures_lift_bind heapTyped fun container opened => ?_)
  have containerTyped := heapTyped.container? typed (Heap.container?_of_openValue opened)
  cases container with
  | composite owner => exact owner.ensures_fetch keepTypes heapTyped containerTyped step
  | sequence elements =>
      refine Access.ensures_lift_bind heapTyped fun found fetched => ?_
      refine Access.ensures_pure heapTyped ?_
      cases selected : elements.select step with
      | error error => simp [Sequence.fetch, selected, Except.map] at fetched
      | ok index =>
          simp only [Sequence.fetch, selected, Except.map, Except.ok.injEq] at fetched
          subst fetched
          exact Sequence.wellTyped_slot containerTyped index

theorem Value.ensures_follow
    {value : Value} (keepTypes : catalog.AccessorsKeepTypes)
    (heapTyped : heap.WellTyped catalog) (typed : value.WellTyped catalog heap)
    (steps : List Step) (reachedBy? : Option Step) :
    Access.Ensures catalog (value.follow catalog steps reachedBy?) heap fun after found =>
      found.WellTyped catalog after := by
  induction steps generalizing value heap reachedBy? with
  | nil => exact Access.ensures_pure heapTyped typed
  | cons step steps inductionHypothesis =>
      have fetched := value.ensures_fetch keepTypes heapTyped typed reachedBy? step
      exact fetched.bind fun reading middle evolves readTyped =>
        inductionHypothesis evolves.typed readTyped (some step)

theorem Value.ensures_get
    {value : Value} (keepTypes : catalog.AccessorsKeepTypes)
    (heapTyped : heap.WellTyped catalog) (typed : value.WellTyped catalog heap) (text : String) :
    Access.Ensures catalog (value.get catalog text) heap fun after found =>
      found.WellTyped catalog after :=
  Access.ensures_lift_bind heapTyped fun path _ =>
    value.ensures_follow keepTypes heapTyped typed path.steps none

/-! ## Looking for a location -/

/-- A walk stands at a well-typed value, and its anchor agrees with its cell. -/
structure Walk.WellTyped (catalog : Catalog Rule) (heap : Heap) (walk : Walk) : Prop where
  value : walk.value.WellTyped catalog heap
  backed : ∀ anchor hops, walk.footing = .held anchor hops → heap.Backs anchor

omit [Accessors Rule] in
theorem Walk.wellTyped_ofRoot {root : Value} (typed : root.WellTyped catalog heap) :
    (Walk.ofRoot root).WellTyped catalog heap := by
  refine ⟨typed, fun anchor hops held => ?_⟩
  cases typed with
  | shared backed =>
      cases held
      exact backed
  | _ => cases held

/-- An anchor is a handle that was read, or the anchor before. -/
theorem Footing.anchor_of_advance
    {footing : Footing} {step : Step} {reading : Reading} {anchor : Handle} {hops : List Step}
    (held : footing.advance step reading = .held anchor hops) :
    reading.value = .shared anchor ∨ ∃ before, footing = .held anchor before := by
  unfold Footing.advance at held
  split at held
  · next handle _ found =>
      cases held
      exact .inl found
  · cases held
  · cases footing with
    | held before passed =>
        cases held
        exact .inr ⟨passed, rfl⟩
    | detached typeName producedBy? => cases held

theorem Walk.ensures_advanceAll
    {walk : Walk} (keepTypes : catalog.AccessorsKeepTypes)
    (heapTyped : heap.WellTyped catalog) (typed : walk.WellTyped catalog heap)
    (steps : List Step) :
    Access.Ensures catalog (walk.advanceAll catalog steps) heap fun after reached =>
      reached.WellTyped catalog after := by
  induction steps generalizing walk heap with
  | nil => exact Access.ensures_pure heapTyped typed
  | cons step steps inductionHypothesis =>
      have fetched := walk.value.ensures_fetch keepTypes heapTyped typed.value walk.reachedBy? step
      have advanced : Access.Ensures catalog (walk.advance catalog step) heap fun after reached =>
          reached.WellTyped catalog after := by
        refine fetched.bind fun reading after evolves readTyped => ?_
        refine Access.ensures_pure evolves.typed ⟨readTyped, fun anchor hops held => ?_⟩
        rcases Footing.anchor_of_advance held with read | ⟨before, kept⟩
        · rw [read] at readTyped
          cases readTyped with
          | shared backed => exact backed
        · exact evolves.grows anchor (typed.backed anchor before kept)
      exact advanced.bind fun reached middle evolves reachedTyped =>
        inductionHypothesis evolves.typed reachedTyped

/-- The anchor of a location that was found agrees with its cell. -/
theorem Value.ensures_locate
    {root : Value} (keepTypes : catalog.AccessorsKeepTypes)
    (heapTyped : heap.WellTyped catalog) (typed : root.WellTyped catalog heap) (path : Path) :
    Access.Ensures catalog (root.locate catalog path) heap fun after location =>
      after.Backs location.anchor := by
  have walked := Walk.ensures_advanceAll keepTypes heapTyped (Walk.wellTyped_ofRoot typed) path.init
  refine walked.bind fun walk middle evolves reached => ?_
  refine Access.ensures_get_bind (Access.ensures_lift_bind evolves.typed fun owner _ => ?_)
  refine Access.ensures_lift_bind evolves.typed fun _ _ => ?_
  refine Access.ensures_lift evolves.typed fun location located => ?_
  cases footing : walk.footing with
  | detached typeName producedBy? => simp [Footing.locate, footing] at located
  | held anchor hops =>
      simp only [Footing.locate, footing, Except.ok.injEq] at located
      subst located
      exact reached.backed anchor hops footing

/-! ## Writing -/

theorem Composite.ensures_put
    {owner : Composite} {value : Value} (wellFormed : catalog.WellFormed)
    (keepTypes : catalog.AccessorsKeepTypes) (heapTyped : heap.WellTyped catalog)
    (typed : owner.toValue.WellTyped catalog heap) (valueTyped : value.WellTyped catalog heap)
    (step : Step) :
    Access.Ensures catalog (owner.put catalog step value) heap fun after updated =>
      updated.type = owner.type ∧ updated.toValue.WellTyped catalog after := by
  refine Access.ensures_lift_bind heapTyped fun placed selected => ?_
  have member := mem_of_select selected
  split
  · next accepted =>
      cases kind : placed.member.kind with
      | field =>
          have stored := PlacedMember.stored?_eq_some_iff.mpr ⟨kind, rfl⟩
          exact Access.ensures_pure heapTyped
            ⟨rfl, wellTyped_setSlot wellFormed typed member stored accepted valueTyped⟩
      | property rule =>
          cases writer : Accessors.write? rule with
          | none =>
              simp only [writer]
              exact Access.ensures_throw _ heapTyped
          | some run =>
              obtain ⟨evolves, written⟩ := keepTypes.write owner placed rule heap run value member
                kind writer heapTyped typed valueTyped accepted
              simp only [writer]
              exact ⟨evolves, written⟩
  · exact Access.ensures_throw _ heapTyped

theorem Composite.ensures_putAt
    {owner : Composite} {value : Value} (wellFormed : catalog.WellFormed)
    (keepTypes : catalog.AccessorsKeepTypes) (heapTyped : heap.WellTyped catalog)
    (typed : owner.toValue.WellTyped catalog heap) (valueTyped : value.WellTyped catalog heap)
    (terminal : Step) (hops : List Step) :
    Access.Ensures catalog (owner.putAt catalog terminal value hops) heap fun after updated =>
      updated.type = owner.type ∧ updated.toValue.WellTyped catalog after := by
  induction hops generalizing owner with
  | nil => exact owner.ensures_put wellFormed keepTypes heapTyped typed valueTyped terminal
  | cons hop hops inductionHypothesis =>
      refine Access.ensures_lift_bind heapTyped fun index found => ?_
      refine Access.ensures_lift_bind heapTyped fun inner structured => ?_
      obtain ⟨placed, selected, kind, rfl⟩ := storage_eq_ok_iff.mp found
      have member := mem_of_select selected
      have stored := PlacedMember.stored?_eq_some_iff.mpr ⟨kind, rfl⟩
      have held := Value.structAt_eq_ok_iff.mp structured
      have innerTyped := wellTyped_slot typed placed.offset
      have fits := fitsLayout_layout (wellTyped_toValue_iff.mp typed).1
      have accepted := fits.accepted placed member placed.offset stored
      rw [held] at innerTyped accepted
      refine (inductionHypothesis innerTyped).bind fun updated middle evolves written => ?_
      obtain ⟨sameType, updatedTyped⟩ := written
      refine Access.ensures_pure evolves.typed ⟨rfl, ?_⟩
      have stillTyped := typed.of_grows evolves.grows
      refine wellTyped_setSlot wellFormed stillTyped member stored ?_ updatedTyped
      rwa [SlotType.accepts_toValue_congr catalog _ sameType]

omit [Accessors Rule] in
theorem Sequence.wellTyped_of_put
    {elements updated : Sequence} {value : Value} {step : Step}
    (typed : (Container.sequence elements).WellTyped catalog heap)
    (valueTyped : value.WellTyped catalog heap)
    (put : elements.put catalog step value = .ok updated) :
    updated.element = elements.element ∧
      (Container.sequence updated).WellTyped catalog heap := by
  simp only [Sequence.put, bind, Except.bind] at put
  cases selected : elements.select step with
  | error error => simp [selected] at put
  | ok index =>
      simp only [selected] at put
      split at put
      · next accepted =>
          cases put
          exact ⟨rfl, wellTyped_setSlot typed accepted valueTyped⟩
      · cases put

theorem Sequence.ensures_putAt
    {elements : Sequence} {value : Value} (wellFormed : catalog.WellFormed)
    (keepTypes : catalog.AccessorsKeepTypes) (heapTyped : heap.WellTyped catalog)
    (typed : (Container.sequence elements).WellTyped catalog heap)
    (valueTyped : value.WellTyped catalog heap) (terminal : Step) (hops : List Step) :
    Access.Ensures catalog (elements.putAt catalog terminal value hops) heap fun after updated =>
      updated.element = elements.element ∧
        (Container.sequence updated).WellTyped catalog after := by
  cases hops with
  | nil => exact Access.ensures_lift heapTyped fun updated => wellTyped_of_put typed valueTyped
  | cons hop hops =>
      refine Access.ensures_lift_bind heapTyped fun index selected => ?_
      refine Access.ensures_lift_bind heapTyped fun inner structured => ?_
      have held := Value.structAt_eq_ok_iff.mp structured
      obtain ⟨_, inside⟩ := select_eq_ok_iff.mp selected
      have present : elements.slot index ∈ elements.items := by
        simp [Sequence.slot, inside]
      obtain ⟨accepted, innerTyped⟩ := typed _ present
      rw [held] at innerTyped accepted
      have put := inner.ensures_putAt wellFormed keepTypes heapTyped innerTyped valueTyped
        terminal hops
      refine put.bind fun updated middle evolves written => ?_
      obtain ⟨sameType, updatedTyped⟩ := written
      refine Access.ensures_pure evolves.typed ⟨rfl, ?_⟩
      refine wellTyped_setSlot (Container.WellTyped.of_grows typed evolves.grows) ?_ updatedTyped
      rwa [SlotType.accepts_toValue_congr catalog _ sameType]

/-- A write into a container keeps its type and its slots well typed. -/
theorem Container.ensures_putAt
    {container : Container} {value : Value} (wellFormed : catalog.WellFormed)
    (keepTypes : catalog.AccessorsKeepTypes) (heapTyped : heap.WellTyped catalog)
    (typed : container.WellTyped catalog heap) (valueTyped : value.WellTyped catalog heap)
    (terminal : Step) (hops : List Step) :
    Access.Ensures catalog (container.putAt catalog terminal value hops) heap fun after updated =>
      updated.WellTyped catalog after ∧
        ∀ cell, updated.handle cell = container.handle cell := by
  cases container with
  | composite owner =>
      have put := owner.ensures_putAt wellFormed keepTypes heapTyped typed valueTyped terminal hops
      refine put.map fun updated after written => ?_
      obtain ⟨sameType, updatedTyped⟩ := written
      exact ⟨updatedTyped, fun cell => by simp only [handle, sameType]⟩
  | sequence elements =>
      have put :=
        elements.ensures_putAt wellFormed keepTypes heapTyped typed valueTyped terminal hops
      refine put.map fun updated after written => ?_
      obtain ⟨sameElement, updatedTyped⟩ := written
      exact ⟨updatedTyped, fun cell => by simp only [handle, sameElement]⟩

/-- Writing a well-typed value through a location keeps the heap well typed. -/
theorem Location.ensures_write
    {location : Location} {value : Value} (wellFormed : catalog.WellFormed)
    (keepTypes : catalog.AccessorsKeepTypes) (heapTyped : heap.WellTyped catalog)
    (backed : heap.Backs location.anchor) (valueTyped : value.WellTyped catalog heap) :
    Access.Ensures catalog (location.write catalog value) heap fun _ _ => True := by
  have typed := heapTyped.read backed
  have put := Container.ensures_putAt wellFormed keepTypes heapTyped typed valueTyped
    location.terminal location.hops
  refine Access.ensures_get_bind (put.bind fun updated middle evolves written => ?_)
  obtain ⟨updatedTyped, sameHandle⟩ := written
  have agrees : updated.handle location.anchor.cell = location.anchor := by
    rw [sameHandle]
    exact (Heap.read_of_backs backed).2
  exact ⟨.write evolves.typed (evolves.grows _ backed) agrees updatedTyped, trivial⟩

theorem Value.ensures_set
    {root value : Value} (wellFormed : catalog.WellFormed)
    (keepTypes : catalog.AccessorsKeepTypes) (heapTyped : heap.WellTyped catalog)
    (rootTyped : root.WellTyped catalog heap) (valueTyped : value.WellTyped catalog heap)
    (text : String) :
    Access.Ensures catalog (root.set catalog text value) heap fun _ _ => True := by
  refine Access.ensures_lift_bind heapTyped fun path _ => ?_
  refine (root.ensures_locate keepTypes heapTyped rootTyped path).bind fun location middle evolves
    backed => ?_
  have written := location.ensures_write wellFormed keepTypes evolves.typed backed
    (valueTyped.of_grows evolves.grows)
  exact written.bind fun _ after later _ => Access.ensures_pure later.typed trivial

end Reading

end ObjectGraph
