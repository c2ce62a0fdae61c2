import ObjectGraph.Examples.Ring
import ObjectGraph.Proofs.Target

/-!
# Reading what was just written

Reading copies every struct on its way, and writing goes through the live storage of an anchor.
Along steps that select stored slots both denote the same places, so that a read right after a
write finds the value, unless the write has redirected the way itself: this happens only when the
way passes through the written slot before its end.
-/

namespace ObjectGraph

variable {Rule : Type}

/-- Where the container that a value stands for is: a handle points at a cell, and a struct is where
it is held. -/
def Value.home (held? : Option Place) : Value → Option Place
  | shared handle => some ⟨handle.cell, []⟩
  | _ => held?

/-- The place of a slot of the container that a value stands for. -/
def Value.slotPlace? (held? : Option Place) (value : Value) (index : Nat) : Option Place :=
  (value.home held?).map fun home => home.push index

/-- Steps that all select stored slots. The places of the slots before the last one and the place of
the last one are listed; slots of a struct that is held nowhere have none. -/
inductive Trail (catalog : Catalog Rule) (heap : Heap) :
    Option Place → Value → List Step → List (Option Place) → Option Place → Prop
  | last {held? : Option Place} {value slot : Value} {container : Container} {step : Step}
      {index : Nat}
      (opened : heap.container? value = some container)
      (stored : container.storage catalog step = .ok index)
      (present : container.slots[index]? = some slot) :
      Trail catalog heap held? value [step] [] (value.slotPlace? held? index)
  | cons {held? target? : Option Place} {value slot : Value} {container : Container} {step : Step}
      {steps : List Step} {earlier : List (Option Place)} {index : Nat}
      (opened : heap.container? value = some container)
      (stored : container.storage catalog step = .ok index)
      (present : container.slots[index]? = some slot)
      (rest : Trail catalog heap (value.slotPlace? held? index) slot steps earlier target?) :
      Trail catalog heap held? value (step :: steps) (value.slotPlace? held? index :: earlier)
        target?

theorem Value.home_eq_some
    {value : Value} {held? : Option Place} {home : Place}
    (housed : value.home held? = some home) :
    home.indices = [] ∨ held? = some home := by
  cases value with
  | shared handle =>
      cases housed
      exact .inl rfl
  | _ => exact .inr housed

/-! ## Steps to stored slots -/

section Fetch

variable [Accessors Rule]

theorem Container.fetch_of_storage
    {catalog : Catalog Rule} {container : Container} {step : Step} {index : Nat} {slot : Value}
    (stored : container.storage catalog step = .ok index)
    (present : container.slots[index]? = some slot) (heap : Heap) :
    container.fetch catalog step heap = .ok ⟨slot, .stored⟩ heap := by
  have held : container.slot index = slot := by
    rw [Container.slot, List.getD_eq_getElem?_getD, present]
    rfl
  cases container with
  | sequence elements =>
      rw [storage] at stored
      rw [slot_sequence] at held
      rw [Sequence.fetch_apply, stored, ← held]
  | composite owner =>
      obtain ⟨placed, selected, kind, rfl⟩ := Composite.storage_eq_ok_iff.mp stored
      rw [slot_composite] at held
      simp only [Container.fetch, Composite.fetch_apply, selected, kind, held]

theorem Value.fetch_of_storage
    {catalog : Catalog Rule} {heap : Heap} {value slot : Value} {container : Container}
    {step : Step} {index : Nat}
    (opened : heap.container? value = some container)
    (stored : container.storage catalog step = .ok index)
    (present : container.slots[index]? = some slot) (reachedBy? : Option Step) :
    value.fetch catalog reachedBy? step heap = .ok ⟨slot, .stored⟩ heap := by
  rw [Value.fetch_apply, heap.openValue_of_container? opened]
  exact container.fetch_of_storage stored present heap

end Fetch

/-! ## The way to the written slot -/

/-- A walk stands where its value is held: from its anchor the way down leads to the same container,
at the same place. A walk without an anchor is held nowhere. -/
def Walk.StandsAt (catalog : Catalog Rule) (heap : Heap) (walk : Walk) (held? : Option Place) :
    Prop :=
  ∀ container, heap.container? walk.value = some container →
    match walk.footing with
    | .held anchor hops =>
        ∃ indices, (heap.read anchor).descend catalog hops = .ok (indices, container) ∧
          walk.value.home held? = some ⟨anchor.cell, indices⟩
    | .detached _ _ => walk.value.home held? = none

theorem Walk.standsAt_ofRoot (catalog : Catalog Rule) (heap : Heap) (root : Value) :
    (Walk.ofRoot root).StandsAt catalog heap none := by
  intro container opened
  cases root with
  | shared handle =>
      cases opened
      exact ⟨[], rfl, rfl⟩
  | struct type fields => rfl
  | _ => cases opened

theorem Walk.StandsAt.advance
    {catalog : Catalog Rule} {heap : Heap} {walk : Walk} {held? : Option Place}
    (stands : walk.StandsAt catalog heap held?) {container : Container} {step : Step}
    {index : Nat} {slot : Value}
    (opened : heap.container? walk.value = some container)
    (stored : container.storage catalog step = .ok index)
    (present : container.slots[index]? = some slot) :
    Walk.StandsAt catalog heap
      ⟨slot, some step, walk.footing.advance step ⟨slot, .stored⟩⟩
      (walk.value.slotPlace? held? index) := by
  intro inner innerOpened
  cases slot with
  | shared handle =>
      cases innerOpened
      exact ⟨[], rfl, rfl⟩
  | struct type fields =>
      cases innerOpened
      have stood := stands container opened
      cases footing : walk.footing with
      | detached typeName producedBy? =>
          rw [footing] at stood
          have nowhere : walk.value.home held? = none := stood
          change walk.value.slotPlace? held? index = none
          rw [Value.slotPlace?, nowhere]
          rfl
      | held anchor hops =>
          rw [footing] at stood
          obtain ⟨indices, descended, somewhere⟩ := stood
          have found : (container.slot index).structAt step = .ok ⟨type, fields⟩ := by
            rw [Container.slot, List.getD_eq_getElem?_getD, present]
            rfl
          refine ⟨indices ++ [index], Container.descend_concat descended stored found, ?_⟩
          change walk.value.slotPlace? held? index = _
          rw [Value.slotPlace?, somewhere]
          rfl
  | _ => cases innerOpened

/-- The walk to the owner of the last slot runs through and stands where the owner is held. -/
theorem Trail.advanceAll
    [Accessors Rule] {catalog : Catalog Rule} {heap : Heap} {init : List Step} {terminal : Step}
    {walk : Walk} {held? target? : Option Place} {earlier : List (Option Place)}
    (trail : Trail catalog heap held? walk.value (init ++ [terminal]) earlier target?)
    (stands : walk.StandsAt catalog heap held?) :
    ∃ owner ownerHeld?,
      walk.advanceAll catalog init heap = .ok owner heap ∧
        owner.StandsAt catalog heap ownerHeld? ∧
        Trail catalog heap ownerHeld? owner.value [terminal] [] target? := by
  induction init generalizing walk held? earlier with
  | nil =>
      refine ⟨walk, held?, rfl, stands, ?_⟩
      cases trail with
      | last opened stored present => exact .last opened stored present
      | cons opened stored present rest => cases rest
  | cons step init inductionHypothesis =>
      rw [List.cons_append] at trail
      generalize others : init ++ [terminal] = steps at trail
      cases trail with
      | last opened stored present => simp at others
      | @cons _ _ _ slot container _ _ _ index opened stored present rest =>
          subst others
          have fetched := Value.fetch_of_storage opened stored present walk.reachedBy?
          have advanced : walk.advance catalog step heap =
              .ok ⟨slot, some step, walk.footing.advance step ⟨slot, .stored⟩⟩ heap := by
            rw [Walk.advance_apply, fetched]
          obtain ⟨owner, ownerHeld?, reached, ownerStands, ownerTrail⟩ :=
            inductionHypothesis rest (stands.advance opened stored present)
          refine ⟨owner, ownerHeld?, ?_, ownerStands, ownerTrail⟩
          rw [Walk.advanceAll_cons_apply, advanced]
          exact reached

/-- The location at the end of a trail denotes the stored slot at the place where the trail ends. -/
theorem Trail.target_of_locate
    [Accessors Rule] {catalog : Catalog Rule} {heap reached : Heap} {root : Value} {path : Path}
    {location : Location} {earlier : List (Option Place)} {target? : Option Place}
    (trail : Trail catalog heap none root path.steps earlier target?)
    (located : root.locate catalog path heap = .ok location reached) :
    ∃ indices type, reached = heap ∧
      location.target catalog heap = .ok (.slot indices type) ∧
      target? = some ⟨location.anchor.cell, indices⟩ := by
  have walkTrail :
      Trail catalog heap none (Walk.ofRoot root).value (path.init ++ [path.last]) earlier
        target? := by
    rw [path.init_append_last]
    exact trail
  obtain ⟨owner, ownerHeld?, walked, stands, lastStep⟩ :=
    walkTrail.advanceAll (Walk.standsAt_ofRoot catalog heap root)
  simp only [Value.locate_apply, walked, Walk.finish_apply] at located
  cases lastStep with
  | @last _ _ slot container _ index opened stored present =>
      have stood := stands container opened
      simp only [heap.openValue_of_container? opened, Container.probe_of_storage stored] at located
      cases footing : owner.footing with
      | detached typeName producedBy? => simp [footing, Footing.locate] at located
      | held anchor hops =>
          rw [footing] at stood
          obtain ⟨indices, descended, somewhere⟩ := stood
          simp only [footing, Footing.locate, EStateM.Result.ok.injEq] at located
          obtain ⟨rfl, rfl⟩ := located
          obtain ⟨type, aims⟩ := Container.aim_of_storage stored indices
          refine ⟨indices ++ [index], type, rfl, ?_, ?_⟩
          · simp only [Location.target, Container.target, descended, aims]
          · rw [Value.slotPlace?, somewhere]
            rfl

/-- A write at the end of a trail replaces the slot at the place that the trail ends at. -/
theorem Trail.replace_of_set
    [Accessors Rule] {catalog : Catalog Rule} {heap after : Heap} {root value : Value}
    {text : String} {path : Path} {change : Change} {earlier : List (Option Place)}
    {target? : Option Place}
    (parsed : Path.parse text = .ok path)
    (trail : Trail catalog heap none root path.steps earlier target?)
    (assigned : root.set catalog text value heap = .ok change after) :
    ∃ written, target? = some written ∧ after = heap.replace written value := by
  obtain ⟨assignedPath, location, reached, parsedAgain, located, done, _⟩ :=
    Value.set_eq_ok_iff.mp assigned
  obtain rfl : path = assignedPath := by
    rw [parsed] at parsedAgain
    exact Except.ok.inj parsedAgain
  obtain ⟨indices, type, rfl, aimed, ends⟩ := trail.target_of_locate located
  refine ⟨_, ends, ?_⟩
  rcases Location.write_cases done with
    ⟨_, _, aimedAgain, _, replaced⟩ | ⟨_, _, _, _, _, computed, _⟩
  · rw [aimed] at aimedAgain
    cases aimedAgain
    exact replaced
  · rw [aimed] at computed
    cases computed

/-! ## The same way after the write -/

theorem Composite.storage_congr
    {catalog : Catalog Rule} {first second : Composite} (sameType : first.type = second.type)
    (step : Step) :
    first.storage catalog step = second.storage catalog step := by
  simp only [storage, select, sameType]

/-- Where a step leads is decided by the type and the number of slots alone. -/
theorem Container.storage_congr
    (catalog : Catalog Rule) {first second : Container} (same : first.outline = second.outline)
    (step : Step) :
    first.storage catalog step = second.storage catalog step := by
  cases first with
  | composite first =>
      cases second with
      | sequence second => simp [outline] at same
      | composite second =>
          simp only [outline, Outline.composite.injEq] at same
          exact Composite.storage_congr same.1 step
  | sequence first =>
      cases second with
      | composite second => simp [outline] at same
      | sequence second =>
          simp only [outline, Outline.sequence.injEq] at same
          simp only [storage, Sequence.select, Sequence.typeName, same]

theorem Container.length_slots_of_outline
    {first second : Container} (same : first.outline = second.outline) :
    first.slots.length = second.slots.length := by
  cases first <;> cases second <;> simp_all [outline, slots]

/-- What a value turns into when a slot is replaced. A value that is held somewhere outside the
slot is what is held there afterwards, and a value that is held nowhere stays. -/
def Value.Becomes (heap : Heap) (written : Place) (new : Value) (held? : Option Place)
    (before after : Value) : Prop :=
  match held? with
  | none => after = before
  | some held =>
      ¬ written.Encloses held ∧ heap.value? held = some before ∧
        (heap.replace written new).value? held = some after

namespace Value.Becomes

variable {heap : Heap} {written : Place} {new before after : Value} {held? : Option Place}

theorem eq_or_replace (becomes : Value.Becomes heap written new held? before after) :
    after = before ∨ ∃ index rest, after = before.replace (index :: rest) new := by
  cases held? with
  | none => exact .inl becomes
  | some held =>
      obtain ⟨outside, heldBefore, heldAfter⟩ := becomes
      by_cases around : held.Encloses written
      · obtain ⟨rest, inside⟩ := Place.encloses_iff.mp around
        have slot := Heap.indices_ne_nil_of_value? heldBefore
        rw [heap.value?_replace_of_encloses new inside slot, heldBefore] at heldAfter
        cases rest with
        | nil => exact absurd (by rw [inside]; simp [Place.Encloses.refl]) outside
        | cons index rest => exact .inr ⟨index, rest, (Option.some.inj heldAfter).symm⟩
      · rw [heap.value?_replace_of_apart new ⟨outside, around⟩, heldBefore] at heldAfter
        exact .inl (Option.some.inj heldAfter).symm

theorem not_encloses_home
    (slotted : written.indices ≠ []) (becomes : Value.Becomes heap written new held? before after)
    {home : Place} (housed : before.home held? = some home) :
    ¬ written.Encloses home := by
  rcases Value.home_eq_some housed with cell | somewhere
  · intro encloses
    have short : written.indices <+: home.indices := encloses.2
    rw [cell] at short
    exact slotted (List.prefix_nil.mp short)
  · rw [somewhere] at becomes
    exact becomes.1

theorem home_eq (becomes : Value.Becomes heap written new held? before after) :
    after.home held? = before.home held? := by
  rcases becomes.eq_or_replace with same | ⟨index, rest, replaced⟩
  · rw [same]
  · rw [replaced]
    cases before <;> rfl

end Value.Becomes

theorem Heap.container?_of_home
    {heap : Heap} {value : Value} {held? : Option Place} {home : Place} {container : Container}
    (held : ∀ place, held? = some place → heap.value? place = some value)
    (housed : value.home held? = some home)
    (atHome : heap.containerAt? home = some container) :
    heap.container? value = some container := by
  have whenHeld :
      ∀ place, held? = some place → heap.containerAt? place = some container →
        value.asStruct?.map .composite = some container := by
    intro place somewhere found
    have present := held place somewhere
    have slot := indices_ne_nil_of_value? present
    rw [containerAt?_of_indices_ne_nil slot, present] at found
    exact found
  cases value with
  | shared handle =>
      simp only [Value.home, Option.some.injEq] at housed
      subst housed
      have stored : heap.cells[handle.cell]? = some container := atHome
      simp [container?, read, stored]
  | _ => exact whenHeld home housed atHome

theorem Heap.containerAt?_home
    {heap : Heap} {value slot : Value} {held? : Option Place} {home : Place}
    {container : Container} {index : Nat}
    (held : ∀ place, held? = some place → heap.value? place = some value)
    (housed : value.home held? = some home)
    (opened : heap.container? value = some container)
    (present : container.slots[index]? = some slot) :
    heap.containerAt? home = some container := by
  cases value with
  | shared handle =>
      simp only [Value.home, Option.some.injEq] at housed
      subst housed
      simp only [container?, Option.some.injEq] at opened
      subst opened
      simp only [containerAt?]
      unfold read at present ⊢
      cases cell : heap.cells[handle.cell]? with
      | some container => rfl
      | none => cases handle <;> simp [cell, Container.slots] at present
  | struct type fields =>
      have somewhere := held home housed
      have slotted := indices_ne_nil_of_value? somewhere
      rw [containerAt?_of_indices_ne_nil slotted, somewhere]
      exact opened
  | _ => cases opened

/-- A container around the written slot, or apart from it, still has its slots where it had them. -/
theorem Heap.exists_containerAt?_replace
    {heap : Heap} {written home : Place} {slot : Value} {container : Container}
    {catalog : Catalog Rule} {step : Step} {index : Nat} (new : Value)
    (outside : ¬ written.Encloses home) (atHome : heap.containerAt? home = some container)
    (stored : container.storage catalog step = .ok index)
    (present : container.slots[index]? = some slot) :
    ∃ updated updatedSlot, (heap.replace written new).containerAt? home = some updated ∧
      updated.storage catalog step = .ok index ∧ updated.slots[index]? = some updatedSlot ∧
      heap.value? (home.push index) = some slot ∧
      (heap.replace written new).value? (home.push index) = some updatedSlot := by
  have sameOutline := heap.outline_containerAt?_replace new outside
  rw [atHome] at sameOutline
  obtain ⟨updated, updatedAtHome, sameAsBefore⟩ := Option.map_eq_some_iff.mp sameOutline
  have inside : index < updated.slots.length := by
    rw [Container.length_slots_of_outline sameAsBefore]
    exact (List.getElem?_eq_some_iff.mp present).1
  have updatedPresent := List.getElem?_eq_getElem inside
  have updatedStored : updated.storage catalog step = .ok index := by
    rw [Container.storage_congr catalog sameAsBefore, stored]
  refine ⟨updated, updated.slots[index], updatedAtHome, updatedStored, updatedPresent, ?_, ?_⟩
  · rw [value?_push, atHome]
    exact present
  · rw [value?_push, updatedAtHome]
    exact updatedPresent

/-- A step that selected a stored slot still selects the same slot of what the value has become. -/
theorem Value.Becomes.container?
    {heap : Heap} {written : Place} {new before after slot : Value} {held? : Option Place}
    {catalog : Catalog Rule} {container : Container} {step : Step} {index : Nat}
    (slotted : written.indices ≠ [])
    (becomes : Value.Becomes heap written new held? before after)
    (opened : heap.container? before = some container)
    (stored : container.storage catalog step = .ok index)
    (present : container.slots[index]? = some slot) :
    ∃ updated updatedSlot, (heap.replace written new).container? after = some updated ∧
      updated.storage catalog step = .ok index ∧ updated.slots[index]? = some updatedSlot ∧
        match before.home held? with
        | none => updatedSlot = slot
        | some home =>
            heap.value? (home.push index) = some slot ∧
              (heap.replace written new).value? (home.push index) = some updatedSlot := by
  cases housed : before.home held? with
  | none =>
      cases before with
      | shared handle => simp [home] at housed
      | struct type fields =>
          rw [home] at housed
          · subst housed
            obtain rfl : after = struct type fields := becomes
            exact ⟨container, slot, opened, stored, present, rfl⟩
          · intro handle shared
            cases shared
      | _ => cases opened
  | some home =>
      have heldBefore : ∀ place, held? = some place → heap.value? place = some before := by
        rintro place rfl
        exact becomes.2.1
      have heldAfter :
          ∀ place, held? = some place → (heap.replace written new).value? place = some after := by
        rintro place rfl
        exact becomes.2.2
      have outside := becomes.not_encloses_home slotted housed
      have atHome := Heap.containerAt?_home heldBefore housed opened present
      obtain ⟨updated, updatedSlot, updatedAtHome, updatedStored, updatedPresent, slots⟩ :=
        Heap.exists_containerAt?_replace new outside atHome stored present
      have housedAfter : after.home held? = some home := becomes.home_eq.trans housed
      have updatedOpened := Heap.container?_of_home heldAfter housedAfter updatedAtHome
      exact ⟨updated, updatedSlot, updatedOpened, updatedStored, updatedPresent, slots⟩

theorem Trail.indices_ne_nil
    {catalog : Catalog Rule} {heap : Heap} {held? target? : Option Place} {root : Value}
    {steps : List Step} {earlier : List (Option Place)} {written : Place}
    (trail : Trail catalog heap held? root steps earlier target?)
    (ends : target? = some written) :
    written.indices ≠ [] := by
  induction trail with
  | last opened stored present =>
      obtain ⟨home, _, rfl⟩ := Option.map_eq_some_iff.mp ends
      simp [Place.push]
  | cons opened stored present rest inductionHypothesis => exact inductionHypothesis ends

/-- After the slot at the end of a trail has been replaced, the same steps read the new value. -/
theorem Trail.follow_replace
    [Accessors Rule] {catalog : Catalog Rule} {heap : Heap} {held? target? : Option Place}
    {before after new : Value} {steps : List Step} {earlier : List (Option Place)}
    {written : Place}
    (trail : Trail catalog heap held? before steps earlier target?)
    (ends : target? = some written)
    (apart : ∀ place, some place ∈ earlier → ¬ written.Encloses place)
    (becomes : Value.Becomes heap written new held? before after) (reachedBy? : Option Step) :
    after.follow catalog steps reachedBy? (heap.replace written new) =
      .ok new (heap.replace written new) := by
  induction trail generalizing after reachedBy? with
  | @last held? before slot container step index opened stored present =>
      have slotted := Trail.indices_ne_nil (.last opened stored present) ends
      obtain ⟨updated, updatedSlot, updatedOpened, updatedStored, updatedPresent, final⟩ :=
        becomes.container? slotted opened stored present
      obtain ⟨home, housed, rfl⟩ := Option.map_eq_some_iff.mp ends
      rw [housed] at final
      have newThere := Heap.value?_replace_self new final.1
      obtain rfl : updatedSlot = new := by
        rw [final.2] at newThere
        exact Option.some.inj newThere
      have fetched := Value.fetch_of_storage updatedOpened updatedStored updatedPresent reachedBy?
      rw [Value.follow, Access.bind_apply, fetched]
      rfl
  | @cons held? _ before slot container step steps earlier index opened stored present rest
      inductionHypothesis =>
      have slotted := rest.indices_ne_nil ends
      obtain ⟨updated, updatedSlot, updatedOpened, updatedStored, updatedPresent, next⟩ :=
        becomes.container? slotted opened stored present
      have nextBecomes :
          Value.Becomes heap written new (before.slotPlace? held? index) slot updatedSlot := by
        cases housed : before.home held? with
        | none =>
            rw [housed] at next
            rw [Value.slotPlace?, housed]
            exact next
        | some home =>
            rw [housed] at next
            have place : before.slotPlace? held? index = some (home.push index) := by
              rw [Value.slotPlace?, housed]
              rfl
            rw [place] at apart ⊢
            exact ⟨apart _ List.mem_cons_self, next.1, next.2⟩
      have fetched := Value.fetch_of_storage updatedOpened updatedStored updatedPresent reachedBy?
      rw [Value.follow, Access.bind_apply, fetched]
      refine inductionHypothesis ends (fun place later => ?_) nextBecomes (some step)
      exact apart place (List.mem_cons_of_mem _ later)

/-! ## Read after write -/

/-- A value that was assigned along stored slots is read back by the same path text, unless the
steps before the last one pass through the written slot. -/
theorem Value.get_of_set
    [Accessors Rule] {catalog : Catalog Rule} {heap after : Heap} {root value : Value}
    {text : String} {path : Path} {change : Change} {earlier : List (Option Place)}
    {target? : Option Place}
    (parsed : Path.parse text = .ok path)
    (trail : Trail catalog heap none root path.steps earlier target?)
    (apart : ∀ place written, some place ∈ earlier → target? = some written →
      ¬ written.Encloses place)
    (assigned : root.set catalog text value heap = .ok change after) :
    root.get catalog text after = .ok value after := by
  obtain ⟨written, ends, rfl⟩ := trail.replace_of_set parsed assigned
  rw [get_of_parse parsed]
  exact trail.follow_replace ends (fun place passed => apart place written passed ends) rfl none

/-- The way to the number leads through the node twice, and then through the pair in it. -/
theorem Value.get_of_set_ring :
    Ring.root.set Ring.catalog "next.pair.x" (.int 5) Ring.heap =
        .ok ⟨Ring.root, ⟨[.member "next", .member "pair", .member "x"], by simp⟩⟩
          (Ring.heapWith 5 2) ∧
      Ring.root.get Ring.catalog "next.pair.x" (Ring.heapWith 5 2) =
        .ok (.int 5) (Ring.heapWith 5 2) := by
  have parsed :
      Path.parse "next.pair.x" =
        .ok ⟨[.member "next", .member "pair", .member "x"], by simp⟩ := by
    decide +kernel
  have trail :
      Trail Ring.catalog Ring.heap none Ring.root
        [.member "next", .member "pair", .member "x"]
        [some ⟨0, [1]⟩, some ⟨0, [0]⟩] (some ⟨0, [0, 0]⟩) :=
    .cons rfl rfl rfl (.cons rfl rfl rfl (.last rfl rfl rfl))
  have assigned :
      Ring.root.set Ring.catalog "next.pair.x" (.int 5) Ring.heap =
        .ok ⟨Ring.root, ⟨[.member "next", .member "pair", .member "x"], by simp⟩⟩
          (Ring.heapWith 5 2) := by
    rw [set_apply, Path.ofText_of_parse parsed]
    rfl
  refine ⟨assigned, get_of_set parsed trail ?_ assigned⟩
  intro place written passed ends
  cases ends
  simp only [List.mem_cons, Option.some.injEq, List.not_mem_nil, or_false] at passed
  rcases passed with rfl | rfl <;> decide

end ObjectGraph
