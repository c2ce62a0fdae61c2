import ObjectGraph.Proofs.ListGrowth
import ObjectGraph.Proofs.ReadAfterWrite
import ObjectGraph.Proofs.Writable
import ObjectGraph.Proofs.WriteFrame

/-!
# Locations that are kept

A location may be kept while the graph changes. Nothing that was seen on the way to it needs to be
true any more when a write goes through it: slots on the way may have been overwritten by anything.
The write looks at everything afresh, starting from the anchor, and goes through structs that are
held in place only.

* A write that fails changes nothing.
* A write that succeeds changes no object and no list but the anchor, and the value that it stores
  is read back along the same steps.
* An element that was there when the location was found is never out of range: only the first step
  from the anchor can select an element, and lists do not get shorter.
-/

namespace ObjectGraph

variable {Rule Memory : Type}

/-! ## What is promised of a kept location -/

def Target.type : Target Rule → SlotType
  | slot _ type => type
  | computed _ _ placed _ => placed.type

namespace Location

def path (location : Location) : Path :=
  ⟨location.hops ++ [location.terminal], by simp⟩

/-- Where the first step from the anchor selects an element, the anchor is a list that has it. -/
def InRange (location : Location) (heap : Heap) : Prop :=
  ∀ index, location.path.steps.head? = some (.element index) →
    ∃ elements, heap.cells[location.anchor.cell]? = some (.sequence elements) ∧
      index < elements.items.length

/-- If a location denotes a stored slot, the slot exists. -/
def HasSlot (catalog : Catalog Rule) (location : Location) (heap : Heap) : Prop :=
  ∀ indices type, location.target catalog heap = .ok (.slot indices type) →
    (heap.value? ⟨location.anchor.cell, indices⟩).isSome

/-- What a write through a location that succeeds comes to. -/
structure Lands [Accessors Rule] (catalog : Catalog Rule) (location : Location) (value : Value)
    (heap after : Heap) : Prop where
  arrived : ∃ passed owner type,
    (heap.read location.anchor).descend catalog location.hops = .ok (passed, owner) ∧
      owner.declaredType? catalog location.terminal = some type ∧
      type.accepts catalog value = true
  elsewhere : ∀ cell, cell < heap.cells.size → cell ≠ location.anchor.cell →
    after.cells[cell]? = heap.cells[cell]?
  /-- A stored slot is replaced and nothing else, and the same steps read the value from there. -/
  readBack : ∀ indices type, location.target catalog heap = .ok (.slot indices type) →
    after = heap.replace ⟨location.anchor.cell, indices⟩ value ∧
      ((heap.value? ⟨location.anchor.cell, indices⟩).isSome →
        (Value.shared location.anchor).read catalog location.path after = .ok value after)

/-- What a write through a location can come to in some state of the graph. -/
structure SafeWrite [Accessors Rule] (catalog : Catalog Rule) (location : Location) (value : Value)
    (heap : Heap) : Prop where
  failed : ∀ error after, location.write catalog value heap = .error error after →
    after = heap ∧ ∀ attempted length, error ≠ .indexOutOfRange attempted length
  /-- A slot on the way that holds no struct stops the write, whatever it holds. -/
  stopped : ∀ passed hop further indices owner index, location.hops = passed ++ hop :: further →
    (heap.read location.anchor).descend catalog passed = .ok (indices, owner) →
      owner.storage catalog hop = .ok index → (owner.slot index).asStruct? = none →
        ∃ error, location.write catalog value heap = .error error heap
  succeeded : ∀ after, location.write catalog value heap = .ok () after →
    location.Lands catalog value heap after

end Location

/-! ## The first step -/

theorem Heap.getElem?_cells_of_read
    {heap : Heap} {handle : Handle} {elements : Sequence} {index : Nat}
    (held : heap.read handle = .sequence elements) (inside : index < elements.items.length) :
    heap.cells[handle.cell]? = some (.sequence elements) := by
  unfold read at held
  cases present : heap.cells[handle.cell]? with
  | some container =>
      rw [present] at held
      exact congrArg some held
  | none =>
      rw [present] at held
      cases handle with
      | object type cell => cases held
      | list element cell =>
          cases held
          simp at inside

theorem Container.exists_sequence_of_probe
    {catalog : Catalog Rule} {container : Container} {index : Nat}
    (allowed : container.probe catalog (.element index) = .ok ()) :
    ∃ elements, container = .sequence elements ∧ index < elements.items.length := by
  cases container with
  | composite owner =>
      rcases Composite.exists_select_of_probe allowed with ⟨name, _, named, _⟩
      cases named
  | sequence elements =>
      rcases Sequence.exists_select_of_probe allowed with ⟨position, same, _, inside⟩
      cases same
      exact ⟨elements, rfl, inside⟩

/-- Where the way down has been gone once, the first step is in range. -/
theorem Location.inRange_of_descend
    {catalog : Catalog Rule} {location : Location} {heap : Heap} {indices : List Nat}
    {container : Container}
    (descended :
      (heap.read location.anchor).descend catalog location.hops = .ok (indices, container))
    (allowed : container.probe catalog location.terminal = .ok ()) :
    location.InRange heap := by
  intro index first
  have firstAllowed : (heap.read location.anchor).probe catalog (.element index) = .ok () := by
    rcases location with ⟨anchor, hops, terminal⟩
    cases hops with
    | nil =>
        cases descended
        cases first
        exact allowed
    | cons hop hops =>
        cases first
        rcases Container.descend_cons_eq_ok_iff.mp descended with ⟨_, _, _, stored, _⟩
        exact Container.probe_of_storage stored
  rcases Container.exists_sequence_of_probe firstAllowed with ⟨elements, held, inside⟩
  exact ⟨elements, Heap.getElem?_cells_of_read held inside, inside⟩

theorem Location.inRange_of_locate
    [Accessors Rule] {catalog : Catalog Rule} {root : Value} {path : Path} {heap reached : Heap}
    {location : Location} (located : root.locate catalog path heap = .ok location reached) :
    location.InRange reached := by
  rw [Value.locate_apply] at located
  cases walked : (Walk.ofRoot root).advanceAll catalog path.init heap with
  | error error failedAt => simp [walked] at located
  | ok owner middle =>
      simp only [walked] at located
      rcases Walk.finish_eq_ok_iff.mp located with
        ⟨container, anchor, hops, opened, allowed, footing, rfl, rfl⟩
      have grounded : owner.Grounded catalog reached :=
        (Walk.grounded_ofRoot catalog heap root).advanceAll walked
      have arrived : reached.container? owner.value = some container :=
        Heap.container?_of_openValue opened
      rcases grounded container anchor hops arrived footing with ⟨indices, descended⟩
      apply inRange_of_descend descended
      exact allowed

/-- Where lists have only grown, a first step in range stays in range. -/
theorem Location.InRange.of_keepsLists
    {location : Location} {before after : Heap} (inRange : location.InRange before)
    (kept : before.KeepsLists after) :
    location.InRange after := by
  intro index first
  rcases inRange index first with ⟨elements, present, inside⟩
  rcases kept location.anchor.cell elements present with ⟨later, presentLater, grown⟩
  exact ⟨later, presentLater, inside.trans_le grown⟩

/-! ## Failures -/

namespace Composite

theorem select_ne_indexOutOfRange
    {catalog : Catalog Rule} {owner : Composite} {step : Step} {attempted length : Nat} :
    owner.select catalog step ≠ .error (.indexOutOfRange attempted length) := by
  cases step with
  | element index => simp [select, Step.misfit]
  | member name =>
      simp only [select]
      cases (catalog.layout owner.type).member? name <;> simp

theorem storage_ne_indexOutOfRange
    {catalog : Catalog Rule} {owner : Composite} {step : Step} {attempted length : Nat} :
    owner.storage catalog step ≠ .error (.indexOutOfRange attempted length) := by
  simp only [storage, bind, Except.bind]
  cases selected : owner.select catalog step with
  | error error =>
      intro same
      cases same
      exact select_ne_indexOutOfRange selected
  | ok placed =>
      cases kind : placed.member.kind <;> simp [kind, pure, Except.pure, throw, throwThe,
        MonadExceptOf.throw]

end Composite

theorem Value.structAt_ne_indexOutOfRange
    {value : Value} {step : Step} {attempted length : Nat} :
    value.structAt step ≠ .error (.indexOutOfRange attempted length) := by
  cases value <;> simp [structAt]

namespace Container

variable {catalog : Catalog Rule} {hop : Step} {hops : List Step} {terminal : Step}
  {attempted length : Nat}

/-- A way down is out of range only at its first step or below it. -/
theorem target_cons_ne_indexOutOfRange
    {container : Container}
    (here : container.storage catalog hop ≠ .error (.indexOutOfRange attempted length))
    (below : ∀ inner : Composite, (composite inner).target catalog hops terminal ≠
      .error (.indexOutOfRange attempted length)) :
    container.target catalog (hop :: hops) terminal ≠
      .error (.indexOutOfRange attempted length) := by
  rw [target_cons]
  intro missed
  cases stored : container.storage catalog hop with
  | error error =>
      rw [stored] at missed here
      cases missed
      exact here rfl
  | ok index =>
      cases found : (container.slot index).structAt hop with
      | error error =>
          simp only [stored, found] at missed
          cases missed
          exact Value.structAt_ne_indexOutOfRange found
      | ok inner =>
          simp only [stored, found] at missed
          cases further : (composite inner).target catalog hops terminal with
          | ok target => simp [further, Except.map] at missed
          | error error =>
              rw [further] at missed
              cases missed
              exact below inner further

/-- Below a composite nothing is selected by its position, so nothing is out of range. -/
theorem target_composite_ne_indexOutOfRange
    {owner : Composite} :
    (composite owner).target catalog hops terminal ≠
      .error (.indexOutOfRange attempted length) := by
  induction hops generalizing owner with
  | cons hop hops inductionHypothesis =>
      apply target_cons_ne_indexOutOfRange
      · exact Composite.storage_ne_indexOutOfRange
      · exact fun inner => inductionHypothesis
  | nil =>
      simp only [target, descend, aim]
      cases selected : owner.select catalog terminal with
      | ok placed => cases kind : placed.member.kind <;> simp [kind]
      | error error =>
          intro missed
          cases missed
          exact Composite.select_ne_indexOutOfRange selected

/-- Only a first step that selects an element can be out of range. -/
theorem target_ne_indexOutOfRange
    {container : Container}
    (inRange : ∀ index elements, (hops ++ [terminal]).head? = some (.element index) →
      container = .sequence elements → index < elements.items.length) :
    container.target catalog hops terminal ≠ .error (.indexOutOfRange attempted length) := by
  cases container with
  | composite owner => exact target_composite_ne_indexOutOfRange
  | sequence elements =>
      have selects : ∀ step, (hops ++ [terminal]).head? = some step →
          elements.select step ≠ .error (.indexOutOfRange attempted length) := by
        intro step first
        cases step with
        | member name => simp [Sequence.select, Step.misfit]
        | element index =>
            have inside := inRange index elements first rfl
            simp [Sequence.select, inside]
      cases hops with
      | cons hop hops =>
          apply target_cons_ne_indexOutOfRange
          · exact selects hop rfl
          · exact fun inner => target_composite_ne_indexOutOfRange
      | nil =>
          simp only [target, descend, aim]
          cases selected : elements.select terminal with
          | ok index => simp
          | error error =>
              intro missed
              cases missed
              exact selects terminal rfl selected

end Container

/-- A write whose first step is in range does not miss an element. -/
theorem Location.write_ne_indexOutOfRange
    [Accessors Rule] {catalog : Catalog Rule} {location : Location} {value : Value}
    {heap after : Heap} {attempted length : Nat} (inRange : location.InRange heap) :
    location.write catalog value heap ≠ .error (.indexOutOfRange attempted length) after := by
  intro failed
  rw [write_apply] at failed
  cases aimed : location.target catalog heap with
  | error error =>
      rw [aimed] at failed
      cases failed
      refine Container.target_ne_indexOutOfRange (fun index elements first held => ?_) aimed
      rcases inRange index first with ⟨listed, present, inside⟩
      simp only [Heap.read, present, Container.sequence.injEq] at held
      rwa [← held]
  | ok target =>
      cases target with
      | slot indices type =>
          by_cases fits : type.accepts catalog value = true
          · simp [aimed, fits] at failed
          · simp [aimed, fits] at failed
      | computed indices owner placed rule =>
          by_cases fits : placed.type.accepts catalog value = true
          · cases writer : Accessors.write? rule <;> simp [aimed, fits, writer] at failed
          · simp [aimed, fits] at failed

/-! ## The way down -/

/-- A target accepts what the container declares for the last step. -/
theorem Container.declaredType?_of_aim
    {catalog : Catalog Rule} {container : Container} {terminal : Step} {passed : List Nat}
    {target : Target Rule} (aimed : container.aim catalog terminal passed = .ok target) :
    container.declaredType? catalog terminal = some target.type := by
  cases container with
  | composite owner =>
      simp only [aim] at aimed
      cases selected : owner.select catalog terminal with
      | error error => simp [selected] at aimed
      | ok placed =>
          rcases Composite.select_eq_ok_iff.mp selected with ⟨name, rfl, found⟩
          simp only [selected] at aimed
          rw [declaredType?, found]
          cases kind : placed.member.kind with
          | field =>
              rw [kind] at aimed
              cases aimed
              rfl
          | property rule =>
              rw [kind] at aimed
              cases aimed
              rfl
  | sequence elements =>
      simp only [aim] at aimed
      cases selected : elements.select terminal with
      | error error => simp [selected] at aimed
      | ok index =>
          rcases Sequence.select_eq_ok_iff.mp selected with ⟨rfl, inside⟩
          rw [selected] at aimed
          cases aimed
          rw [declaredType?, if_pos inside]
          rfl

/-- The way down does not go on from a slot that holds no struct. -/
theorem Container.descend_ne_ok_of_asStruct?
    {catalog : Catalog Rule} {passed further : List Step} {hop : Step}
    {container owner : Container} {indices : List Nat} {index : Nat}
    (descended : container.descend catalog passed = .ok (indices, owner))
    (stored : owner.storage catalog hop = .ok index)
    (noStruct : (owner.slot index).asStruct? = none) (reached : List Nat × Container) :
    container.descend catalog (passed ++ hop :: further) ≠ .ok reached := by
  intro done
  rcases reached with ⟨more, final⟩
  induction passed generalizing container indices more with
  | nil =>
      cases descended
      rcases descend_cons_eq_ok_iff.mp done with ⟨position, inner, _, same, found, _⟩
      rw [stored] at same
      cases same
      rw [Value.structAt_eq_ok_iff.mp found] at noStruct
      cases noStruct
  | cons first passed inductionHypothesis =>
      rcases descend_cons_eq_ok_iff.mp descended with
        ⟨position, inner, rest, firstStored, firstFound, descendedBelow, _⟩
      rcases descend_cons_eq_ok_iff.mp done with
        ⟨again, innerAgain, restAgain, storedAgain, foundAgain, doneBelow, _⟩
      rw [firstStored] at storedAgain
      cases storedAgain
      rw [firstFound] at foundAgain
      cases foundAgain
      exact inductionHypothesis descendedBelow _ doneBelow

/-- Where the way down ends, the same steps make a trail from what the container stands for. The
slots before the last one lie above it. -/
theorem Container.exists_trail_of_descend
    {catalog : Catalog Rule} {heap : Heap} {value slot : Value} {held? : Option Place}
    {home : Place} {container owner : Container} {hops : List Step} {terminal : Step}
    {passed : List Nat} {index : Nat}
    (opened : heap.container? value = some container) (housed : value.home held? = some home)
    (descended : container.descend catalog hops = .ok (passed, owner))
    (stored : owner.storage catalog terminal = .ok index)
    (present : owner.slots[index]? = some slot) :
    ∃ earlier,
      Trail catalog heap held? value (hops ++ [terminal]) earlier
          (some ⟨home.cell, home.indices ++ passed ++ [index]⟩) ∧
        ∀ place, some place ∈ earlier →
          place.indices.length ≤ home.indices.length + passed.length := by
  have slotPlace : ∀ position, value.slotPlace? held? position = some (home.push position) := by
    intro position
    rw [Value.slotPlace?, housed]
    rfl
  induction hops generalizing value held? home container passed with
  | nil =>
      cases descended
      have last : Trail catalog heap held? value [terminal] [] (value.slotPlace? held? index) :=
        .last opened stored present
      rw [slotPlace index] at last
      exact ⟨[], by simpa [Place.push] using last, by simp⟩
  | cons hop hops inductionHypothesis =>
      rcases descend_cons_eq_ok_iff.mp descended with
        ⟨position, inner, further, hopStored, found, rest, rfl⟩
      have hopPresent := getElem?_slots_of_structAt found
      have innerHoused : inner.toValue.home (value.slotPlace? held? position) =
          some (home.push position) :=
        slotPlace position
      have innerSlots : ∀ below,
          inner.toValue.slotPlace? (value.slotPlace? held? position) below =
            some ((home.push position).push below) := by
        intro below
        rw [Value.slotPlace?, innerHoused]
        rfl
      have innerOpened : heap.container? inner.toValue = some (composite inner) := rfl
      rcases inductionHypothesis innerOpened innerHoused rest innerSlots with
        ⟨earlier, trail, above⟩
      refine ⟨value.slotPlace? held? position :: earlier, ?_, ?_⟩
      · have whole := Trail.cons opened hopStored hopPresent trail
        simpa [Place.push] using whole
      · intro place listed
        rcases List.mem_cons.mp listed with here | later
        · rw [slotPlace position, Option.some.injEq] at here
          subst here
          simp [Place.push]
        · have lower := above place later
          simp only [Place.push, List.length_append, List.length_singleton] at lower
          simp only [List.length_cons]
          omega

/-! ## Writes in any state -/

namespace Location

section Write

variable [Accessors Rule] {catalog : Catalog Rule} {location : Location} {value : Value}
  {heap after : Heap}

/-- A value that replaces an existing slot is read back along the steps from the anchor. -/
theorem read_replace
    {indices : List Nat} {type : SlotType}
    (aimed : location.target catalog heap = .ok (.slot indices type))
    (occupied : (heap.value? ⟨location.anchor.cell, indices⟩).isSome) :
    (Value.shared location.anchor).read catalog location.path
        (heap.replace ⟨location.anchor.cell, indices⟩ value) =
      .ok value (heap.replace ⟨location.anchor.cell, indices⟩ value) := by
  rcases Container.target_eq_ok_iff.mp aimed with ⟨passed, owner, descended, aims⟩
  rcases Container.storage_of_aim_slot aims with ⟨index, stored, rfl⟩
  rcases Option.isSome_iff_exists.mp occupied with ⟨slot, held⟩
  have live : location.anchor.cell < heap.cells.size := Heap.lt_size_of_value? held
  have holds := Heap.containerAt?_of_descend live descended
  rw [Heap.value?_of_containerAt? holds index] at held
  have opened : heap.container? (.shared location.anchor) = some (heap.read location.anchor) := rfl
  have housed : (Value.shared location.anchor).home none = some ⟨location.anchor.cell, []⟩ := rfl
  rcases Container.exists_trail_of_descend opened housed descended stored held with
    ⟨earlier, trail, above⟩
  refine trail.follow_replace rfl (fun place listed encloses => ?_) rfl none
  have lower := above place listed
  have longer := encloses.2.length_le
  simp only [List.nil_append, List.length_append, List.length_cons, List.length_nil] at lower longer
  omega

/-- A write that succeeds lands in the storage of the anchor. -/
theorem lands_of_write
    (writesOwner : Accessors.WritesOwner Rule)
    (written : location.write catalog value heap = .ok () after) :
    location.Lands catalog value heap after := by
  have arrives : ∀ target, location.target catalog heap = .ok target →
      target.type.accepts catalog value = true →
        ∃ passed owner type,
          (heap.read location.anchor).descend catalog location.hops = .ok (passed, owner) ∧
            owner.declaredType? catalog location.terminal = some type ∧
            type.accepts catalog value = true := by
    intro target aimed fits
    rcases Container.target_eq_ok_iff.mp aimed with ⟨passed, owner, descended, aims⟩
    exact ⟨passed, owner, _, descended, Container.declaredType?_of_aim aims, fits⟩
  rcases write_cases written with
    ⟨indices, type, aimed, fits, rfl⟩ |
      ⟨indices, owner, placed, rule, write, aimed, fits, writer, rfl⟩
  · constructor
    case arrived => exact arrives _ aimed fits
    case elsewhere =>
      intro cell _ different
      rw [Heap.getElem?_cells_replace, if_neg (Ne.symm different)]
    case readBack =>
      intro others _ aimedAgain
      rw [aimed] at aimedAgain
      cases aimedAgain
      exact ⟨rfl, read_replace aimed⟩
  · constructor
    case arrived => exact arrives _ aimed fits
    case elsewhere =>
      intro cell existed different
      have kept := writesOwner rule write writer catalog owner value heap
      rw [Heap.write, Array.getElem?_setIfInBounds_ne (Ne.symm different),
        kept.getElem?_cells existed]
    case readBack =>
      intro others _ aimedAgain
      rw [aimed] at aimedAgain
      cases aimedAgain

/-- In any state in which the first step is in range, a write is safe. -/
theorem InRange.safeWrite
    (writesOwner : Accessors.WritesOwner Rule) (inRange : location.InRange heap) (value : Value) :
    location.SafeWrite catalog value heap := by
  constructor
  case failed =>
    intro error after failed
    refine ⟨(location.write_error failed).1, fun attempted length same => ?_⟩
    rw [same] at failed
    exact write_ne_indexOutOfRange inRange failed
  case stopped =>
    intro passed hop further indices owner index split descended stored noStruct
    cases done : location.write catalog value heap with
    | error error after => exact ⟨error, by rw [(location.write_error done).1]⟩
    | ok written after =>
        rcases (lands_of_write writesOwner done).arrived with ⟨more, final, _, arrived, _⟩
        rw [split] at arrived
        exact absurd arrived (Container.descend_ne_ok_of_asStruct? descended stored noStruct _)
  case succeeded => exact fun after written => lands_of_write writesOwner written

end Write

/-! ## Slots of well-typed graphs -/

/-- In a well-typed graph every slot that a location with a good anchor denotes exists. -/
theorem hasSlot_of_wellTyped
    {catalog : Catalog Rule} {location : Location} {heap : Heap} (typed : heap.WellTyped catalog)
    (backed : heap.Backs location.anchor) :
    location.HasSlot catalog heap := by
  intro indices type aimed
  have live : location.anchor.cell < heap.cells.size :=
    (Array.getElem?_eq_some_iff.mp (Heap.read_of_backs backed).1).1
  have covered : heap.Covered catalog location.anchor.cell := by
    intro passed owner name placed held found kind
    have ownerTyped := typed.containerAt? held
    have fits := Composite.fitsLayout_layout (Composite.wellTyped_toValue_iff.mp ownerTyped).1
    have selected : owner.select catalog (.member name) = .ok placed :=
      Composite.select_eq_ok_iff.mpr ⟨name, rfl, found⟩
    apply fits.lt_length (Composite.mem_of_select selected)
    exact PlacedMember.stored?_eq_some_iff.mpr ⟨kind, rfl⟩
  exact isSome_value?_of_target live covered aimed

end Location

/-! ## Kept locations -/

namespace Session

variable [Accessors Rule]

/-- No action drops a location. -/
theorem mem_kept_perform
    {session : Session Rule Memory} {location : Location} (kept : location ∈ session.kept)
    (action : Action Rule Memory) :
    location ∈ (session.perform action).kept := by
  cases action with
  | locate root path =>
      simp only [perform]
      cases root.locate session.catalog path session.heap with
      | error error after => exact kept
      | ok found after => exact List.mem_cons_of_mem found kept
  | instantiate type =>
      simp only [perform]
      cases session.catalog.instantiate? type session.heap <;> exact kept
  | makeList element items =>
      simp only [perform]
      cases session.heap.newList session.catalog element items <;> exact kept
  | push handle value =>
      simp only [perform]
      cases session.heap.push session.catalog handle value <;> exact kept
  | read root text =>
      simp only [perform]
      cases root.get session.catalog text session.heap <;> exact kept
  | _ => exact kept

theorem mem_kept_performAll
    {session : Session Rule Memory} {location : Location} (kept : location ∈ session.kept)
    (actions : List (Action Rule Memory)) :
    location ∈ (session.performAll actions).kept := by
  induction actions generalizing session with
  | nil => exact kept
  | cons action actions inductionHypothesis =>
      exact inductionHypothesis (mem_kept_perform kept action)

end Session

/-- A location that was found once is safe to write through after any run of actions. If the graph
is well typed by then, the slot that it denotes exists as well. -/
theorem Location.safeWrite_of_locate
    [Accessors Rule] (keepsLists : Accessors.KeepsLists Rule)
    (writesOwner : Accessors.WritesOwner Rule) {session : Session Rule Memory} {root : Value}
    {path : Path} {location : Location} {reached : Heap}
    (located : root.locate session.catalog path session.heap = .ok location reached)
    {actions : List (Action Rule Memory)} (listeners : ∀ action ∈ actions, action.KeepsLists) :
    let later := (session.perform (.locate root path)).performAll actions
    (∀ value, location.SafeWrite later.catalog value later.heap) ∧
      (later.WellTyped → location.HasSlot later.catalog later.heap) := by
  intro later
  have found : session.perform (.locate root path) =
      { session with heap := reached, kept := location :: session.kept } := by
    simp only [Session.perform, located]
  have inRange : location.InRange later.heap := by
    have grown := Session.keepsLists_performAll keepsLists listeners
      (session.perform (.locate root path))
    rw [found] at grown
    have started := inRange_of_locate located
    simpa only [later, found] using started.of_keepsLists grown
  constructor
  · exact fun value => inRange.safeWrite writesOwner value
  · intro typed
    have kept : location ∈ later.kept := by
      apply Session.mem_kept_performAll
      rw [found]
      exact List.mem_cons_self
    exact hasSlot_of_wellTyped typed.heap (typed.kept location kept)

/-! ## A location behind a broken way -/

theorem Session.perform_path
    [Accessors Rule] (session : Session Rule Memory) {root value : Value} {text : String}
    {change : Change} {after : Heap}
    (assigned : root.set session.catalog text value session.heap = .ok change after) :
    session.perform (.write (.path root text value)) = { session with heap := after } := by
  simp only [perform, WriteRequest.run, assigned, WriteRequest.settle]

namespace Ring

/-- The way over the successor of the node to a number of its pair. -/
def roundabout : Path :=
  ⟨[.member "next", .member "pair", .member "x"], by simp⟩

/-- What happens while the location of the number is kept: a list grows, and the ring is broken. -/
def meanwhile : List (Action PropertyRule Unit) :=
  [.push (.list (.object "Node") 1) root, .write (.path root "next" .null)]

/-- In the end the node has no successor any more. -/
def broken : Session PropertyRule Unit :=
  (collected.perform (.locate root roundabout)).performAll meanwhile

theorem reachable_broken : broken.Reachable := by
  have rootGiven : root ∈ collected.answers := List.mem_cons_of_mem _ List.mem_cons_self
  have listGiven : Value.shared (.list (.object "Node") 1) ∈ collected.answers :=
    List.mem_cons_self
  have located := reachable_collected.locate rootGiven roundabout
  have listTyped := located.wellTyped.answers _ listGiven
  have allowedPush : (collected.perform (.locate root roundabout)).Allows
      (.push (.list (.object "Node") 1) root) := by
    cases listTyped with
    | shared backed => exact ⟨backed, located.wellTyped.answers root rootGiven⟩
  have pushed := located.perform allowedPush
  have allowedWrite : ((collected.perform (.locate root roundabout)).perform
      (.push (.list (.object "Node") 1) root)).Allows (.write (.path root "next" .null)) :=
    ⟨pushed.wellTyped.answers root rootGiven, .null⟩
  have written := pushed.perform allowedWrite
  simpa only [broken, meanwhile, Session.performAll, List.foldl_cons, List.foldl_nil] using written

end Ring

/-- The way to the number does not exist any more, but the node that was reached on it is still the
anchor. The number is stored there. -/
theorem Location.safeWrite_of_locate_ring :
    let location : Location := ⟨Ring.handle, [.member "pair"], .member "x"⟩
    let later := Ring.broken
    Ring.root.locate Ring.collected.catalog Ring.roundabout Ring.collected.heap =
        .ok location Ring.collected.heap ∧
      (∀ value, location.SafeWrite later.catalog value later.heap) ∧
      location.HasSlot later.catalog later.heap ∧
      location.write later.catalog (.int 5) later.heap =
        .ok () (later.heap.replace ⟨0, [0, 0]⟩ (.int 5)) ∧
      (later.heap.replace ⟨0, [0, 0]⟩ (.int 5)).cells[0]? =
        some (.composite ⟨⟨"main", "Node"⟩,
          [.struct ⟨"main", "Pair"⟩ [.int 5, .int 7], .null]⟩) := by
  intro location later
  have located :
      Ring.root.locate Ring.collected.catalog Ring.roundabout Ring.collected.heap =
        .ok location Ring.collected.heap := by
    rfl
  have listeners : ∀ action ∈ Ring.meanwhile, action.KeepsLists := by
    simp [Ring.meanwhile, Action.KeepsLists, WriteRequest.hook?]
  have safe := safeWrite_of_locate
    (Accessors.keepsLists_of_writesOwner PropertyRule.readsOnly PropertyRule.writesOwner)
    PropertyRule.writesOwner located listeners
  let uncut := (Ring.collected.perform (.locate Ring.root Ring.roundabout)).perform
    (.push (.list (.object "Node") 1) Ring.root)
  let nodes : Container := .sequence ⟨.object "Node", [Ring.root, Ring.root, Ring.root]⟩
  let node (next : Value) : Container :=
    .composite ⟨⟨"main", "Node"⟩, [.struct ⟨"main", "Pair"⟩ [.int 7, .int 7], next]⟩
  have sameCatalog : uncut.catalog = Ring.catalog := rfl
  have sameHeap : uncut.heap =
      (Ring.collected.perform (.push (.list (.object "Node") 1) Ring.root)).heap := rfl
  have whole : (Ring.collected.perform (.push (.list (.object "Node") 1) Ring.root)).heap =
      ⟨#[node Ring.root, nodes]⟩ := rfl
  have broken : later = { uncut with catalog := Ring.catalog, heap := ⟨#[node .null, nodes]⟩ } := by
    have parsed : Path.parse "next" = .ok ⟨[.member "next"], by simp⟩ := by
      decide +kernel
    have assigned : Ring.root.set uncut.catalog "next" .null uncut.heap =
        .ok ⟨Ring.root, ⟨[.member "next"], by simp⟩⟩ ⟨#[node .null, nodes]⟩ := by
      rw [Value.set_apply, Path.ofText_of_parse parsed, sameCatalog, sameHeap, whole]
      rfl
    exact uncut.perform_path assigned
  refine ⟨located, safe.1, safe.2 Ring.reachable_broken.wellTyped, ?_, ?_⟩
  · rw [broken]
    rfl
  · rw [broken]
    rfl

end ObjectGraph
