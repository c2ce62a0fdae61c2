import ObjectGraph.Proofs.FailedWrite
import ObjectGraph.Proofs.TypedAccess
import ObjectGraph.Proofs.TypedRules

/-!
# Type soundness

A session registers types in any number of registries, makes instances and lists, reads and writes
along paths, and keeps locations to write through them later, when the graph may have changed. The
values that it hands in have to be well typed, and code that it brings along, for computed members
and for callbacks, has to keep types. Under these conditions every composite in every state that a
session reaches fits the layout of its type, every list holds elements of its type, and every handle
agrees with its cell. Therefore no access to a slot is ever out of bounds.
-/

namespace ObjectGraph

variable {Rule Memory : Type}

/-! ## Sessions -/

/-- The state of a session: what is registered, the graph, the memory of whoever listens to changes,
and what was handed out: locations and values. -/
structure Session (Rule Memory : Type) where
  catalog : Catalog Rule
  heap : Heap
  memory : Memory
  kept : List Location
  answers : List Value

inductive Action (Rule Memory : Type) where
  | register (label : String) (declaration : TypeDecl Rule)
  | instantiate (type : TypeId)
  | makeList (element : SlotType) (items : List Value)
  | push (handle : Handle) (value : Value)
  | read (root : Value) (text : String)
  | locate (root : Value) (path : Path)
  | write (request : WriteRequest Memory)

namespace Session

/-- Nothing is registered, and there are no objects and no lists. -/
def start (memory : Memory) : Session Rule Memory :=
  ⟨.empty, .empty, memory, [], []⟩

def answering (session : Session Rule Memory) (answer : Value) (after : Heap) :
    Session Rule Memory :=
  { session with heap := after, answers := answer :: session.answers }

/-- The state after an action, whether it succeeds or fails. -/
def perform [Accessors Rule] (session : Session Rule Memory) :
    Action Rule Memory → Session Rule Memory
  | .register label declaration =>
      { session with catalog := (session.catalog.register label declaration).catalog }
  | .instantiate type =>
      match session.catalog.instantiate? type session.heap with
      | .error _ => session
      | .ok (made, after) => session.answering made after
  | .makeList element items =>
      match session.heap.newList session.catalog element items with
      | .error _ => session
      | .ok (list, after) => session.answering list after
  | .push handle value =>
      match session.heap.push session.catalog handle value with
      | none => session
      | some after => { session with heap := after }
  | .read root text =>
      match root.get session.catalog text session.heap with
      | .error _ after => { session with heap := after }
      | .ok value after => session.answering value after
  | .locate root path =>
      match root.locate session.catalog path session.heap with
      | .error _ after => { session with heap := after }
      | .ok location after => { session with heap := after, kept := location :: session.kept }
  | .write request =>
      let (_, after, memory) := request.run session.catalog session.heap session.memory
      { session with heap := after, memory := memory }

end Session

/-! ## What a session may do -/

/-- A callback or hook that keeps types when it is told about a change of a well-typed graph. -/
def Hook.KeepsTypes (catalog : Catalog Rule) (hook : Hook Memory) : Prop :=
  ∀ (change : Change) (heap : Heap) (memory : Memory), heap.WellTyped catalog →
    change.root.WellTyped catalog heap → heap.Evolves catalog (hook change heap memory).1

/-- A request that hands in well-typed values, listens with code that keeps types, and writes
through a location that was kept. -/
def WriteRequest.Allowed (session : Session Rule Memory) : WriteRequest Memory → Prop
  | path root _ value =>
      root.WellTyped session.catalog session.heap ∧ value.WellTyped session.catalog session.heap
  | shared handle _ value =>
      session.heap.Backs handle ∧ value.WellTyped session.catalog session.heap
  | reported onChange root _ value =>
      Hook.KeepsTypes session.catalog onChange ∧
        root.WellTyped session.catalog session.heap ∧ value.WellTyped session.catalog session.heap
  | edited editor root _ value =>
      (∀ hook, editor.hook? = some hook → Hook.KeepsTypes session.catalog hook) ∧
        root.WellTyped session.catalog session.heap ∧ value.WellTyped session.catalog session.heap
  | located location value =>
      location ∈ session.kept ∧ value.WellTyped session.catalog session.heap

namespace Session

/-- The values that an action hands in are well typed, and code that it brings along keeps types. -/
def Allows [Accessors Rule] (session : Session Rule Memory) : Action Rule Memory → Prop
  | .register label declaration =>
      Member.Supplied session.catalog session.heap declaration.members ∧
        (session.catalog.register label declaration).catalog.AccessorsKeepTypes
  | .instantiate _ => True
  | .makeList _ items => ∀ item ∈ items, item.WellTyped session.catalog session.heap
  | .push handle value =>
      session.heap.Backs handle ∧ value.WellTyped session.catalog session.heap
  | .read root _ => root.WellTyped session.catalog session.heap
  | .locate root _ => root.WellTyped session.catalog session.heap
  | .write request => request.Allowed session

inductive Leads [Accessors Rule] (first : Session Rule Memory) : Session Rule Memory → Prop where
  | refl : Leads first first
  | perform {session : Session Rule Memory} {action : Action Rule Memory}
      (reached : Leads first session) (allowed : session.Allows action) :
      Leads first (session.perform action)

def Reachable [Accessors Rule] (session : Session Rule Memory) : Prop :=
  ∃ memory, (start memory).Leads session

/-! ## What holds of every state -/

/-- A value stands somewhere in a session: in a slot of an object, of a list or of a struct in one
of them, among the initial contents of a type, or in a value that was handed out, at any depth. -/
inductive Holds (session : Session Rule Memory) : Value → Prop where
  | slot {place : Place} {value : Value} (found : session.heap.value? place = some value) :
      Holds session value
  | initial {type : TypeId} {layout : Layout Rule} {indices : List Nat} {value : Value}
      (registered : session.catalog.layout? type = some layout)
      (found : (Value.struct type layout.defaults).part? indices = some value) :
      Holds session value
  | answer {answer value : Value} {indices : List Nat} (given : answer ∈ session.answers)
      (found : answer.part? indices = some value) :
      Holds session value

/-- A composite of a session: an object, or a struct that stands somewhere. -/
def Contains (session : Session Rule Memory) (owner : Composite) : Prop :=
  (∃ cell : Nat, session.heap.cells[cell]? = some (Container.composite owner)) ∨
    session.Holds owner.toValue

/-- The graph of a session is sound. -/
structure Sound (session : Session Rule Memory) : Prop where
  /-- Every composite has the fields that its layout prescribes, and they hold what they accept. -/
  composites : ∀ owner, session.Contains owner → owner.Fits session.catalog
  elements : ∀ (cell : Nat) (elements : Sequence),
    session.heap.cells[cell]? = some (.sequence elements) →
      ∀ item ∈ elements.items, elements.element.accepts session.catalog item = true
  handles : ∀ handle, session.Holds (.shared handle) → session.heap.Backs handle
  anchors : ∀ location ∈ session.kept, session.heap.Backs location.anchor
  /-- A stored member that a step selects has a slot. -/
  inBounds : ∀ owner, session.Contains owner → ∀ step placed,
    owner.select session.catalog step = .ok placed → placed.member.kind = .field →
      placed.offset < owner.fields.length

/-- The invariant of sessions. -/
structure WellTyped [Accessors Rule] (session : Session Rule Memory) : Prop where
  catalog : session.catalog.WellFormed
  accessors : session.catalog.AccessorsKeepTypes
  heap : session.heap.WellTyped session.catalog
  kept : ∀ location ∈ session.kept, session.heap.Backs location.anchor
  answers : ∀ answer ∈ session.answers, answer.WellTyped session.catalog session.heap

/-! ## The invariant is kept -/

section Steps

variable [Accessors Rule] {session : Session Rule Memory}

/-- Where nothing is registered, no computed member belongs to a type. -/
theorem accessorsKeepTypes_empty : (Catalog.empty : Catalog Rule).AccessorsKeepTypes where
  read owner placed rule heap member := by cases member
  write owner placed rule heap run value member := by cases member

theorem wellTyped_start (memory : Memory) : (start memory : Session Rule Memory).WellTyped where
  catalog := Catalog.wellFormed_empty
  accessors := accessorsKeepTypes_empty
  heap := Heap.wellTyped_empty _
  kept location present := by simp [start] at present
  answers answer present := by simp [start] at present

namespace WellTyped

variable {after : Heap}

theorem evolve
    (typed : session.WellTyped) (evolves : session.heap.Evolves session.catalog after)
    (memory : Memory) :
    WellTyped { session with heap := after, memory := memory } where
  catalog := typed.catalog
  accessors := typed.accessors
  heap := evolves.typed
  kept location present := evolves.grows _ (typed.kept location present)
  answers answer present := (typed.answers answer present).of_grows evolves.grows

theorem answering
    {answer : Value} (typed : session.WellTyped)
    (evolves : session.heap.Evolves session.catalog after)
    (answerTyped : answer.WellTyped session.catalog after) :
    (session.answering answer after).WellTyped := by
  refine { typed.evolve evolves session.memory with answers := fun given present => ?_ }
  rcases List.mem_cons.mp present with rfl | earlier
  · exact answerTyped
  · exact (typed.answers given earlier).of_grows evolves.grows

theorem keeping
    {location : Location} (typed : session.WellTyped)
    (evolves : session.heap.Evolves session.catalog after)
    (backed : after.Backs location.anchor) :
    WellTyped { session with heap := after, kept := location :: session.kept } := by
  refine { typed.evolve evolves session.memory with kept := fun found present => ?_ }
  rcases List.mem_cons.mp present with rfl | earlier
  · exact backed
  · exact evolves.grows _ (typed.kept found earlier)

theorem register
    {label : String} {declaration : TypeDecl Rule} (typed : session.WellTyped)
    (supplied : Member.Supplied session.catalog session.heap declaration.members)
    (keepTypes : (session.catalog.register label declaration).catalog.AccessorsKeepTypes) :
    WellTyped
      { session with catalog := (session.catalog.register label declaration).catalog } := by
  obtain ⟨wellFormed, includes⟩ := typed.catalog.register supplied
  exact
    { catalog := wellFormed
      accessors := keepTypes
      heap := typed.heap.of_includes includes wellFormed.named
      kept := typed.kept
      answers := fun answer given =>
        (typed.answers answer given).of_includes includes wellFormed.named }

end WellTyped

end Steps

end Session

/-! ## Requests -/

namespace WriteRequest

variable [Accessors Rule] {catalog : Catalog Rule} {heap : Heap}

omit [Accessors Rule] in
theorem evolves_settle
    {Result : Type} {access : Access Result} {answer : Heap → Result → Prop} (memory : Memory)
    (ensures : Access.Ensures catalog access heap answer) :
    heap.Evolves catalog (settle memory (access heap)).2.1 := by
  cases done : access heap with
  | ok result after => exact (ensures.of_ok done).1
  | error error after => exact ensures.of_error done

theorem evolves_setThen
    {root value : Value} {text : String} {hook : Hook Memory} {answer : Heap → Change → Prop}
    (memory : Memory) (keepsTypes : Hook.KeepsTypes catalog hook)
    (rootTyped : root.WellTyped catalog heap)
    (ensures : Access.Ensures catalog (root.set catalog text value) heap answer) :
    heap.Evolves catalog (root.setThen catalog hook text value heap memory).2.1 := by
  unfold Value.setThen
  cases done : root.set catalog text value heap with
  | error error after => exact ensures.of_error done
  | ok change after =>
      obtain ⟨evolves, _⟩ := ensures.of_ok done
      obtain ⟨path, _, _, _, _, _, rfl⟩ := Value.set_eq_ok_iff.mp done
      have stillTyped := rootTyped.of_grows evolves.grows
      exact evolves.trans (keepsTypes ⟨root, path⟩ after memory evolves.typed stillTyped)

/-- An allowed request keeps the heap well typed, whether it succeeds or fails. -/
theorem evolves_run
    {session : Session Rule Memory} {request : WriteRequest Memory} (typed : session.WellTyped)
    (allowed : request.Allowed session) :
    session.heap.Evolves session.catalog
      (request.run session.catalog session.heap session.memory).2.1 := by
  have assigning : ∀ (root value : Value) (text : String),
      root.WellTyped session.catalog session.heap → value.WellTyped session.catalog session.heap →
        Access.Ensures session.catalog (root.set session.catalog text value) session.heap
          fun _ _ => True :=
    fun root value text rootTyped valueTyped =>
      root.ensures_set typed.catalog typed.accessors typed.heap rootTyped valueTyped text
  cases request with
  | path root text value =>
      obtain ⟨rootTyped, valueTyped⟩ := allowed
      exact evolves_settle _ (assigning root value text rootTyped valueTyped)
  | shared handle text value =>
      obtain ⟨backed, valueTyped⟩ := allowed
      exact evolves_settle _ (assigning (.shared handle) value text (.shared backed) valueTyped)
  | reported onChange root text value =>
      obtain ⟨keepsTypes, rootTyped, valueTyped⟩ := allowed
      exact evolves_setThen _ keepsTypes rootTyped (assigning root value text rootTyped valueTyped)
  | edited editor root text value =>
      obtain ⟨keepsTypes, rootTyped, valueTyped⟩ := allowed
      obtain ⟨hook?⟩ := editor
      have ensures := assigning root value text rootTyped valueTyped
      cases hook? with
      | some hook => exact evolves_setThen _ (keepsTypes hook rfl) rootTyped ensures
      | none =>
          simp only [run, Editor.set]
          cases done : root.set session.catalog text value session.heap with
          | ok change after => exact (ensures.of_ok done).1
          | error error after => exact ensures.of_error done
  | located location value =>
      obtain ⟨kept, valueTyped⟩ := allowed
      have backed := typed.kept location kept
      exact evolves_settle _ (location.ensures_write typed.catalog typed.accessors typed.heap backed
        valueTyped)

end WriteRequest

/-! ## Soundness -/

namespace Session

section Runs

variable [Accessors Rule] {session : Session Rule Memory}

/-- Every allowed action keeps the invariant and all that is known about handles. -/
theorem WellTyped.perform
    {action : Action Rule Memory} (typed : session.WellTyped) (allowed : session.Allows action) :
    (session.perform action).WellTyped ∧ session.heap.Grows (session.perform action).heap := by
  have unchanged : session.heap.Grows session.heap := fun _ backed => backed
  cases action with
  | register label declaration => exact ⟨typed.register allowed.1 allowed.2, unchanged⟩
  | instantiate type =>
      simp only [Session.perform, Catalog.instantiate?]
      cases registered : session.catalog.layout? type with
      | none => exact ⟨typed, unchanged⟩
      | some layout =>
          obtain ⟨evolves, made⟩ := typed.catalog.instantiate typed.heap registered
          exact ⟨typed.answering evolves made, evolves.grows⟩
  | makeList element items =>
      simp only [Session.perform]
      cases made : session.heap.newList session.catalog element items with
      | error rejected => exact ⟨typed, unchanged⟩
      | ok list =>
          obtain ⟨evolves, listTyped⟩ := Heap.evolves_newList typed.heap allowed made
          exact ⟨typed.answering evolves listTyped, evolves.grows⟩
  | push handle value =>
      simp only [Session.perform]
      cases pushed : session.heap.push session.catalog handle value with
      | none => exact ⟨typed, unchanged⟩
      | some after =>
          have evolves := Heap.evolves_push typed.heap allowed.1 allowed.2 pushed
          exact ⟨typed.evolve evolves _, evolves.grows⟩
  | read root text =>
      have ensures := root.ensures_get typed.accessors typed.heap allowed text
      simp only [Session.perform]
      cases done : root.get session.catalog text session.heap with
      | error error after =>
          have evolves := ensures.of_error done
          exact ⟨typed.evolve evolves _, evolves.grows⟩
      | ok value after =>
          obtain ⟨evolves, valueTyped⟩ := ensures.of_ok done
          exact ⟨typed.answering evolves valueTyped, evolves.grows⟩
  | locate root path =>
      have ensures := root.ensures_locate typed.accessors typed.heap allowed path
      simp only [Session.perform]
      cases done : root.locate session.catalog path session.heap with
      | error error after =>
          have evolves := ensures.of_error done
          exact ⟨typed.evolve evolves _, evolves.grows⟩
      | ok location after =>
          obtain ⟨evolves, backed⟩ := ensures.of_ok done
          exact ⟨typed.keeping evolves backed, evolves.grows⟩
  | write request =>
      have evolves := request.evolves_run typed allowed
      exact ⟨typed.evolve evolves _, evolves.grows⟩

theorem Leads.wellTyped
    {first : Session Rule Memory} (leads : first.Leads session) (typed : first.WellTyped) :
    session.WellTyped ∧ first.heap.Grows session.heap := by
  induction leads with
  | refl => exact ⟨typed, fun _ backed => backed⟩
  | perform _ allowed inductionHypothesis =>
      obtain ⟨reachedTyped, grows⟩ := inductionHypothesis
      obtain ⟨performedTyped, further⟩ := reachedTyped.perform allowed
      exact ⟨performedTyped, fun handle backed => further handle (grows handle backed)⟩

/-- A callback keeps types when whatever it does to the graph can be done by allowed actions. -/
theorem keepsTypes_of_leads
    {catalog : Catalog Rule} {hook : Hook Memory} (wellFormed : catalog.WellFormed)
    (accessors : catalog.AccessorsKeepTypes)
    (acts : ∀ (change : Change) (heap : Heap) (memory : Memory),
      heap.WellTyped catalog → change.root.WellTyped catalog heap →
        ∃ after : Session Rule Memory,
          Leads ⟨catalog, heap, memory, [], [change.root]⟩ after ∧ after.catalog = catalog ∧
            after.heap = (hook change heap memory).1) :
    Hook.KeepsTypes catalog hook := by
  intro change heap memory heapTyped rootTyped
  obtain ⟨after, leads, sameCatalog, sameHeap⟩ := acts change heap memory heapTyped rootTyped
  obtain ⟨typed, grows⟩ := leads.wellTyped
    { catalog := wellFormed
      accessors := accessors
      heap := heapTyped
      kept := by simp
      answers := by simpa using rootTyped }
  rw [← sameHeap]
  exact ⟨sameCatalog ▸ typed.heap, grows⟩

theorem Reachable.wellTyped (reached : session.Reachable) :
    session.WellTyped := by
  obtain ⟨memory, leads⟩ := reached
  exact (leads.wellTyped (wellTyped_start memory)).1

theorem WellTyped.value
    {value : Value} (typed : session.WellTyped) (held : session.Holds value) :
    value.WellTyped session.catalog session.heap := by
  cases held with
  | initial registered found =>
      exact (typed.catalog.wellTyped_defaults registered session.heap).part found
  | answer given found => exact (typed.answers _ given).part found
  | @slot place value found =>
      obtain ⟨container, present, inside⟩ := Option.bind_eq_some_iff.mp found
      exact (typed.heap place.cell container present).part inside

theorem WellTyped.fits
    {owner : Composite} (typed : session.WellTyped) (contained : session.Contains owner) :
    owner.Fits session.catalog := by
  rcases contained with ⟨cell, present⟩ | held
  · exact (Composite.wellTyped_toValue_iff.mp (typed.heap cell _ present)).1
  · exact (Composite.wellTyped_toValue_iff.mp (typed.value held)).1

/-- In every state that a session reaches the graph is sound. -/
theorem sound_of_reachable (reached : session.Reachable) :
    session.Sound := by
  have typed := reached.wellTyped
  constructor
  · exact fun owner contained => typed.fits contained
  · exact fun cell elements present item inside => (typed.heap cell _ present item inside).1
  · intro handle held
    cases typed.value held with
    | shared backed => exact backed
  · exact typed.kept
  · intro owner contained step placed selected kind
    have fits := Composite.fitsLayout_layout (typed.fits contained)
    exact fits.lt_length (Composite.mem_of_select selected)
      (PlacedMember.stored?_eq_some_iff.mpr ⟨kind, rfl⟩)

theorem Reachable.perform
    {action : Action Rule Memory} (reached : session.Reachable) (allowed : session.Allows action) :
    (session.perform action).Reachable := by
  obtain ⟨memory, leads⟩ := reached
  exact ⟨memory, leads.perform allowed⟩

/-- A value that was handed out may be handed in again. -/
theorem Reachable.locate
    {root : Value} (reached : session.Reachable) (given : root ∈ session.answers) (path : Path) :
    (session.perform (.locate root path)).Reachable :=
  .perform reached (reached.wellTyped.answers root given)

theorem Reachable.writeKept
    {location : Location} {value : Value} (reached : session.Reachable)
    (kept : location ∈ session.kept) (typed : value.WellTyped session.catalog session.heap) :
    (session.perform (.write (.located location value))).Reachable :=
  .perform reached ⟨kept, typed⟩

end Runs

end Session

/-! ## A session with the ring -/

namespace Ring

def registered : Session PropertyRule Unit :=
  ((Session.start ()).perform (.register "main" pair)).perform (.register "main" node)

/-- The ring is closed: a new node gets itself as its successor. -/
def closed : Session PropertyRule Unit :=
  ((registered.perform (.instantiate ⟨"main", "Node"⟩)).perform
    (.locate root ⟨[.member "next"], by simp⟩)).perform
      (.write (.located ⟨handle, [], .member "next"⟩ root))

/-- The numbers of its pair are written through the computed member for both. -/
def filled : Session PropertyRule Unit :=
  (closed.perform (.locate root ⟨[.member "pair", .member "both"], by simp⟩)).perform
    (.write (.located ⟨handle, [.member "pair"], .member "both"⟩ (.int 7)))

/-- Then nodes are collected in a list. -/
def collected : Session PropertyRule Unit :=
  (filled.perform (.makeList (.object "Node") [root])).perform
    (.push (.list (.object "Node") 1) root)

theorem reachable_registered : registered.Reachable := by
  have plainPair : ∀ member ∈ pair.members, member.initial? = none := by
    simp [pair]
  have plainNode : ∀ member ∈ node.members, member.initial? = none := by
    simp [node]
  have suppliedPair := Member.supplied_of_plain plainPair Catalog.empty Heap.empty
  have suppliedNode := Member.supplied_of_plain plainNode pairCatalog Heap.empty
  have pairWellFormed : pairCatalog.WellFormed :=
    (Catalog.wellFormed_empty.register suppliedPair).1
  have wellFormed : catalog.WellFormed := (pairWellFormed.register suppliedNode).1
  exact ⟨(), .perform (.perform .refl
    ⟨suppliedPair, rulesFit_pairCatalog.accessorsKeepTypes pairWellFormed⟩)
    ⟨suppliedNode, rulesFit_catalog.accessorsKeepTypes wellFormed⟩⟩

theorem reachable_closed : closed.Reachable := by
  have made : (registered.perform (.instantiate ⟨"main", "Node"⟩)).Reachable :=
    .perform reachable_registered trivial
  have found := made.locate (List.mem_singleton.mpr rfl) ⟨[.member "next"], by simp⟩
  exact found.writeKept (List.mem_singleton.mpr rfl)
    (found.wellTyped.answers root (List.mem_singleton.mpr rfl))

theorem reachable_filled : filled.Reachable := by
  have given : root ∈ closed.answers := List.mem_singleton.mpr rfl
  have found := reachable_closed.locate given ⟨[.member "pair", .member "both"], by simp⟩
  exact found.writeKept List.mem_cons_self (.int 7)

theorem reachable_collected : collected.Reachable := by
  have given : root ∈ filled.answers := List.mem_singleton.mpr rfl
  have typed := reachable_filled.wellTyped.answers root given
  have listed : (filled.perform (.makeList (.object "Node") [root])).Reachable :=
    .perform reachable_filled fun item present => by rwa [List.mem_singleton.mp present]
  have handedOut := listed.wellTyped.answers
  have rootTyped := handedOut root (List.mem_cons_of_mem _ (List.mem_singleton.mpr rfl))
  have listTyped := handedOut (.shared (.list (.object "Node") 1)) List.mem_cons_self
  cases listTyped with
  | shared backed => exact .perform listed ⟨backed, rootTyped⟩

end Ring

/-- In the end the node is its own successor and the list holds it twice. -/
theorem Session.sound_collected :
    Ring.collected.Reachable ∧ Ring.collected.Sound ∧
      Ring.collected.heap.cells.toList =
        [.composite ⟨⟨"main", "Node"⟩,
            [.struct ⟨"main", "Pair"⟩ [.int 7, .int 7], Ring.root]⟩,
          .sequence ⟨.object "Node", [Ring.root, Ring.root]⟩] :=
  ⟨Ring.reachable_collected, sound_of_reachable Ring.reachable_collected, rfl⟩

end ObjectGraph
