import ObjectGraph.Proofs.Conservation
import ObjectGraph.Proofs.Session

/-!
# Lists only grow

Nothing that can be done to a graph makes a list shorter: elements are appended and replaced, never
removed. Reading and writing computed members, callbacks and hooks run code that is brought along,
and of this code it is assumed as a law. Under the law every action of a session keeps what has been
reached in each list, and so does every run of actions, whether they succeed or fail.
-/

namespace ObjectGraph

variable {Rule Memory : Type}

/-- Every list is still a list afterwards, and it is not shorter. -/
def Heap.KeepsLists (before after : Heap) : Prop :=
  ∀ (cell : Nat) (elements : Sequence), before.cells[cell]? = some (.sequence elements) →
    ∃ later, after.cells[cell]? = some (.sequence later) ∧
      elements.items.length ≤ later.items.length

/-- Neither reading nor writing a computed member makes a list shorter. -/
structure Accessors.KeepsLists (Rule : Type) [Accessors Rule] : Prop where
  read : Accessors.ReadsRespect Rule Heap.KeepsLists
  write : ∀ (rule : Rule) (write : Catalog Rule → Composite → Value → Heap → Composite × Heap),
    write? rule = some write →
      ∀ (catalog : Catalog Rule) (owner : Composite) (value : Value) (heap : Heap),
        heap.KeepsLists (write catalog owner value heap).2

/-- A callback or hook that makes no list shorter. -/
def Hook.KeepsLists (hook : Hook Memory) : Prop :=
  ∀ (change : Change) (heap : Heap) (memory : Memory),
    heap.KeepsLists (hook change heap memory).1

def WriteRequest.hook? : WriteRequest Memory → Option (Hook Memory)
  | reported onChange _ _ _ => some onChange
  | edited editor _ _ _ => editor.hook?
  | _ => none

/-- Whatever listens to an action makes no list shorter. -/
def Action.KeepsLists : Action Rule Memory → Prop
  | .write request => ∀ hook, request.hook? = some hook → Hook.KeepsLists hook
  | _ => True

/-- The state after some actions, one after the other, whether they succeed or fail. -/
def Session.performAll [Accessors Rule] (session : Session Rule Memory)
    (actions : List (Action Rule Memory)) : Session Rule Memory :=
  actions.foldl Session.perform session

/-! ## Changes of one heap -/

namespace Heap

variable {before middle after heap : Heap}

namespace KeepsLists

theorem refl (heap : Heap) :
    heap.KeepsLists heap :=
  fun _ elements present => ⟨elements, present, le_refl _⟩

theorem trans (first : before.KeepsLists middle) (second : middle.KeepsLists after) :
    before.KeepsLists after := by
  intro cell elements present
  rcases first cell elements present with ⟨between, presentBetween, grown⟩
  rcases second cell between presentBetween with ⟨later, presentLater, furtherGrown⟩
  exact ⟨later, presentLater, grown.trans furtherGrown⟩

instance : IsPreorder Heap KeepsLists where
  refl := refl
  trans _ _ _ := trans

end KeepsLists

theorem Extends.keepsLists (kept : after.Extends before) :
    before.KeepsLists after :=
  fun cell elements present => ⟨elements, kept cell _ present, le_refl _⟩

/-- Replacing a container keeps the lists if the container was none, or if it is replaced by a list
that is not shorter. -/
theorem keepsLists_write
    {handle : Handle} {container : Container} (kept : before.KeepsLists middle)
    (grown : ∀ elements, before.read handle = .sequence elements →
      ∃ later, container = .sequence later ∧ elements.items.length ≤ later.items.length) :
    before.KeepsLists (middle.write handle container) := by
  intro cell elements present
  rcases kept cell elements present with ⟨between, presentBetween, grownBetween⟩
  by_cases written : handle.cell = cell
  · subst written
    have held : before.read handle = .sequence elements := by
      simp only [read, present]
    rcases grown elements held with ⟨later, rfl, longer⟩
    have live : handle.cell < middle.cells.size :=
      (Array.getElem?_eq_some_iff.mp presentBetween).1
    refine ⟨later, ?_, longer⟩
    simp only [write, Array.getElem?_setIfInBounds_self_of_lt live]
  · refine ⟨between, ?_, grownBetween⟩
    simpa only [write, Array.getElem?_setIfInBounds_ne written] using presentBetween

theorem keepsLists_push
    {catalog : Catalog Rule} {handle : Handle} {value : Value}
    (pushed : heap.push catalog handle value = some after) :
    heap.KeepsLists after := by
  unfold push at pushed
  cases content : heap.read handle with
  | composite owner => simp [content] at pushed
  | sequence elements =>
      simp only [content, Option.ite_none_right_eq_some, Option.some.injEq] at pushed
      rcases pushed with ⟨_, rfl⟩
      apply keepsLists_write (KeepsLists.refl heap)
      intro old held
      rw [content, Container.sequence.injEq] at held
      subst held
      exact ⟨_, rfl, by simp⟩

theorem keepsLists_newList
    {catalog : Catalog Rule} {element : SlotType} {items : List Value} {list : Value}
    (made : heap.newList catalog element items = .ok (list, after)) :
    heap.KeepsLists after := by
  unfold newList at made
  split at made
  · cases made
  · cases made
    exact (heap.extends_push _).keepsLists

/-- An owner of a computed member is put back without making a list shorter: it is no list itself,
and a list keeps its length when something behind an element is replaced. -/
theorem exists_setOwner_of_sequence
    {catalog : Catalog Rule} {location : Location} {indices : List Nat} {owner : Composite}
    {placed : PlacedMember Rule} {rule : Rule} {elements : Sequence}
    (aimed : location.target catalog heap = .ok (.computed indices owner placed rule))
    (held : heap.read location.anchor = .sequence elements) (updated : Composite) :
    ∃ later, (heap.read location.anchor).setOwner indices updated = .sequence later ∧
      later.items.length = elements.items.length := by
  rcases Container.target_eq_ok_iff.mp aimed with ⟨passed, reached, descended, aims⟩
  rcases Container.eq_owner_of_aim_computed aims with ⟨rfl, rfl⟩
  rw [held] at descended ⊢
  cases indices with
  | nil =>
      cases hops : location.hops with
      | nil =>
          rw [hops, Container.descend] at descended
          cases descended
      | cons hop further =>
          rw [hops, Container.descend_cons_eq_ok_iff] at descended
          rcases descended with ⟨_, _, _, _, _, _, impossible⟩
          cases impossible
  | cons index indices => exact ⟨_, rfl, by simp [Sequence.replace]⟩

end Heap

/-! ## Computed members -/

namespace Accessors

/-- Code that changes nothing but the owner makes no list shorter. -/
theorem keepsLists_of_writesOwner
    [Accessors Rule] (readsOnly : ReadsOnly Rule) (writesOwner : WritesOwner Rule) :
    KeepsLists Rule where
  read rule catalog owner heap := (readsOnly rule catalog owner heap).keepsLists
  write rule write writer catalog owner value heap :=
    (writesOwner rule write writer catalog owner value heap).keepsLists

end Accessors

section Actions

variable [Accessors Rule]

/-! ## Writes -/

/-- A write through a location, wherever it leads by now, makes no list shorter. -/
theorem Location.respects_write
    (keepsLists : Accessors.KeepsLists Rule) (catalog : Catalog Rule) (location : Location)
    (value : Value) :
    Access.Respects Heap.KeepsLists (location.write catalog value) := by
  intro heap
  cases done : location.write catalog value heap with
  | error error after =>
      rw [Access.heapAfter_of_error done, (location.write_error done).1]
      exact Heap.KeepsLists.refl heap
  | ok written after =>
      rw [Access.heapAfter_of_ok done]
      rcases write_cases done with
        ⟨indices, type, _, _, rfl⟩ | ⟨indices, owner, placed, rule, write, aimed, _, writer, rfl⟩
      · rw [← heap.write_replace]
        apply Heap.keepsLists_write (Heap.KeepsLists.refl heap)
        intro elements held
        rw [held]
        refine ⟨_, rfl, ?_⟩
        cases indices <;> simp [Sequence.replace]
      · apply Heap.keepsLists_write (keepsLists.write rule write writer catalog owner value heap)
        intro elements held
        rcases Heap.exists_setOwner_of_sequence aimed held (write catalog owner value heap).1 with
          ⟨later, same, sameLength⟩
        exact ⟨later, same, sameLength.ge⟩

theorem Value.respects_set
    (keepsLists : Accessors.KeepsLists Rule) (catalog : Catalog Rule) (root : Value)
    (text : String) (value : Value) :
    Access.Respects Heap.KeepsLists (root.set catalog text value) := by
  refine (Access.respects_lift _).bind fun path => ?_
  refine (root.respects_locate keepsLists.read catalog path).bind fun location => ?_
  exact (location.respects_write keepsLists catalog value).bind fun _ => Access.respects_pure _

theorem Value.respects_get
    (keepsLists : Accessors.KeepsLists Rule) (catalog : Catalog Rule) (root : Value)
    (text : String) :
    Access.Respects Heap.KeepsLists (root.get catalog text) := by
  refine (Access.respects_lift _).bind fun path => ?_
  exact root.respects_follow keepsLists.read catalog path.steps none

/-! ## Requests -/

namespace WriteRequest

omit [Accessors Rule] in
theorem heapAfter_settle
    {Result : Type} (access : Access Result) (heap : Heap) (memory : Memory) :
    (settle memory (access heap)).2.1 = Access.heapAfter access heap := by
  rw [Access.heapAfter]
  cases access heap <;> rfl

theorem keepsLists_setThen
    (keepsLists : Accessors.KeepsLists Rule) {hook : Hook Memory} (listener : hook.KeepsLists)
    (catalog : Catalog Rule) (root : Value) (text : String) (value : Value) (heap : Heap)
    (memory : Memory) :
    heap.KeepsLists (root.setThen catalog hook text value heap memory).2.1 := by
  have written := root.respects_set keepsLists catalog text value
  unfold Value.setThen
  cases done : root.set catalog text value heap with
  | error error after => exact written.of_error done
  | ok change after => exact (written.of_ok done).trans (listener change after memory)

/-- A request makes no list shorter, and neither does what listens to it. -/
theorem keepsLists_run
    (keepsLists : Accessors.KeepsLists Rule) {request : WriteRequest Memory}
    (listener : ∀ hook, request.hook? = some hook → Hook.KeepsLists hook)
    (catalog : Catalog Rule) (heap : Heap) (memory : Memory) :
    heap.KeepsLists (request.run catalog heap memory).2.1 := by
  cases request with
  | path root text value =>
      rw [run, heapAfter_settle]
      exact root.respects_set keepsLists catalog text value heap
  | shared handle text value =>
      rw [run, heapAfter_settle]
      exact (Value.shared handle).respects_set keepsLists catalog text value heap
  | reported onChange root text value =>
      have kept := listener onChange rfl
      exact keepsLists_setThen keepsLists kept catalog root text value heap memory
  | edited editor root text value =>
      rcases editor with ⟨hook?⟩
      cases hook? with
      | some hook =>
          have kept := listener hook rfl
          exact keepsLists_setThen keepsLists kept catalog root text value heap memory
      | none =>
          have written := root.respects_set keepsLists catalog text value
          simp only [run, Editor.set]
          cases done : root.set catalog text value heap with
          | error error after => exact written.of_error done
          | ok change after => exact written.of_ok done
  | located location value =>
      rw [run, heapAfter_settle]
      exact location.respects_write keepsLists catalog value heap

end WriteRequest

/-! ## Actions -/

namespace Session

variable {session : Session Rule Memory}

/-- One action makes no list shorter. -/
theorem keepsLists_perform
    (keepsLists : Accessors.KeepsLists Rule) {action : Action Rule Memory}
    (listener : action.KeepsLists) (session : Session Rule Memory) :
    session.heap.KeepsLists (session.perform action).heap := by
  cases action with
  | register label declaration => exact Heap.KeepsLists.refl _
  | instantiate type =>
      simp only [perform, Catalog.instantiate?]
      cases session.catalog.layout? type with
      | none => exact Heap.KeepsLists.refl _
      | some layout => exact (session.catalog.extends_instantiate type session.heap).keepsLists
  | makeList element items =>
      simp only [perform]
      cases made : session.heap.newList session.catalog element items with
      | error rejected => exact Heap.KeepsLists.refl _
      | ok list => exact Heap.keepsLists_newList made
  | push handle value =>
      simp only [perform]
      cases pushed : session.heap.push session.catalog handle value with
      | none => exact Heap.KeepsLists.refl _
      | some after => exact Heap.keepsLists_push pushed
  | read root text =>
      have reached := root.respects_get keepsLists session.catalog text
      simp only [perform]
      cases done : root.get session.catalog text session.heap with
      | error error after => exact reached.of_error done
      | ok value after => exact reached.of_ok done
  | locate root path =>
      have reached := root.respects_locate keepsLists.read session.catalog path
      simp only [perform]
      cases done : root.locate session.catalog path session.heap with
      | error error after => exact reached.of_error done
      | ok location after => exact reached.of_ok done
  | write request =>
      exact request.keepsLists_run keepsLists listener session.catalog session.heap session.memory

/-- A run of any actions makes no list shorter. -/
theorem keepsLists_performAll
    (keepsLists : Accessors.KeepsLists Rule) {actions : List (Action Rule Memory)}
    (listeners : ∀ action ∈ actions, action.KeepsLists) (session : Session Rule Memory) :
    session.heap.KeepsLists (session.performAll actions).heap := by
  induction actions generalizing session with
  | nil => exact Heap.KeepsLists.refl _
  | cons action actions inductionHypothesis =>
      rcases List.forall_mem_cons.mp listeners with ⟨listener, others⟩
      have performed := session.keepsLists_perform keepsLists listener
      exact performed.trans (inductionHypothesis others (session.perform action))

/-- A callback makes no list shorter when whatever it does to the graph can be done by actions. -/
theorem hook_keepsLists_of_actions
    (keepsLists : Accessors.KeepsLists Rule) {hook : Hook Memory}
    (acts : ∀ (change : Change) (heap : Heap) (memory : Memory),
      ∃ (session : Session Rule Memory) (actions : List (Action Rule Memory)),
        session.heap = heap ∧ (∀ action ∈ actions, action.KeepsLists) ∧
          (session.performAll actions).heap = (hook change heap memory).1) :
    hook.KeepsLists := by
  intro change heap memory
  rcases acts change heap memory with ⟨session, actions, rfl, listeners, same⟩
  rw [← same]
  exact session.keepsLists_performAll keepsLists listeners

end Session

end Actions

end ObjectGraph
