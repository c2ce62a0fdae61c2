import ObjectGraph.Access.Edit
import ObjectGraph.Examples.Ring
import ObjectGraph.Proofs.Conservation
import ObjectGraph.Proofs.Target

/-!
# Failed writes

There are several ways to ask for a write: by a path text from a value or from a handle, with a
callback or with an editor's hook, and through a location found earlier. They are gathered here as
requests. A request that fails leaves every object and every list as it was. It runs no writer of a
computed member, no callback and no hook: whatever these would do, the request fails in the same way
and leaves the same heap.
-/

namespace ObjectGraph

variable {Rule Memory : Type}

/-- Something that asks for a write: by a path text, from any value or from a shared object or list,
with a callback or with an editor, or through a location, found just now or kept while the graph
changed. -/
inductive WriteRequest (Memory : Type) where
  | path (root : Value) (text : String) (value : Value)
  | shared (handle : Handle) (text : String) (value : Value)
  | reported (onChange : Hook Memory) (root : Value) (text : String) (value : Value)
  | edited (editor : Editor Memory) (root : Value) (text : String) (value : Value)
  | located (location : Location) (value : Value)

namespace WriteRequest

/-- The same request with another callback or hook in place of the one it has, if it has one. -/
def withHook (hook : Hook Memory) : WriteRequest Memory → WriteRequest Memory
  | reported _ root text value => reported hook root text value
  | edited editor root text value => edited ⟨editor.hook?.map fun _ => hook⟩ root text value
  | request => request

/-- The write that a request asks for, without anything that listens to it. -/
def attempt [Accessors Rule] (catalog : Catalog Rule) : WriteRequest Memory → Access Unit
  | path root text value => discard (root.set catalog text value)
  | shared handle text value => discard (handle.set catalog text value)
  | reported _ root text value => discard (root.set catalog text value)
  | edited _ root text value => discard (root.set catalog text value)
  | located location value => location.write catalog value

/-- What a write without a listener comes to. -/
def settle {Result : Type} (memory : Memory) :
    EStateM.Result AccessError Heap Result → Except AccessError Unit × Heap × Memory
  | .ok _ after => (.ok (), after, memory)
  | .error error after => (.error error, after, memory)

def run [Accessors Rule] (catalog : Catalog Rule) (request : WriteRequest Memory) (heap : Heap)
    (memory : Memory) : Except AccessError Unit × Heap × Memory :=
  match request with
  | path root text value => settle memory (root.set catalog text value heap)
  | shared handle text value => settle memory (handle.set catalog text value heap)
  | reported onChange root text value =>
      let (answer, after) := root.setThen catalog onChange text value heap memory
      (answer.map fun _ => (), after)
  | edited editor root text value =>
      let (answer, after) := editor.set catalog root text value heap memory
      (answer.map fun _ => (), after)
  | located location value => settle memory (location.write catalog value heap)

end WriteRequest

/-- Two meanings of the tokens that agree on reading and on what can be written, but not on what
writing does. -/
structure Accessors.SameButWriting (first second : Accessors Rule) : Prop where
  read : first.read = second.read
  writable : ∀ rule, (first.write? rule).isSome = (second.write? rule).isSome

/-! ## Locating without writers -/

theorem Value.locate_eq_of_sameButWriting
    {first second : Accessors Rule} (same : first.SameButWriting second)
    (catalog : Catalog Rule) (root : Value) (path : Path) :
    @Value.locate Rule first catalog root path = @Value.locate Rule second catalog root path := by
  obtain ⟨read, firstWrite⟩ := first
  obtain ⟨otherRead, secondWrite⟩ := second
  obtain rfl : read = otherRead := same.read
  have sameAdvance : ∀ (steps : List Step) (walk : Walk),
      @Walk.advanceAll Rule ⟨read, firstWrite⟩ catalog steps walk =
        @Walk.advanceAll Rule ⟨read, secondWrite⟩ catalog steps walk := by
    intro steps
    induction steps with
    | nil => exact fun walk => rfl
    | cons step steps inductionHypothesis =>
        intro walk
        simp only [Walk.advanceAll, inductionHypothesis]
        rfl
  simp only [Value.locate, sameAdvance]

/-! ## Writing without writers -/

/-- A write through a location that fails leaves the heap alone, and it fails in the same way
whatever the writers of computed members do. -/
theorem Location.write_error
    [first : Accessors Rule] {catalog : Catalog Rule} {location : Location} {value : Value}
    {heap after : Heap} {error : AccessError}
    (failed : location.write catalog value heap = .error error after) :
    after = heap ∧
      ∀ second : Accessors Rule, first.SameButWriting second →
        @Location.write Rule second catalog location value heap = .error error heap := by
  rw [write_apply] at failed
  cases aimed : location.target catalog heap with
  | error reason =>
      simp only [aimed, EStateM.Result.error.injEq] at failed
      obtain ⟨rfl, rfl⟩ := failed
      refine ⟨rfl, fun second same => ?_⟩
      rw [@write_apply Rule second, aimed]
  | ok target =>
      rw [aimed] at failed
      cases target with
      | slot indices type =>
          simp only at failed
          by_cases fits : type.accepts catalog value = true
          · simp [fits] at failed
          · simp only [if_neg fits, EStateM.Result.error.injEq] at failed
            obtain ⟨rfl, rfl⟩ := failed
            refine ⟨rfl, fun second same => ?_⟩
            simp only [@write_apply Rule second, aimed, if_neg fits]
      | computed indices owner placed rule =>
          simp only at failed
          by_cases fits : placed.type.accepts catalog value = true
          · simp only [if_pos fits] at failed
            cases writer : first.write? rule with
            | some write => simp [writer] at failed
            | none =>
                simp only [writer, EStateM.Result.error.injEq] at failed
                obtain ⟨rfl, rfl⟩ := failed
                refine ⟨rfl, fun second same => ?_⟩
                have writerless : second.write? rule = none := by
                  have writable := same.writable rule
                  rw [writer] at writable
                  exact Option.isNone_iff_eq_none.mp (by simpa using writable.symm)
                simp only [@write_apply Rule second, aimed, if_pos fits, writerless]
          · simp only [if_neg fits, EStateM.Result.error.injEq] at failed
            obtain ⟨rfl, rfl⟩ := failed
            refine ⟨rfl, fun second same => ?_⟩
            simp only [@write_apply Rule second, aimed, if_neg fits]

/-- A write at a path text that fails may have added cells while it looked for the location, and
nothing else. -/
theorem Value.set_error
    [first : Accessors Rule] (readsOnly : Accessors.ReadsOnly Rule)
    {catalog : Catalog Rule} {root value : Value} {text : String} {heap after : Heap}
    {error : AccessError}
    (failed : root.set catalog text value heap = .error error after) :
    after.Extends heap ∧
      ∀ second : Accessors Rule, first.SameButWriting second →
        @Value.set Rule second catalog root text value heap = .error error after := by
  rw [set_apply] at failed
  cases parsed : Path.ofText text with
  | error reason =>
      simp only [parsed, EStateM.Result.error.injEq] at failed
      obtain ⟨rfl, rfl⟩ := failed
      refine ⟨Heap.Extends.refl heap, fun second same => ?_⟩
      rw [@set_apply Rule second, parsed]
  | ok path =>
      simp only [parsed] at failed
      have keeps := root.keeps_locate readsOnly catalog path
      cases located : root.locate catalog path heap with
      | error reason reached =>
          simp only [located, EStateM.Result.error.injEq] at failed
          obtain ⟨rfl, rfl⟩ := failed
          refine ⟨keeps.of_error located, fun second same => ?_⟩
          rw [locate_eq_of_sameButWriting same] at located
          simp only [@set_apply Rule second, parsed, located]
      | ok location reached =>
          simp only [located] at failed
          cases written : location.write catalog value reached with
          | ok done final => simp [written] at failed
          | error reason final =>
              simp only [written, EStateM.Result.error.injEq] at failed
              obtain ⟨rfl, rfl⟩ := failed
              obtain ⟨rfl, otherwise⟩ := location.write_error written
              refine ⟨keeps.of_ok located, fun second same => ?_⟩
              rw [locate_eq_of_sameButWriting same] at located
              simp only [@set_apply Rule second, parsed, located, otherwise second same]

/-! ## Requests -/

namespace WriteRequest

theorem settle_eq_error_iff
    {Result : Type} {memory remembered : Memory} {result : EStateM.Result AccessError Heap Result}
    {error : AccessError} {after : Heap} :
    settle memory result = (.error error, after, remembered) ↔
      result = .error error after ∧ remembered = memory := by
  cases result with
  | ok answer final => simp [settle]
  | error reason final =>
      simp only [settle, Prod.mk.injEq, Except.error.injEq, EStateM.Result.error.injEq]
      constructor
      · rintro ⟨rfl, rfl, rfl⟩
        exact ⟨⟨rfl, rfl⟩, rfl⟩
      · rintro ⟨⟨rfl, rfl⟩, rfl⟩
        exact ⟨rfl, rfl, rfl⟩

theorem discard_eq_error_iff
    {Result : Type} {access : Access Result} {heap after : Heap} {error : AccessError} :
    (discard access : Access Unit) heap = .error error after ↔
      access heap = .error error after := by
  have mapped : (discard access : Access Unit) = (fun _ => ()) <$> access := rfl
  rw [mapped, Access.map_apply]
  cases access heap <;> simp

section Run

variable [Accessors Rule]

/-- A request fails exactly when the write fails that it asks for, and then nothing listens. -/
theorem run_eq_error_iff
    {catalog : Catalog Rule} {request : WriteRequest Memory} {heap after : Heap}
    {memory remembered : Memory} {error : AccessError} :
    request.run catalog heap memory = (.error error, after, remembered) ↔
      request.attempt catalog heap = .error error after ∧ remembered = memory := by
  have told : ∀ (hook : Hook Memory) (root : Value) (text : String) (value : Value),
      ((root.setThen catalog hook text value heap memory).1.map fun _ => (),
          (root.setThen catalog hook text value heap memory).2) =
          (.error error, after, remembered) ↔
        root.set catalog text value heap = .error error after ∧ remembered = memory := by
    intro hook root text value
    rw [← settle_eq_error_iff]
    simp only [Value.setThen]
    cases root.set catalog text value heap with
    | ok change reached => simp [settle, Except.map]
    | error reason reached => rfl
  cases request with
  | path root text value => rw [attempt, discard_eq_error_iff, run, settle_eq_error_iff]
  | shared handle text value => rw [attempt, discard_eq_error_iff, run, settle_eq_error_iff]
  | reported hook root text value =>
      rw [attempt, discard_eq_error_iff]
      exact told hook root text value
  | edited editor root text value =>
      obtain ⟨hook?⟩ := editor
      rw [attempt, discard_eq_error_iff]
      cases hook? with
      | some hook => exact told hook root text value
      | none =>
          rw [← settle_eq_error_iff]
          simp only [run, Editor.set]
          cases root.set catalog text value heap <;> rfl
  | located location value => rw [attempt, run, settle_eq_error_iff]

theorem attempt_withHook
    (catalog : Catalog Rule) (hook : Hook Memory) (request : WriteRequest Memory) :
    (request.withHook hook).attempt catalog = request.attempt catalog := by
  cases request <;> rfl

end Run

theorem attempt_error
    [first : Accessors Rule] (readsOnly : Accessors.ReadsOnly Rule)
    {catalog : Catalog Rule} {request : WriteRequest Memory} {heap after : Heap}
    {error : AccessError}
    (failed : request.attempt catalog heap = .error error after) :
    after.Extends heap ∧
      ∀ second : Accessors Rule, first.SameButWriting second →
        @attempt Rule Memory second catalog request heap = .error error after := by
  have assigning : ∀ (root : Value) (text : String) (value : Value),
      (discard (root.set catalog text value) : Access Unit) heap = .error error after →
        after.Extends heap ∧
          ∀ second : Accessors Rule, first.SameButWriting second →
            (discard (@Value.set Rule second catalog root text value) : Access Unit) heap =
              .error error after := by
    intro root text value failed
    obtain ⟨kept, otherwise⟩ := root.set_error readsOnly (discard_eq_error_iff.mp failed)
    exact ⟨kept, fun second same => discard_eq_error_iff.mpr (otherwise second same)⟩
  cases request with
  | path root text value => exact assigning root text value failed
  | shared handle text value => exact assigning (.shared handle) text value failed
  | reported hook root text value => exact assigning root text value failed
  | edited editor root text value => exact assigning root text value failed
  | located location value =>
      obtain ⟨rfl, otherwise⟩ := location.write_error failed
      exact ⟨Heap.Extends.refl _, otherwise⟩

/-- A request that fails changes no object and no list and leaves the listener as it was. Other
writers of computed members and another listener make no difference to it. -/
theorem unchanged_of_run_error
    [first : Accessors Rule] (readsOnly : Accessors.ReadsOnly Rule)
    {catalog : Catalog Rule} {request : WriteRequest Memory} {heap after : Heap}
    {memory remembered : Memory} {error : AccessError}
    (failed : request.run catalog heap memory = (.error error, after, remembered)) :
    after.Extends heap ∧ remembered = memory ∧
      ∀ (second : Accessors Rule) (hook : Hook Memory), first.SameButWriting second →
        @run Rule Memory second catalog (request.withHook hook) heap memory =
          (.error error, after, memory) := by
  obtain ⟨failure, unheard⟩ := run_eq_error_iff.mp failed
  obtain ⟨kept, otherwise⟩ := request.attempt_error readsOnly failure
  refine ⟨kept, unheard, fun second hook same => ?_⟩
  rw [run_eq_error_iff, attempt_withHook]
  exact ⟨otherwise second same, rfl⟩

/-- An editor that counts changes is asked for a pair in a spare node, which is made on the way. The
number in it turns out to be a text. -/
def mismatchedEdit : WriteRequest Nat :=
  edited ⟨some fun _ heap count => (heap, count + 1)⟩ Ring.root "spare.pair.x" (.text "one")

theorem unchanged_of_mismatchedEdit :
    let after := (Ring.catalog.instantiate ⟨"main", "Node"⟩ Ring.heap).2
    mismatchedEdit.run Ring.catalog Ring.heap 0 =
        (.error (.typeMismatch .int "string"), after, 0) ∧
      after.Extends Ring.heap ∧ 0 = 0 ∧
      ∀ (second : Accessors PropertyRule) (hook : Hook Nat),
        instAccessorsPropertyRule.SameButWriting second →
          @run PropertyRule Nat second Ring.catalog (mismatchedEdit.withHook hook) Ring.heap 0 =
            (.error (.typeMismatch .int "string"), after, 0) := by
  intro after
  have failed :
      mismatchedEdit.run Ring.catalog Ring.heap 0 =
        (.error (.typeMismatch .int "string"), after, 0) := by
    have parsed :
        Path.parse "spare.pair.x" =
          .ok ⟨[.member "spare", .member "pair", .member "x"], by simp⟩ := by
      decide +kernel
    rw [run_eq_error_iff, mismatchedEdit, attempt, discard_eq_error_iff, Value.set_apply,
      Path.ofText_of_parse parsed]
    exact ⟨rfl, rfl⟩
  exact ⟨failed, unchanged_of_run_error PropertyRule.readsOnly failed⟩

end WriteRequest

end ObjectGraph
