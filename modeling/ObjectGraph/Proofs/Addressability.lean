import Mathlib.Data.List.Induction
import ObjectGraph.Examples.Ring
import ObjectGraph.Proofs.Access

/-!
# Which slots have a location

Suppose that a path can be read, and look at the values on the way: the root, and what every step
before the last one has produced. They decide whether the slot at the end has a location.

* The last object or list among them is the anchor, and the steps after it lead down from there.
* There is no location when there is no object and no list, or when a computed member has produced a
  struct after the last of them. The failure names the last such struct, or the root.
-/

namespace ObjectGraph

variable {Rule : Type}

/-- A step that was taken and what it read. -/
structure Leg where
  step : Step
  reading : Reading

/-- The type and the step of a struct that a computed member has produced. -/
def Leg.copy? (leg : Leg) : Option (TypeId × Step) :=
  match leg.reading.value, leg.reading.origin with
  | .struct type _, .computed => some (type, leg.step)
  | _, _ => none

/-- Follows steps as a read does, and keeps everything that was read. -/
def Value.trace [Accessors Rule] (catalog : Catalog Rule) :
    List Step → Option Step → Value → Access (List Leg)
  | [], _, _ => return []
  | step :: steps, reachedBy?, value => do
      let reading ← value.fetch catalog reachedBy? step
      let legs ← reading.value.trace catalog steps (some step)
      return ⟨step, reading⟩ :: legs

namespace Leg

/-- The values on the way: the root has position zero, and every leg adds what it produced. -/
def valueAt? (root : Value) (legs : List Leg) : Nat → Option Value
  | 0 => some root
  | position + 1 => legs[position]?.map fun leg => leg.reading.value

/-- The struct at a position on the way, if a computed member has produced it. -/
def copyAt? (legs : List Leg) : Nat → Option (TypeId × Step)
  | 0 => none
  | position + 1 => legs[position]?.bind Leg.copy?

/-- The value at a position is a shared one, and no later value is. -/
structure LastReference (root : Value) (legs : List Leg) (position : Nat) (handle : Handle) :
    Prop where
  found : valueAt? root legs position = some (.shared handle)
  last : ∀ later, position < later → ∀ other, valueAt? root legs later ≠ some (.shared other)

/-- A computed member has produced the struct at a position. All shared values come before it, and
no later struct has been produced in this way. -/
structure LastCopy (root : Value) (legs : List Leg) (position : Nat) (type : TypeId)
    (step : Step) : Prop where
  found : copyAt? legs position = some (type, step)
  last : ∀ later, position < later → copyAt? legs later = none
  afterReferences : ∀ earlier handle,
    valueAt? root legs earlier = some (.shared handle) → earlier < position

/-! ## One more leg -/

theorem getElem?_append_singleton (legs : List Leg) (leg : Leg) (index : Nat) :
    (legs ++ [leg])[index]? = if index = legs.length then some leg else legs[index]? := by
  by_cases final : index = legs.length
  · simp [final]
  · rw [if_neg final]
    by_cases inside : index < legs.length
    · rw [List.getElem?_append_left inside]
    · rw [List.getElem?_eq_none (by simp; omega), List.getElem?_eq_none (by omega)]

theorem valueAt?_append_singleton (root : Value) (legs : List Leg) (leg : Leg) (position : Nat) :
    valueAt? root (legs ++ [leg]) position =
      if position = legs.length + 1 then
        some leg.reading.value
      else
        valueAt? root legs position := by
  cases position with
  | zero => rfl
  | succ position =>
      simp only [valueAt?, getElem?_append_singleton, Nat.add_right_cancel_iff]
      split <;> rfl

theorem copyAt?_append_singleton (legs : List Leg) (leg : Leg) (position : Nat) :
    copyAt? (legs ++ [leg]) position =
      if position = legs.length + 1 then leg.copy? else copyAt? legs position := by
  cases position with
  | zero => rfl
  | succ position =>
      simp only [copyAt?, getElem?_append_singleton, Nat.add_right_cancel_iff]
      split <;> rfl

theorem le_length_of_valueAt?
    {root value : Value} {legs : List Leg} {position : Nat}
    (found : valueAt? root legs position = some value) :
    position ≤ legs.length := by
  cases position with
  | zero => exact Nat.zero_le _
  | succ position =>
      obtain ⟨leg, present, _⟩ := Option.map_eq_some_iff.mp found
      exact (List.getElem?_eq_some_iff.mp present).1

theorem le_length_of_copyAt?
    {legs : List Leg} {position : Nat} {copy : TypeId × Step}
    (found : copyAt? legs position = some copy) :
    position ≤ legs.length := by
  cases position with
  | zero => exact Nat.zero_le _
  | succ position =>
      obtain ⟨leg, present, _⟩ := Option.bind_eq_some_iff.mp found
      exact (List.getElem?_eq_some_iff.mp present).1

section Plain

variable {root : Value} {legs : List Leg} {leg : Leg}

theorem valueAt?_append_ne_shared
    (notShared : ∀ handle, leg.reading.value ≠ .shared handle) {position : Nat} {handle : Handle}
    (before : valueAt? root legs position ≠ some (.shared handle)) :
    valueAt? root (legs ++ [leg]) position ≠ some (.shared handle) := by
  rw [valueAt?_append_singleton]
  split
  · exact fun same => notShared handle (Option.some.inj same)
  · exact before

theorem copyAt?_append_eq_none
    (notCopied : leg.copy? = none) {position : Nat} (before : copyAt? legs position = none) :
    copyAt? (legs ++ [leg]) position = none := by
  rw [copyAt?_append_singleton]
  split
  · exact notCopied
  · exact before

theorem LastReference.append
    {position : Nat} {handle : Handle} (reference : LastReference root legs position handle)
    (notShared : ∀ handle, leg.reading.value ≠ .shared handle) :
    LastReference root (legs ++ [leg]) position handle := by
  constructor
  · have inside := le_length_of_valueAt? reference.found
    rw [valueAt?_append_singleton, if_neg (by omega)]
    exact reference.found
  · intro later after other
    exact valueAt?_append_ne_shared notShared (reference.last later after other)

theorem LastCopy.append
    {position : Nat} {type : TypeId} {step : Step} (copy : LastCopy root legs position type step)
    (notShared : ∀ handle, leg.reading.value ≠ .shared handle) (notCopied : leg.copy? = none) :
    LastCopy root (legs ++ [leg]) position type step := by
  constructor
  · have inside := le_length_of_copyAt? copy.found
    rw [copyAt?_append_singleton, if_neg (by omega)]
    exact copy.found
  · intro later after
    exact copyAt?_append_eq_none notCopied (copy.last later after)
  · intro earlier handle found
    rw [valueAt?_append_singleton] at found
    split at found
    · exact absurd (Option.some.inj found) (notShared handle)
    · exact copy.afterReferences earlier handle found

end Plain

theorem lastReference_of_shared
    (root : Value) (legs : List Leg) {leg : Leg} {handle : Handle}
    (shared : leg.reading.value = .shared handle) :
    LastReference root (legs ++ [leg]) (legs.length + 1) handle := by
  constructor
  · rw [valueAt?_append_singleton, if_pos rfl, shared]
  · intro later after other found
    have inside := le_length_of_valueAt? found
    simp at inside
    omega

theorem exists_lastReference
    {root : Value} {legs : List Leg} {position : Nat} {handle : Handle}
    (found : valueAt? root legs position = some (.shared handle)) :
    ∃ position handle, LastReference root legs position handle := by
  induction legs using List.reverseRecOn generalizing position handle with
  | nil =>
      have first : position = 0 := Nat.le_zero.mp (le_length_of_valueAt? found)
      subst first
      refine ⟨0, handle, found, fun later positive other foundLater => ?_⟩
      exact absurd (le_length_of_valueAt? foundLater) (Nat.not_le.mpr positive)
  | append_singleton legs leg inductionHypothesis =>
      by_cases shared : ∃ handle, leg.reading.value = .shared handle
      · obtain ⟨handle, shared⟩ := shared
        exact ⟨_, _, lastReference_of_shared root legs shared⟩
      · have notShared : ∀ handle, leg.reading.value ≠ .shared handle :=
          fun handle same => shared ⟨handle, same⟩
        rw [valueAt?_append_singleton] at found
        split at found
        · exact absurd (Option.some.inj found) (notShared handle)
        · obtain ⟨position, handle, reference⟩ := inductionHypothesis found
          exact ⟨position, handle, reference.append notShared⟩

theorem LastReference.position_eq
    {root : Value} {legs : List Leg} {first second : Nat} {firstHandle secondHandle : Handle}
    (firstLast : LastReference root legs first firstHandle)
    (secondLast : LastReference root legs second secondHandle) :
    first = second := by
  rcases Nat.lt_trichotomy first second with before | same | after
  · exact absurd secondLast.found (firstLast.last second before secondHandle)
  · exact same
  · exact absurd firstLast.found (secondLast.last first after firstHandle)

end Leg

/-! ## The footing in terms of the way -/

namespace Footing

def along (root : Value) (legs : List Leg) : Footing :=
  legs.foldl (fun footing leg => footing.advance leg.step leg.reading) (.ofRoot root)

theorem along_append_singleton (root : Value) (legs : List Leg) (leg : Leg) :
    along root (legs ++ [leg]) = (along root legs).advance leg.step leg.reading := by
  simp [along]

/-- What a footing says about the way that led to it. -/
inductive Explains (root : Value) (legs : List Leg) : Footing → Prop where
  | anchored {position : Nat} {handle : Handle}
      (reference : Leg.LastReference root legs position handle)
      (noCopy : ∀ later, position < later → Leg.copyAt? legs later = none) :
      Explains root legs (.held handle ((legs.map Leg.step).drop position))
  | copied {position : Nat} {type : TypeId} {step : Step}
      (copy : Leg.LastCopy root legs position type step) :
      Explains root legs (.detached type.name (some step))
  | rooted
      (noReference : ∀ position handle, Leg.valueAt? root legs position ≠ some (.shared handle))
      (noCopy : ∀ position, Leg.copyAt? legs position = none) :
      Explains root legs (.detached root.typeName none)

theorem explains_ofRoot (root : Value) :
    Explains root [] (.ofRoot root) := by
  have noCopy : ∀ position, Leg.copyAt? [] position = none := by
    intro position
    cases position <;> rfl
  have noLater : ∀ position, 0 < position → Leg.valueAt? root [] position = none := by
    intro position positive
    cases position with
    | zero => exact absurd positive (Nat.lt_irrefl 0)
    | succ position => rfl
  by_cases shared : ∃ handle, root = .shared handle
  · obtain ⟨handle, rfl⟩ := shared
    have reference : Leg.LastReference (.shared handle) [] 0 handle := by
      refine ⟨rfl, fun later positive other found => ?_⟩
      rw [noLater later positive] at found
      cases found
    exact .anchored reference fun later _ => noCopy later
  · have detached : ofRoot root = .detached root.typeName none := by
      cases root with
      | shared handle => exact absurd ⟨handle, rfl⟩ shared
      | _ => rfl
    rw [detached]
    refine .rooted (fun position handle found => ?_) noCopy
    cases position with
    | zero => exact shared ⟨handle, Option.some.inj found⟩
    | succ position => cases found

theorem advance_shared
    (footing : Footing) {leg : Leg} {handle : Handle}
    (shared : leg.reading.value = .shared handle) :
    footing.advance leg.step leg.reading = .held handle [] := by
  unfold advance
  rw [shared]

theorem advance_copy
    (footing : Footing) {leg : Leg} {type : TypeId} {step : Step}
    (copied : leg.copy? = some (type, step)) :
    footing.advance leg.step leg.reading = .detached type.name (some step) := by
  obtain ⟨legStep, value, origin⟩ := leg
  cases value <;> cases origin <;> simp_all [Leg.copy?, advance]

theorem advance_held
    {leg : Leg} (notShared : ∀ handle, leg.reading.value ≠ .shared handle)
    (notCopied : leg.copy? = none) (anchor : Handle) (hops : List Step) :
    (held anchor hops).advance leg.step leg.reading = .held anchor (hops ++ [leg.step]) := by
  obtain ⟨legStep, value, origin⟩ := leg
  cases value <;> cases origin <;> simp_all [Leg.copy?, advance]

theorem advance_detached
    {leg : Leg} (notShared : ∀ handle, leg.reading.value ≠ .shared handle)
    (notCopied : leg.copy? = none) (typeName : String) (producedBy? : Option Step) :
    (detached typeName producedBy?).advance leg.step leg.reading =
      .detached typeName producedBy? := by
  obtain ⟨legStep, value, origin⟩ := leg
  cases value <;> cases origin <;> simp_all [Leg.copy?, advance]

section Advance

variable {root : Value} {legs : List Leg} {leg : Leg}

theorem explains_of_shared {handle : Handle} (shared : leg.reading.value = .shared handle) :
    Explains root (legs ++ [leg]) (.held handle []) := by
  have noCopy : ∀ later, legs.length + 1 < later → Leg.copyAt? (legs ++ [leg]) later = none := by
    intro later after
    refine Option.eq_none_iff_forall_ne_some.mpr fun copy found => ?_
    have inside := Leg.le_length_of_copyAt? found
    simp at inside
    omega
  have noHops : ((legs ++ [leg]).map Leg.step).drop (legs.length + 1) = [] := by simp
  rw [← noHops]
  exact .anchored (Leg.lastReference_of_shared root legs shared) noCopy

theorem explains_of_copy
    {type : TypeId} {step : Step} (copied : leg.copy? = some (type, step)) :
    Explains root (legs ++ [leg]) (.detached type.name (some step)) := by
  have notShared : ∀ handle, leg.reading.value ≠ .shared handle := by
    intro handle shared
    simp [Leg.copy?, shared] at copied
  have copy : Leg.LastCopy root (legs ++ [leg]) (legs.length + 1) type step := by
    constructor
    · rw [Leg.copyAt?_append_singleton, if_pos rfl, copied]
    · intro later after
      refine Option.eq_none_iff_forall_ne_some.mpr fun other found => ?_
      have inside := Leg.le_length_of_copyAt? found
      simp at inside
      omega
    · intro earlier handle found
      rw [Leg.valueAt?_append_singleton] at found
      split at found
      · exact absurd (Option.some.inj found) (notShared handle)
      · exact Nat.lt_succ_of_le (Leg.le_length_of_valueAt? found)
  exact .copied copy

theorem Explains.advance_plain
    {footing : Footing} (explains : Explains root legs footing)
    (notShared : ∀ handle, leg.reading.value ≠ .shared handle) (notCopied : leg.copy? = none) :
    Explains root (legs ++ [leg]) (footing.advance leg.step leg.reading) := by
  cases explains with
  | @anchored position handle reference noCopy =>
      have inside := Leg.le_length_of_valueAt? reference.found
      have longer :
          ((legs ++ [leg]).map Leg.step).drop position =
            (legs.map Leg.step).drop position ++ [leg.step] := by
        rw [List.map_append, List.drop_append_of_le_length (by simpa using inside)]
        rfl
      rw [advance_held notShared notCopied, ← longer]
      refine .anchored (reference.append notShared) fun later after => ?_
      exact Leg.copyAt?_append_eq_none notCopied (noCopy later after)
  | copied copy =>
      rw [advance_detached notShared notCopied]
      exact .copied (copy.append notShared notCopied)
  | rooted noReference noCopy =>
      rw [advance_detached notShared notCopied]
      refine .rooted (fun position handle => ?_) fun position => ?_
      · exact Leg.valueAt?_append_ne_shared notShared (noReference position handle)
      · exact Leg.copyAt?_append_eq_none notCopied (noCopy position)

/-- A shared value is a new anchor, and a struct from a computed member is a new copy. -/
theorem Explains.advance
    {footing : Footing} (explains : Explains root legs footing) (leg : Leg) :
    Explains root (legs ++ [leg]) (footing.advance leg.step leg.reading) := by
  by_cases shared : ∃ handle, leg.reading.value = .shared handle
  · obtain ⟨handle, shared⟩ := shared
    rw [footing.advance_shared shared]
    exact explains_of_shared shared
  · cases copied : leg.copy? with
    | some copy =>
        obtain ⟨type, step⟩ := copy
        rw [footing.advance_copy copied]
        exact explains_of_copy copied
    | none => exact explains.advance_plain (fun handle same => shared ⟨handle, same⟩) copied

end Advance

theorem explains_along (root : Value) (legs : List Leg) :
    Explains root legs (along root legs) := by
  induction legs using List.reverseRecOn with
  | nil => exact explains_ofRoot root
  | append_singleton legs leg inductionHypothesis =>
      rw [along_append_singleton]
      exact inductionHypothesis.advance leg

end Footing

/-! ## Reading and locating take the same way -/

section Way

variable [Accessors Rule]

theorem Value.trace_cons_apply
    (catalog : Catalog Rule) (step : Step) (steps : List Step) (reachedBy? : Option Step)
    (value : Value) (heap : Heap) :
    value.trace catalog (step :: steps) reachedBy? heap =
      match value.fetch catalog reachedBy? step heap with
      | .error error after => .error error after
      | .ok reading after =>
          match reading.value.trace catalog steps (some step) after with
          | .error error final => .error error final
          | .ok legs final => .ok (⟨step, reading⟩ :: legs) final := by
  simp only [trace, Access.bind_apply]
  cases value.fetch catalog reachedBy? step heap with
  | error error after => rfl
  | ok reading after =>
      simp only
      cases reading.value.trace catalog steps (some step) after <;> rfl

theorem Value.follow_cons_apply
    (catalog : Catalog Rule) (step : Step) (steps : List Step) (reachedBy? : Option Step)
    (value : Value) (heap : Heap) :
    value.follow catalog (step :: steps) reachedBy? heap =
      match value.fetch catalog reachedBy? step heap with
      | .error error after => .error error after
      | .ok reading after => reading.value.follow catalog steps (some step) after := by
  rw [follow, Access.bind_apply]
  cases value.fetch catalog reachedBy? step heap <;> rfl

/-- A read follows steps as a walk does, and goes on from where the walk arrives. -/
theorem Walk.follow_append
    (catalog : Catalog Rule) (steps more : List Step) (walk : Walk) (heap : Heap) :
    walk.value.follow catalog (steps ++ more) walk.reachedBy? heap =
      match walk.advanceAll catalog steps heap with
      | .error error after => .error error after
      | .ok owner after => owner.value.follow catalog more owner.reachedBy? after := by
  induction steps generalizing walk heap with
  | nil => rfl
  | cons step steps inductionHypothesis =>
      rw [List.cons_append, Value.follow_cons_apply, advanceAll_cons_apply, advance_apply]
      cases walk.value.fetch catalog walk.reachedBy? step heap with
      | error error after => rfl
      | ok reading after => exact inductionHypothesis ⟨reading.value, some step, _⟩ after

/-- A read gives the value that a walk along the same steps arrives at. -/
theorem Walk.follow_eq_advanceAll
    (catalog : Catalog Rule) (steps : List Step) (walk : Walk) (heap : Heap) :
    walk.value.follow catalog steps walk.reachedBy? heap =
      match walk.advanceAll catalog steps heap with
      | .error error after => .error error after
      | .ok owner after => .ok owner.value after := by
  have followed := walk.follow_append catalog steps [] heap
  rw [List.append_nil] at followed
  rw [followed]
  cases walk.advanceAll catalog steps heap <;> rfl

/-- The owner that the walk to a location arrives at is the one that the read takes its last step
from, and both have taken the same legs. -/
theorem Walk.advanceAll_of_follow
    {catalog : Catalog Rule} {init : List Step} {terminal : Step} {walk : Walk}
    {heap after : Heap} {result : Value}
    (followed : walk.value.follow catalog (init ++ [terminal]) walk.reachedBy? heap =
      .ok result after) :
    ∃ legs owner reached origin,
      walk.value.trace catalog (init ++ [terminal]) walk.reachedBy? heap =
          .ok (legs ++ [⟨terminal, ⟨result, origin⟩⟩]) after ∧
        legs.map Leg.step = init ∧ walk.advanceAll catalog init heap = .ok owner reached ∧
        owner.footing =
          legs.foldl (fun footing leg => footing.advance leg.step leg.reading) walk.footing ∧
        owner.value.fetch catalog owner.reachedBy? terminal reached =
          .ok ⟨result, origin⟩ after := by
  induction init generalizing walk heap with
  | nil =>
      rw [List.nil_append, Value.follow_cons_apply] at followed
      cases fetched : walk.value.fetch catalog walk.reachedBy? terminal heap with
      | error error failed => simp [fetched] at followed
      | ok reading final =>
          rw [fetched] at followed
          cases followed
          refine ⟨[], walk, heap, reading.origin, ?_, rfl, rfl, rfl, fetched⟩
          rw [List.nil_append, Value.trace_cons_apply, fetched]
          rfl
  | cons step init inductionHypothesis =>
      rw [List.cons_append, Value.follow_cons_apply] at followed
      cases fetched : walk.value.fetch catalog walk.reachedBy? step heap with
      | error error failed => simp [fetched] at followed
      | ok reading middle =>
          rw [fetched] at followed
          have advanced :
              walk.advance catalog step heap =
                .ok ⟨reading.value, some step, walk.footing.advance step reading⟩ middle := by
            rw [advance_apply, fetched]
          obtain ⟨legs, owner, reached, origin, traced, steps, walked, footing, last⟩ :=
            @inductionHypothesis ⟨reading.value, some step, walk.footing.advance step reading⟩
              middle followed
          refine ⟨⟨step, reading⟩ :: legs, owner, reached, origin, ?_, ?_, ?_, footing, last⟩
          · rw [List.cons_append, Value.trace_cons_apply, fetched]
            simp only [traced, List.cons_append]
          · rw [List.map_cons, steps]
          · rw [advanceAll_cons_apply, advanced]
            exact walked

theorem Container.probe_of_fetch
    {catalog : Catalog Rule} {container : Container} {step : Step} {heap after : Heap}
    {reading : Reading} (fetched : container.fetch catalog step heap = .ok reading after) :
    container.probe catalog step = .ok () := by
  cases container with
  | composite owner =>
      simp only [fetch, Composite.fetch_apply] at fetched
      cases selected : owner.select catalog step with
      | error error => simp [selected] at fetched
      | ok placed =>
          rw [probe, Composite.probe, selected]
          rfl
  | sequence elements =>
      rw [Sequence.fetch_apply] at fetched
      cases selected : elements.select step with
      | error error => simp [selected] at fetched
      | ok index =>
          rw [probe, Sequence.probe, selected]
          rfl

/-- When the last step could be read, only the footing decides whether there is a location. -/
theorem Walk.finish_of_fetch
    {catalog : Catalog Rule} {owner : Walk} {terminal : Step} {heap after : Heap}
    {reading : Reading}
    (fetched : owner.value.fetch catalog owner.reachedBy? terminal heap = .ok reading after) :
    owner.finish catalog terminal heap =
      Access.ofExcept (owner.footing.locate terminal) heap := by
  rw [Value.fetch_apply] at fetched
  rw [finish_apply]
  cases opened : heap.openValue owner.value terminal owner.reachedBy? with
  | error error => simp [opened] at fetched
  | ok container =>
      rw [opened] at fetched
      simp only [container.probe_of_fetch fetched]
      cases owner.footing.locate terminal <;> rfl

end Way

/-! ## The verdict -/

/-- Whether there is a location at the end of a path, by the legs before the last step. -/
structure Verdict (root : Value) (path : Path) (legs : List Leg)
    (outcome : EStateM.Result AccessError Heap Location) : Prop where
  fails_iff :
    (∃ error reached, outcome = .error error reached) ↔
      (∀ position handle, Leg.valueAt? root legs position ≠ some (.shared handle)) ∨
        ∃ position handle copy, Leg.LastReference root legs position handle ∧
          position < copy ∧ Leg.copyAt? legs copy ≠ none
  error_names : ∀ error reached, outcome = .error error reached →
    (∃ position type step, Leg.LastCopy root legs position type step ∧
        error = .detachedOwner type.name (some step)) ∨
      (∀ position type step, ¬ Leg.LastCopy root legs position type step) ∧
        error = .detachedOwner root.typeName none
  location_eq : ∀ location reached, outcome = .ok location reached →
    ∃ position handle, Leg.LastReference root legs position handle ∧
      location = ⟨handle, path.init.drop position, path.last⟩

theorem Footing.Explains.verdict
    {root : Value} {path : Path} {legs : List Leg} {footing : Footing}
    (explains : Footing.Explains root legs footing) (steps : legs.map Leg.step = path.init)
    (heap : Heap) :
    Verdict root path legs (Access.ofExcept (footing.locate path.last) heap) := by
  cases explains with
  | @anchored position handle reference noCopy =>
      constructor
      · constructor
        · rintro ⟨error, reached, failed⟩
          cases failed
        · rintro (noReference | ⟨other, otherHandle, copy, otherReference, after, copied⟩)
          · exact absurd reference.found (noReference position handle)
          · rw [otherReference.position_eq reference] at after
            exact absurd (noCopy copy after) copied
      · intro error reached failed
        cases failed
      · intro location reached located
        cases located
        exact ⟨position, handle, reference, by rw [steps]⟩
  | @copied position type step copy =>
      constructor
      · refine iff_of_true ⟨_, _, rfl⟩ ?_
        by_cases shared :
            ∃ earlier handle, Leg.valueAt? root legs earlier = some (.shared handle)
        · obtain ⟨earlier, handle, found⟩ := shared
          obtain ⟨last, lastHandle, reference⟩ := Leg.exists_lastReference found
          have after := copy.afterReferences last lastHandle reference.found
          refine .inr ⟨last, lastHandle, position, reference, after, ?_⟩
          simp [copy.found]
        · exact .inl fun earlier handle found => shared ⟨earlier, handle, found⟩
      · intro error reached failed
        cases failed
        exact .inl ⟨position, type, step, copy, rfl⟩
      · intro location reached located
        cases located
  | rooted noReference noCopy =>
      constructor
      · exact iff_of_true ⟨_, _, rfl⟩ (.inl noReference)
      · intro error reached failed
        cases failed
        refine .inr ⟨fun position type step copy => ?_, rfl⟩
        exact absurd copy.found (by simp [noCopy position])
      · intro location reached located
        cases located

/-- A path that can be read has a location exactly when the values on its way say so: the legs that
the read takes before its last step decide, and nothing else. -/
theorem Value.verdict_of_read
    [Accessors Rule] {catalog : Catalog Rule} {root result : Value} {path : Path}
    {heap after : Heap} (resolved : root.read catalog path heap = .ok result after) :
    ∃ legs origin,
      root.trace catalog path.steps none heap =
          .ok (legs ++ [⟨path.last, ⟨result, origin⟩⟩]) after ∧
        legs.map Leg.step = path.init ∧
        Verdict root path legs (root.locate catalog path heap) := by
  have followed :
      (Walk.ofRoot root).value.follow catalog (path.init ++ [path.last])
        (Walk.ofRoot root).reachedBy? heap = .ok result after := by
    rw [path.init_append_last]
    exact resolved
  obtain ⟨legs, owner, reached, origin, traced, steps, walked, footing, last⟩ :=
    Walk.advanceAll_of_follow followed
  rw [path.init_append_last] at traced
  refine ⟨legs, origin, traced, steps, ?_⟩
  have explains : Footing.Explains root legs owner.footing := by
    rw [footing]
    exact Footing.explains_along root legs
  simp only [locate_apply, walked, Walk.finish_of_fetch last]
  exact explains.verdict steps reached

/-- The spare node is an anchor, but the copy of its pair is not held by anything. -/
theorem Value.verdict_of_read_copy :
    Ring.root.read Ring.catalog
        ⟨[.member "spare", .member "copy", .member "x"], by simp⟩ Ring.heap =
        .ok (.int 0) (Ring.catalog.instantiate ⟨"main", "Node"⟩ Ring.heap).2 ∧
      ∃ legs origin,
        Ring.root.trace Ring.catalog [.member "spare", .member "copy", .member "x"] none Ring.heap =
            .ok (legs ++ [⟨.member "x", ⟨.int 0, origin⟩⟩])
              (Ring.catalog.instantiate ⟨"main", "Node"⟩ Ring.heap).2 ∧
          legs.map Leg.step = [.member "spare", .member "copy"] ∧
          Verdict Ring.root ⟨[.member "spare", .member "copy", .member "x"], by simp⟩ legs
            (Ring.root.locate Ring.catalog
              ⟨[.member "spare", .member "copy", .member "x"], by simp⟩ Ring.heap) :=
  have resolved :
      Ring.root.read Ring.catalog
          ⟨[.member "spare", .member "copy", .member "x"], by simp⟩ Ring.heap =
        .ok (.int 0) (Ring.catalog.instantiate ⟨"main", "Node"⟩ Ring.heap).2 := by
    rfl
  ⟨resolved, verdict_of_read resolved⟩

end ObjectGraph
