import ObjectGraph.Examples.Ring
import ObjectGraph.Proofs.Access
import ObjectGraph.Proofs.Addressability

/-!
# Reading and locating fail alike

A read fetches the last step of a path, and the search for a location only probes it, after it has
kept track of live storage on the way. Both fail for the same paths and with the same failure, with
one exception: a slot whose owner is a copy can be read but has no location.

* The two ways share every step before the last one, so they fail there in the same way.
* At the last step, fetching fails exactly when probing fails.
* Whether the owner is a copy is only looked at when the last step exists.
-/

namespace ObjectGraph

variable {Rule : Type}

/-- Checks that a step can be taken from a value, without taking it. -/
def Value.probe (catalog : Catalog Rule) (heap : Heap) (reachedBy? : Option Step) (step : Step)
    (value : Value) : Except AccessError Unit :=
  match heap.openValue value step reachedBy? with
  | .error error => .error error
  | .ok container => container.probe catalog step

/-- The failures that a step itself can have: its container is missing or unsuitable, or has no such
slot. -/
inductive AccessError.OfStep : AccessError → Prop
  | memberNotFound (typeName name : String) : OfStep (.memberNotFound typeName name)
  | indexOutOfRange (attempted length : Nat) : OfStep (.indexOutOfRange attempted length)
  | nullIntermediate (reachedBy : Step) : OfStep (.nullIntermediate reachedBy)
  | nullRoot : OfStep .nullRoot
  | notIndexable (typeName : String) : OfStep (.notIndexable typeName)

/-! ## Failures of one step -/

theorem Step.misfit_ofStep (step : Step) (typeName : String) :
    (step.misfit typeName).OfStep := by
  cases step with
  | member name => exact .memberNotFound typeName name
  | element index => exact .notIndexable typeName

theorem Container.ofStep_of_probe_error
    {catalog : Catalog Rule} {container : Container} {step : Step} {error : AccessError}
    (failed : container.probe catalog step = .error error) :
    error.OfStep := by
  cases container with
  | composite owner =>
      cases step with
      | element index =>
          cases failed
          exact .notIndexable _
      | member name =>
          simp only [probe, Composite.probe, Composite.select] at failed
          cases found : (catalog.layout owner.type).member? name with
          | some placed => simp [found, Except.map] at failed
          | none =>
              simp only [found, Except.map, Except.error.injEq] at failed
              subst failed
              exact .memberNotFound _ _
  | sequence elements =>
      cases step with
      | member name =>
          cases failed
          exact .memberNotFound _ _
      | element index =>
          simp only [probe, Sequence.probe, Sequence.select] at failed
          by_cases inside : index < elements.items.length
          · simp [inside, Except.map] at failed
          · simp only [if_neg inside, Except.map, Except.error.injEq] at failed
            subst failed
            exact .indexOutOfRange _ _

theorem Heap.ofStep_of_openValue_error
    {heap : Heap} {value : Value} {step : Step} {reachedBy? : Option Step} {error : AccessError}
    (failed : heap.openValue value step reachedBy? = .error error) :
    error.OfStep := by
  cases value with
  | null =>
      cases reachedBy? with
      | none =>
          cases failed
          exact .nullRoot
      | some reachedBy =>
          cases failed
          exact .nullIntermediate reachedBy
  | struct type fields => cases failed
  | shared handle => cases failed
  | _ =>
      cases failed
      exact step.misfit_ofStep _

theorem Value.ofStep_of_probe_error
    {catalog : Catalog Rule} {heap : Heap} {reachedBy? : Option Step} {step : Step}
    {value : Value} {error : AccessError}
    (failed : value.probe catalog heap reachedBy? step = .error error) :
    error.OfStep := by
  unfold probe at failed
  cases opened : heap.openValue value step reachedBy? with
  | error reason =>
      simp only [opened, Except.error.injEq] at failed
      subst failed
      exact Heap.ofStep_of_openValue_error opened
  | ok container =>
      simp only [opened] at failed
      exact Container.ofStep_of_probe_error failed

theorem Walk.finish_eq_probe
    (catalog : Catalog Rule) (owner : Walk) (terminal : Step) (heap : Heap) :
    owner.finish catalog terminal heap =
      match owner.value.probe catalog heap owner.reachedBy? terminal with
      | .error error => .error error heap
      | .ok _ => Access.ofExcept (owner.footing.locate terminal) heap := by
  rw [finish_apply, Value.probe]
  cases heap.openValue owner.value terminal owner.reachedBy? with
  | error error => rfl
  | ok container =>
      simp only
      cases container.probe catalog terminal with
      | error error => rfl
      | ok done =>
          simp only
          cases owner.footing.locate terminal <;> rfl

section Way

variable [Accessors Rule]

theorem Container.fetch_eq_error_iff
    {catalog : Catalog Rule} {container : Container} {step : Step} {heap after : Heap}
    {error : AccessError} :
    container.fetch catalog step heap = .error error after ↔
      container.probe catalog step = .error error ∧ after = heap := by
  cases container with
  | composite owner =>
      simp only [fetch, probe, Composite.probe, Composite.fetch_apply]
      cases owner.select catalog step with
      | error reason => simp [Except.map, eq_comm]
      | ok placed => cases kind : placed.member.kind <;> simp [kind, Except.map]
  | sequence elements =>
      simp only [probe, Sequence.probe, Sequence.fetch_apply]
      cases elements.select step with
      | error reason => simp [Except.map, eq_comm]
      | ok index => simp [Except.map]

/-- Fetching a step fails when probing it fails, and before anything has happened to the heap. -/
theorem Value.fetch_eq_error_iff
    {catalog : Catalog Rule} {value : Value} {reachedBy? : Option Step} {step : Step}
    {heap after : Heap} {error : AccessError} :
    value.fetch catalog reachedBy? step heap = .error error after ↔
      value.probe catalog heap reachedBy? step = .error error ∧ after = heap := by
  rw [fetch_apply, probe]
  cases heap.openValue value step reachedBy? with
  | error reason => simp [eq_comm]
  | ok container => exact Container.fetch_eq_error_iff

/-! ## Failures on the way -/

theorem Value.ofStep_of_follow_error
    {catalog : Catalog Rule} {steps : List Step} {reachedBy? : Option Step} {value : Value}
    {heap after : Heap} {error : AccessError}
    (failed : value.follow catalog steps reachedBy? heap = .error error after) :
    error.OfStep := by
  induction steps generalizing reachedBy? value heap with
  | nil => cases failed
  | cons step steps inductionHypothesis =>
      rw [follow_cons_apply] at failed
      cases fetched : value.fetch catalog reachedBy? step heap with
      | error reason middle =>
          simp only [fetched, EStateM.Result.error.injEq] at failed
          obtain ⟨rfl, rfl⟩ := failed
          exact ofStep_of_probe_error (fetch_eq_error_iff.mp fetched).1
      | ok reading middle =>
          simp only [fetched] at failed
          exact inductionHypothesis failed

/-- A read fails either before its last step, where the walk to the owner fails too, or at the last
step, which then cannot be taken from the owner. -/
theorem Walk.follow_eq_error_iff
    {catalog : Catalog Rule} {init : List Step} {terminal : Step} {walk : Walk}
    {heap after : Heap} {error : AccessError} :
    walk.value.follow catalog (init ++ [terminal]) walk.reachedBy? heap = .error error after ↔
      walk.advanceAll catalog init heap = .error error after ∨
        ∃ owner, walk.advanceAll catalog init heap = .ok owner after ∧
          owner.value.probe catalog after owner.reachedBy? terminal = .error error := by
  rw [follow_append]
  cases walk.advanceAll catalog init heap with
  | error reason failedAt => simp
  | ok owner reached =>
      have lastStep : owner.value.follow catalog [terminal] owner.reachedBy? reached =
          .error error after ↔
            owner.value.probe catalog reached owner.reachedBy? terminal = .error error ∧
              after = reached := by
        rw [Value.follow_cons_apply, ← Value.fetch_eq_error_iff]
        cases owner.value.fetch catalog owner.reachedBy? terminal reached with
        | error reason failedAt => simp
        | ok reading final => simp [Value.follow]
      simp only [lastStep, reduceCtorEq, false_or, EStateM.Result.ok.injEq]
      constructor
      · rintro ⟨refused, rfl⟩
        exact ⟨owner, ⟨rfl, rfl⟩, refused⟩
      · rintro ⟨_, ⟨rfl, rfl⟩, refused⟩
        exact ⟨refused, rfl⟩

end Way

/-! ## The two answers -/

theorem Footing.eq_detachedOwner_of_locate
    {footing : Footing} {terminal : Step} {error : AccessError}
    (failed : footing.locate terminal = .error error) :
    ∃ typeName producedBy?, error = .detachedOwner typeName producedBy? := by
  cases footing with
  | held anchor hops => cases failed
  | detached typeName producedBy? =>
      cases failed
      exact ⟨typeName, producedBy?, rfl⟩

theorem AccessError.OfStep.ne_detachedOwner
    {error : AccessError} (ofStep : error.OfStep) (typeName : String) (producedBy? : Option Step) :
    error ≠ .detachedOwner typeName producedBy? := by
  cases ofStep <;> simp

section Answers

variable [Accessors Rule]

theorem Value.read_eq_follow_init_last (catalog : Catalog Rule) (root : Value) (path : Path) :
    root.read catalog path =
      (Walk.ofRoot root).value.follow catalog (path.init ++ [path.last])
        (Walk.ofRoot root).reachedBy? := by
  rw [path.init_append_last]
  rfl

/-- The search for a location fails for the reasons for which a read fails, and for one more: the
last step exists, but its owner is a copy. -/
theorem Value.locate_eq_error_iff
    {catalog : Catalog Rule} {root : Value} {path : Path} {heap after : Heap}
    {error : AccessError} :
    root.locate catalog path heap = .error error after ↔
      root.read catalog path heap = .error error after ∨
        ∃ owner, (Walk.ofRoot root).advanceAll catalog path.init heap = .ok owner after ∧
          owner.value.probe catalog after owner.reachedBy? path.last = .ok () ∧
          owner.footing.locate path.last = .error error := by
  rw [read_eq_follow_init_last, Walk.follow_eq_error_iff, locate_apply]
  cases (Walk.ofRoot root).advanceAll catalog path.init heap with
  | error reason failedAt => simp
  | ok owner reached =>
      simp only [Walk.finish_eq_probe, EStateM.Result.ok.injEq]
      cases probed : owner.value.probe catalog reached owner.reachedBy? path.last with
      | error reason =>
          constructor
          · intro failed
            cases failed
            exact .inl (.inr ⟨owner, ⟨rfl, rfl⟩, probed⟩)
          · rintro ((contradictory | ⟨_, ⟨rfl, rfl⟩, refused⟩) | ⟨_, ⟨rfl, rfl⟩, allowed, _⟩)
            · cases contradictory
            · rw [probed] at refused
              cases refused
              rfl
            · rw [probed] at allowed
              cases allowed
      | ok done =>
          constructor
          · intro failed
            cases verdict : owner.footing.locate path.last with
            | ok location => simp [verdict, Access.ofExcept] at failed
            | error reason =>
                rw [verdict] at failed
                cases failed
                exact .inr ⟨owner, ⟨rfl, rfl⟩, probed, verdict⟩
          · rintro ((contradictory | ⟨_, ⟨rfl, rfl⟩, refused⟩) | ⟨_, ⟨rfl, rfl⟩, _, verdict⟩)
            · cases contradictory
            · rw [probed] at refused
              cases refused
            · simp only [verdict]
              rfl

/-- Reading a path and locating its slot fail for the same paths with the same failures, except that
only locating fails for the sake of a copy. It does so only when the last step exists: otherwise the
failure of that step is the answer. -/
theorem Value.read_eq_error_iff_locate
    (catalog : Catalog Rule) (root : Value) (path : Path) (heap : Heap) :
    (∀ error after,
      root.read catalog path heap = .error error after ↔
        root.locate catalog path heap = .error error after ∧
          ∀ typeName producedBy?, error ≠ .detachedOwner typeName producedBy?) ∧
      (∀ error after, root.read catalog path heap = .error error after → error.OfStep) ∧
      ∀ owner reached error,
        (Walk.ofRoot root).advanceAll catalog path.init heap = .ok owner reached →
          owner.value.probe catalog reached owner.reachedBy? path.last = .error error →
            root.locate catalog path heap = .error error reached ∧
              root.read catalog path heap = .error error reached := by
  have readsAlike : ∀ error after,
      root.read catalog path heap = .error error after →
        root.locate catalog path heap = .error error after := fun error after failed =>
    locate_eq_error_iff.mpr (.inl failed)
  refine ⟨fun error after => ?_, fun error after => ofStep_of_follow_error, ?_⟩
  · constructor
    · intro failed
      have ofStep : error.OfStep := ofStep_of_follow_error failed
      exact ⟨readsAlike error after failed, ofStep.ne_detachedOwner⟩
    · rintro ⟨failed, notDetached⟩
      rcases locate_eq_error_iff.mp failed with readFailed | ⟨owner, _, _, verdict⟩
      · exact readFailed
      · obtain ⟨typeName, producedBy?, rfl⟩ := Footing.eq_detachedOwner_of_locate verdict
        exact absurd rfl (notDetached typeName producedBy?)
  · intro owner reached error walked missing
    have readFailed : root.read catalog path heap = .error error reached := by
      rw [read_eq_follow_init_last, Walk.follow_eq_error_iff]
      exact .inr ⟨owner, walked, missing⟩
    exact ⟨readsAlike error reached readFailed, readFailed⟩

end Answers

/-- The copy of the pair has no third number. That it is a copy does not matter then. -/
theorem Value.read_eq_error_iff_locate_copy :
    (Walk.ofRoot Ring.root).advanceAll Ring.catalog [.member "copy"] Ring.heap =
        .ok ⟨.struct ⟨"main", "Pair"⟩ [.int 1, .int 2], some (.member "copy"),
          .detached "Pair" (some (.member "copy"))⟩ Ring.heap ∧
      Ring.root.locate Ring.catalog ⟨[.member "copy", .member "z"], by simp⟩ Ring.heap =
        .error (.memberNotFound "Pair" "z") Ring.heap ∧
      Ring.root.read Ring.catalog ⟨[.member "copy", .member "z"], by simp⟩ Ring.heap =
        .error (.memberNotFound "Pair" "z") Ring.heap :=
  have walked :
      (Walk.ofRoot Ring.root).advanceAll Ring.catalog [.member "copy"] Ring.heap =
        .ok ⟨.struct ⟨"main", "Pair"⟩ [.int 1, .int 2], some (.member "copy"),
          .detached "Pair" (some (.member "copy"))⟩ Ring.heap := by
    rfl
  ⟨walked, (read_eq_error_iff_locate Ring.catalog Ring.root
    ⟨[.member "copy", .member "z"], by simp⟩ Ring.heap).2.2 _ _ _ walked rfl⟩

end ObjectGraph
