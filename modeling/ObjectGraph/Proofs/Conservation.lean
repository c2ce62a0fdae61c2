import Mathlib.Order.Defs.Unbundled
import ObjectGraph.PropertyRule
import ObjectGraph.Access.Location
import ObjectGraph.Access.Read
import ObjectGraph.Proofs.Access
import ObjectGraph.Proofs.Place

/-!
# What reading leaves alone

Finding a location only reads. It may run computed members on the way, and what those may do is a
law about the meaning of their tokens: they leave the objects and lists that exist as they are.
Under this law neither a walk nor the search for a location changes an existing cell, whether it
succeeds or fails.
-/

namespace ObjectGraph

variable {Rule : Type}

/-! ## Laws of computed members -/

namespace Accessors

/-- Reading a computed member changes no object and no list that exists already. The contract of a
getter: it reads a computed member from its owner, and what it answers is a copy, so that changing
the answer never reaches the owner. -/
def ReadsOnly (Rule : Type) [Accessors Rule] : Prop :=
  ∀ (rule : Rule) (catalog : Catalog Rule) (owner : Composite) (heap : Heap),
    (read rule catalog owner heap).2.Extends heap

/-- Writing a computed member changes, of what exists already, nothing but the owner. The contract
of a setter: it writes a computed member into its owner. -/
def WritesOwner (Rule : Type) [Accessors Rule] : Prop :=
  ∀ (rule : Rule) (write : Catalog Rule → Composite → Value → Heap → Composite × Heap),
    write? rule = some write →
      ∀ (catalog : Catalog Rule) (owner : Composite) (value : Value) (heap : Heap),
        (write catalog owner value heap).2.Extends heap

end Accessors

theorem Heap.extends_newObject (heap : Heap) (composite : Composite) :
    (heap.newObject composite).2.Extends heap :=
  heap.extends_push _

theorem Catalog.extends_instantiate (catalog : Catalog Rule) (type : TypeId) (heap : Heap) :
    (catalog.instantiate type heap).2.Extends heap := by
  simp only [instantiate]
  split
  · exact Heap.Extends.refl heap
  · exact heap.extends_newObject _

namespace PropertyRule

theorem readsOnly : Accessors.ReadsOnly PropertyRule := by
  intro rule catalog owner heap
  change (rule.read.run catalog owner heap).2.Extends heap
  cases rule.read with
  | fresh => exact catalog.extends_instantiate owner.type heap
  | _ => exact Heap.Extends.refl heap

theorem writesOwner : Accessors.WritesOwner PropertyRule := by
  intro rule write writable catalog owner value heap
  obtain ⟨writeRule, _, rfl⟩ := Option.map_eq_some_iff.mp writable
  exact Heap.Extends.refl heap

end PropertyRule

/-! ## Accesses that respect a relation between heaps -/

namespace Access

variable {Result Next : Type}

def heapAfter (access : Access Result) (heap : Heap) : Heap :=
  match access heap with
  | .ok _ after => after
  | .error _ after => after

/-- An access that leads from every heap to a related one. -/
def Respects (Related : Heap → Heap → Prop) (access : Access Result) : Prop :=
  ∀ heap, Related heap (heapAfter access heap)

/-- An access that adds cells at most. -/
def Keeps (access : Access Result) : Prop :=
  ∀ heap, (heapAfter access heap).Extends heap

theorem heapAfter_of_ok
    {access : Access Result} {heap after : Heap} {result : Result}
    (done : access heap = .ok result after) :
    heapAfter access heap = after := by
  rw [heapAfter, done]

theorem heapAfter_of_error
    {access : Access Result} {heap after : Heap} {error : AccessError}
    (failed : access heap = .error error after) :
    heapAfter access heap = after := by
  rw [heapAfter, failed]

theorem Respects.of_ok
    {Related : Heap → Heap → Prop} {access : Access Result} (respects : Respects Related access)
    {heap after : Heap} {result : Result} (done : access heap = .ok result after) :
    Related heap after := by
  rw [← heapAfter_of_ok done]
  exact respects heap

theorem Respects.of_error
    {Related : Heap → Heap → Prop} {access : Access Result} (respects : Respects Related access)
    {heap after : Heap} {error : AccessError} (failed : access heap = .error error after) :
    Related heap after := by
  rw [← heapAfter_of_error failed]
  exact respects heap

theorem Keeps.of_ok
    {access : Access Result} (keeps : Keeps access) {heap after : Heap} {result : Result}
    (done : access heap = .ok result after) :
    after.Extends heap := by
  rw [← heapAfter_of_ok done]
  exact keeps heap

theorem Keeps.of_error
    {access : Access Result} (keeps : Keeps access) {heap after : Heap} {error : AccessError}
    (failed : access heap = .error error after) :
    after.Extends heap := by
  rw [← heapAfter_of_error failed]
  exact keeps heap

section Relations

variable {Related : Heap → Heap → Prop} [IsPreorder Heap Related]

theorem respects_pure (result : Result) :
    Respects Related (pure result : Access Result) :=
  fun heap => Std.Refl.refl heap

theorem respects_lift (answer : Except AccessError Result) :
    Respects Related (liftM answer : Access Result) := by
  intro heap
  cases answer <;> exact Std.Refl.refl heap

theorem respects_get : Respects Related (get : Access Heap) :=
  fun heap => Std.Refl.refl heap

theorem Respects.bind
    {access : Access Result} {next : Result → Access Next}
    (first : Respects Related access) (second : ∀ result, Respects Related (next result)) :
    Respects Related (access >>= next) := by
  intro heap
  cases done : access heap with
  | error error after =>
      have final : heapAfter (access >>= next) heap = after := by
        simp only [heapAfter, bind_apply, done]
      rw [final]
      exact first.of_error done
  | ok result middle =>
      have final : heapAfter (access >>= next) heap = heapAfter (next result) middle := by
        simp only [heapAfter, bind_apply, done]
      rw [final]
      exact IsTrans.trans _ _ _ (first.of_ok done) (second result middle)

end Relations

end Access

/-! ## Walks -/

instance : IsPreorder Heap fun before after => after.Extends before where
  refl := Heap.Extends.refl
  trans _ _ _ earlier later := later.trans earlier

def Accessors.ReadsRespect (Rule : Type) [Accessors Rule] (Related : Heap → Heap → Prop) : Prop :=
  ∀ (rule : Rule) (catalog : Catalog Rule) (owner : Composite) (heap : Heap),
    Related heap (read rule catalog owner heap).2

section Walks

variable [Accessors Rule] {Related : Heap → Heap → Prop} [IsPreorder Heap Related]

theorem Container.respects_fetch
    (reads : Accessors.ReadsRespect Rule Related)
    (catalog : Catalog Rule) (container : Container) (step : Step) :
    Access.Respects Related (container.fetch catalog step) := by
  cases container with
  | sequence elements =>
      exact (Access.respects_lift _).bind fun value => Access.respects_pure _
  | composite owner =>
      refine (Access.respects_lift _).bind fun placed => ?_
      cases placed.member.kind with
      | field => exact Access.respects_pure _
      | property rule =>
          refine Access.Respects.bind ?_ fun value => Access.respects_pure _
          exact reads rule catalog owner

theorem Value.respects_fetch
    (reads : Accessors.ReadsRespect Rule Related)
    (catalog : Catalog Rule) (value : Value) (reachedBy? : Option Step) (step : Step) :
    Access.Respects Related (value.fetch catalog reachedBy? step) := by
  refine Access.respects_get.bind fun heap => (Access.respects_lift _).bind fun container => ?_
  exact container.respects_fetch reads catalog step

theorem Value.respects_follow
    (reads : Accessors.ReadsRespect Rule Related)
    (catalog : Catalog Rule) (steps : List Step) (reachedBy? : Option Step) (value : Value) :
    Access.Respects Related (value.follow catalog steps reachedBy?) := by
  induction steps generalizing value reachedBy? with
  | nil => exact Access.respects_pure value
  | cons step steps inductionHypothesis =>
      apply (value.respects_fetch reads catalog reachedBy? step).bind
      exact fun reading => inductionHypothesis (some step) reading.value

theorem Walk.respects_advanceAll
    (reads : Accessors.ReadsRespect Rule Related)
    (catalog : Catalog Rule) (steps : List Step) (walk : Walk) :
    Access.Respects Related (walk.advanceAll catalog steps) := by
  induction steps generalizing walk with
  | nil => exact Access.respects_pure walk
  | cons step steps inductionHypothesis =>
      refine Access.Respects.bind ?_ fun advanced => inductionHypothesis advanced
      exact (walk.value.respects_fetch reads catalog walk.reachedBy? step).bind fun reading =>
        Access.respects_pure _

theorem Value.respects_locate
    (reads : Accessors.ReadsRespect Rule Related)
    (catalog : Catalog Rule) (root : Value) (path : Path) :
    Access.Respects Related (root.locate catalog path) := by
  refine Access.Respects.bind ?_ fun walk => ?_
  · exact Walk.respects_advanceAll reads catalog path.init (.ofRoot root)
  · refine Access.respects_get.bind fun heap => (Access.respects_lift _).bind fun owner => ?_
    exact (Access.respects_lift _).bind fun _ => Access.respects_lift _

theorem Value.keeps_locate
    (readsOnly : Accessors.ReadsOnly Rule)
    (catalog : Catalog Rule) (root : Value) (path : Path) :
    Access.Keeps (root.locate catalog path) := by
  have reads : Accessors.ReadsRespect Rule fun before after => after.Extends before := readsOnly
  exact root.respects_locate reads catalog path

end Walks

end ObjectGraph
