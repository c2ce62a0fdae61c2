import ObjectGraph.Examples.Ring
import ObjectGraph.Proofs.Conservation
import ObjectGraph.Proofs.ReadAfterWrite
import ObjectGraph.Proofs.ReferenceFree

/-!
# Writes that stay in one object

A walk that starts at an object without references and passes through stored fields only never
leaves the object: every value on its way is a scalar or a struct within the object. A write at the
end of the walk replaces a slot of the object, and if the new value is free of references, so is the
object afterwards. Hence any number of such writes changes no other cell.
-/

namespace ObjectGraph

variable {Rule : Type}

/-! ## Replacing parts by values without references -/

theorem Value.ReferenceFree.modify
    {values : List Value} {index : Nat} {change : Value → Value}
    (free : ∀ value ∈ values, value.ReferenceFree)
    (kept : ∀ value, value.ReferenceFree → (change value).ReferenceFree) :
    ∀ value ∈ values.modify index change, value.ReferenceFree := by
  intro value present
  obtain ⟨position, found⟩ := List.mem_iff_getElem?.mp present
  rw [List.getElem?_modify, Option.map_eq_map, Option.map_eq_some_iff] at found
  obtain ⟨old, held, rfl⟩ := found
  have oldFree := free old (List.mem_of_getElem? held)
  split
  · exact kept old oldFree
  · exact oldFree

theorem Value.ReferenceFree.replace
    {value new : Value} (free : value.ReferenceFree) (newFree : new.ReferenceFree)
    (indices : List Nat) :
    (value.replace indices new).ReferenceFree := by
  induction indices generalizing value with
  | nil => rwa [replace_nil]
  | cons index indices inductionHypothesis =>
      cases value with
      | struct type fields =>
          rw [Value.replace, referenceFree_struct_iff]
          exact modify (referenceFree_struct_iff.mp free) fun field => inductionHypothesis
      | _ => exact free

theorem Container.ReferenceFree.replace
    {container : Container} {new : Value} (free : container.ReferenceFree)
    (newFree : new.ReferenceFree) (indices : List Nat) :
    (container.replace indices new).ReferenceFree := by
  cases indices with
  | nil => cases container <;> exact free
  | cons index indices =>
      rw [ReferenceFree, slots_replace_cons]
      exact Value.ReferenceFree.modify free fun slot slotFree => slotFree.replace newFree indices

theorem Container.ReferenceFree.slot
    {container : Container} (free : container.ReferenceFree) (index : Nat) :
    (container.slot index).ReferenceFree := by
  rw [Container.slot, List.getD_eq_getElem?_getD]
  cases held : container.slots[index]? with
  | none => exact Value.referenceFree_null
  | some value => exact free value (List.mem_of_getElem? held)

/-! ## Steps that select stored fields -/

def Container.selectsComputed (catalog : Catalog Rule) (container : Container) (step : Step) :
    Bool :=
  match container with
  | sequence _ => false
  | composite owner =>
      match owner.select catalog step with
      | .error _ => false
      | .ok placed => !placed.member.isField

/-- No step along the way selects a computed member. The way ends early where a step leads
nowhere. -/
def Value.AlongFields (catalog : Catalog Rule) (heap : Heap) : List Step → Value → Prop
  | [], _ => True
  | step :: steps, value =>
      ∀ container, heap.container? value = some container →
        container.selectsComputed catalog step = false ∧
          ∀ index, container.storage catalog step = .ok index →
            AlongFields catalog heap steps (container.slot index)

section Steps

variable {catalog : Catalog Rule} {container : Container} {step : Step}

theorem Container.fetch_of_not_selectsComputed
    [Accessors Rule] (uncomputed : container.selectsComputed catalog step = false) (heap : Heap) :
    container.fetch catalog step heap =
      match container.storage catalog step with
      | .error error => .error error heap
      | .ok index => .ok ⟨container.slot index, .stored⟩ heap := by
  cases container with
  | sequence elements =>
      rw [Sequence.fetch_apply, storage]
      rfl
  | composite owner =>
      rw [selectsComputed] at uncomputed
      rw [fetch, Composite.fetch_apply, storage, Composite.storage]
      cases selected : owner.select catalog step with
      | error error => rfl
      | ok placed =>
          cases kind : placed.member.kind with
          | field => simp [kind, bind, Except.bind, pure, Except.pure]
          | property rule => simp [selected, Member.isField, kind] at uncomputed

theorem Container.aim_ne_computed
    (uncomputed : container.selectsComputed catalog step = false)
    {passed indices : List Nat} {owner : Composite} {placed : PlacedMember Rule} {rule : Rule} :
    container.aim catalog step passed ≠ .ok (.computed indices owner placed rule) := by
  cases container with
  | sequence elements =>
      simp only [aim]
      cases elements.select step <;> simp
  | composite found =>
      rw [selectsComputed] at uncomputed
      simp only [aim]
      cases selected : found.select catalog step with
      | error error => simp
      | ok member =>
          cases kind : member.member.kind with
          | field => simp [kind]
          | property token => simp [selected, Member.isField, kind] at uncomputed

end Steps

/-! ## A walk within one object -/

/-- The walk has not left the object or list of a handle, and where it stands there are no
references. -/
structure Walk.Inside (catalog : Catalog Rule) (heap : Heap) (anchor : Handle) (walk : Walk) :
    Prop where
  footing : ∃ hops, walk.footing = .held anchor hops
  stands : ∃ held?, walk.StandsAt catalog heap held?
  free : ∀ container, heap.container? walk.value = some container → container.ReferenceFree

namespace Walk.Inside

variable {catalog : Catalog Rule} {heap : Heap} {anchor : Handle}

theorem ofRoot (free : (heap.read anchor).ReferenceFree) :
    (Walk.ofRoot (.shared anchor)).Inside catalog heap anchor := by
  constructor
  case footing => exact ⟨[], rfl⟩
  case stands => exact ⟨none, Walk.standsAt_ofRoot catalog heap (.shared anchor)⟩
  case free =>
    intro container opened
    cases opened
    exact free

theorem advance
    {walk : Walk} (inside : walk.Inside catalog heap anchor) {container : Container} {step : Step}
    {index : Nat} (opened : heap.container? walk.value = some container)
    (stored : container.storage catalog step = .ok index) :
    Walk.Inside catalog heap anchor
      ⟨container.slot index, some step,
        walk.footing.advance step ⟨container.slot index, .stored⟩⟩ := by
  obtain ⟨hops, footing⟩ := inside.footing
  obtain ⟨held?, stands⟩ := inside.stands
  have free := (inside.free container opened).slot index
  constructor
  case footing =>
    refine ⟨hops ++ [step], ?_⟩
    rw [footing]
    cases value : container.slot index with
    | shared handle => exact absurd (by rw [value]; rfl) (free [] handle)
    | _ => rfl
  case stands =>
    cases present : container.slots[index]? with
    | some slot =>
        have same : container.slot index = slot := by
          rw [Container.slot, List.getD_eq_getElem?_getD, present, Option.getD_some]
        rw [same]
        exact ⟨_, stands.advance opened stored present⟩
    | none =>
        have missing : container.slot index = .null := by
          rw [Container.slot, List.getD_eq_getElem?_getD, present, Option.getD_none]
        rw [missing]
        exact ⟨none, fun inner innerOpened => by cases innerOpened⟩
  case free =>
    intro inner innerOpened
    cases value : container.slot index with
    | struct type fields =>
        rw [value] at free
        simp only [value] at innerOpened
        cases innerOpened
        exact Value.referenceFree_struct_iff.mp free
    | shared handle => exact absurd (by rw [value]; rfl) (free [] handle)
    | _ =>
        simp only [value] at innerOpened
        cases innerOpened

/-- The walk to the owner of the last slot changes nothing and stays inside. -/
theorem advanceAll
    [Accessors Rule] {walk : Walk} (inside : walk.Inside catalog heap anchor) {init : List Step}
    {terminal : Step} (along : walk.value.AlongFields catalog heap (init ++ [terminal])) :
    (∃ error, walk.advanceAll catalog init heap = .error error heap) ∨
      ∃ owner, walk.advanceAll catalog init heap = .ok owner heap ∧
        owner.Inside catalog heap anchor ∧ owner.value.AlongFields catalog heap [terminal] := by
  induction init generalizing walk with
  | nil => exact .inr ⟨walk, rfl, inside, along⟩
  | cons step init inductionHypothesis =>
      rw [Walk.advanceAll_cons_apply, Walk.advance_apply, Value.fetch_apply]
      cases opens : heap.openValue walk.value step walk.reachedBy? with
      | error error => exact .inl ⟨error, rfl⟩
      | ok container =>
          have opened := Heap.container?_of_openValue opens
          obtain ⟨uncomputed, further⟩ := along container opened
          simp only [Container.fetch_of_not_selectsComputed uncomputed]
          cases stored : container.storage catalog step with
          | error error => exact .inl ⟨error, rfl⟩
          | ok index =>
              exact inductionHypothesis (inside.advance opened stored) (further index stored)

end Walk.Inside

/-- Where a walk inside an object ends, a location of the object is found, and it denotes a stored
slot if it denotes anything. -/
theorem Walk.Inside.finish
    {catalog : Catalog Rule} {heap : Heap} {anchor : Handle} {walk : Walk} {terminal : Step}
    (inside : walk.Inside catalog heap anchor)
    (along : walk.value.AlongFields catalog heap [terminal]) :
    (∃ error, walk.finish catalog terminal heap = .error error heap) ∨
      ∃ location, walk.finish catalog terminal heap = .ok location heap ∧
        location.anchor = anchor ∧
        ∀ indices owner placed rule,
          location.target catalog heap ≠ .ok (.computed indices owner placed rule) := by
  rw [Walk.finish_apply]
  cases opens : heap.openValue walk.value terminal walk.reachedBy? with
  | error error => exact .inl ⟨error, rfl⟩
  | ok container =>
      have opened := Heap.container?_of_openValue opens
      simp only
      cases container.probe catalog terminal with
      | error error => exact .inl ⟨error, rfl⟩
      | ok done =>
          obtain ⟨hops, footing⟩ := inside.footing
          obtain ⟨held?, stands⟩ := inside.stands
          have stood := stands container opened
          rw [footing] at stood
          obtain ⟨passed, descended, _⟩ := stood
          rw [footing]
          refine .inr ⟨⟨anchor, hops, terminal⟩, rfl, rfl, ?_⟩
          intro indices owner placed rule aimed
          obtain ⟨_, reached, descendedAgain, aims⟩ := Container.target_eq_ok_iff.mp aimed
          rw [descended] at descendedAgain
          cases descendedAgain
          exact Container.aim_ne_computed (along container opened).1 aims

/-- A write along fields of an object without references replaces one slot of it, or nothing. -/
theorem Value.heapAfter_set
    [Accessors Rule] {catalog : Catalog Rule} {heap : Heap} {anchor : Handle} {text : String}
    (value : Value) (free : (heap.read anchor).ReferenceFree)
    (along : ∀ path, Path.parse text = .ok path →
      (shared anchor).AlongFields catalog heap path.steps) :
    Access.heapAfter ((shared anchor).set catalog text value) heap = heap ∨
      ∃ indices, Access.heapAfter ((shared anchor).set catalog text value) heap =
        heap.replace ⟨anchor.cell, indices⟩ value := by
  rw [Access.heapAfter, set_apply]
  cases parsed : Path.parse text with
  | error malformation =>
      have malformed : Path.ofText text = .error (.malformedPath text malformation) := by
        rw [Path.ofText, parsed]
        rfl
      simp only [malformed, true_or]
  | ok path =>
      have alongPath := along path parsed
      rw [← path.init_append_last] at alongPath
      simp only [Path.ofText_of_parse parsed, locate_apply]
      rcases (Walk.Inside.ofRoot free).advanceAll alongPath with
        ⟨error, failed⟩ | ⟨owner, reached, inside, alongLast⟩
      · simp only [failed, true_or]
      · simp only [reached]
        rcases inside.finish alongLast with ⟨error, failed⟩ | ⟨location, found, rfl, stored⟩
        · simp only [failed, true_or]
        · simp only [found, Location.write_apply]
          cases aimed : location.target catalog heap with
          | error error => exact .inl rfl
          | ok target =>
              cases target with
              | computed indices owner placed rule => exact absurd aimed (stored _ _ _ _)
              | slot indices type =>
                  by_cases fits : type.accepts catalog value = true
                  · simp only [if_pos fits]
                    exact .inr ⟨indices, rfl⟩
                  · simp only [if_neg fits, true_or]

/-! ## Runs of writes -/

/-- The heaps that path writes from a root lead to: every path passes through stored fields only,
and every value that is stored is free of references. Writes may fail. -/
inductive Value.Stores [Accessors Rule] (catalog : Catalog Rule) (root : Value) (before : Heap) :
    Heap → Prop where
  | nothing : Stores catalog root before before
  | more {middle : Heap} {text : String} {value : Value}
      (earlier : Stores catalog root before middle)
      (along : ∀ path, Path.parse text = .ok path → root.AlongFields catalog middle path.steps)
      (free : value.ReferenceFree) :
      Stores catalog root before (Access.heapAfter (root.set catalog text value) middle)

/-- Writes from an object without references change no other cell. -/
theorem Value.Stores.unchanged
    [Accessors Rule] {catalog : Catalog Rule} {before after : Heap} {anchor : Handle}
    (stores : (shared anchor).Stores catalog before after)
    (free : (before.read anchor).ReferenceFree) :
    (after.read anchor).ReferenceFree ∧
      ∀ cell, cell ≠ anchor.cell → after.cells[cell]? = before.cells[cell]? := by
  induction stores with
  | nothing => exact ⟨free, fun cell _ => rfl⟩
  | @more middle text value earlier along valueFree inductionHypothesis =>
      obtain ⟨middleFree, kept⟩ := inductionHypothesis
      rcases Value.heapAfter_set value middleFree along with same | ⟨indices, replaced⟩
      · rw [same]
        exact ⟨middleFree, kept⟩
      · rw [replaced]
        constructor
        · rw [Heap.read_replace]
          exact middleFree.replace valueFree indices
        · intro cell other
          rw [Heap.getElem?_cells_replace, if_neg (Ne.symm other)]
          exact kept cell other

/-! ## Two new objects -/

/-- Two objects have just been made, of the same or of different types. Other cells may have been
added between the two. -/
inductive Catalog.MakesBoth (catalog : Catalog Rule) : Handle → Handle → Heap → Prop where
  | intro {start afterFirst between made : Heap} {firstType secondType : TypeId}
      {first second : Handle}
      (firstMade : catalog.instantiate? firstType start = .ok (.shared first, afterFirst))
      (extended : between.Extends afterFirst)
      (secondMade : catalog.instantiate? secondType between = .ok (.shared second, made)) :
      MakesBoth catalog first second made

theorem Catalog.layout?_of_instantiate?
    {catalog : Catalog Rule} {type : TypeId} {heap after : Heap} {value : Value}
    (made : catalog.instantiate? type heap = .ok (value, after)) :
    ∃ layout, catalog.layout? type = some layout ∧
      catalog.instantiate type heap = (value, after) := by
  unfold instantiate? at made
  cases registered : catalog.layout? type with
  | none => simp [registered] at made
  | some layout =>
      simp only [registered, Except.ok.injEq] at made
      exact ⟨layout, rfl, made⟩

/-- A new object lives in a new cell, and there are no references in it. -/
theorem Catalog.Records.instantiate?_shared
    {catalog : Catalog Rule} {accepted : List (Submission Rule)}
    (records : catalog.Records accepted) {type : TypeId} {heap after : Heap} {handle : Handle}
    (made : catalog.instantiate? type heap = .ok (.shared handle, after)) :
    handle.cell = heap.cells.size ∧ handle.cell < after.cells.size ∧ after.Extends heap ∧
      (after.read handle).ReferenceFree := by
  obtain ⟨layout, registered, instantiated⟩ := layout?_of_instantiate? made
  have free := records.referenceFree registered
  rw [instantiate_of_layout? registered] at instantiated
  cases semantics : layout.semantics with
  | value => simp [semantics] at instantiated
  | reference =>
      simp only [semantics, Heap.newObject, Prod.mk.injEq, Value.shared.injEq] at instantiated
      obtain ⟨rfl, rfl⟩ := instantiated
      refine ⟨rfl, by simp [Handle.cell], Heap.extends_push _ _, ?_⟩
      rw [Heap.read_of_getElem? Array.getElem?_push_size]
      exact free

/-- No registered type makes its instances share anything: a new instance leads to nothing but
itself, and whatever is stored along fields of one of two new objects, the other one stays as it
is. -/
theorem Catalog.unshared_of_records
    [Accessors Rule] {catalog : Catalog Rule} {accepted : List (Submission Rule)}
    (records : catalog.Records accepted) :
    (∀ type layout, catalog.layout? type = some layout → layout.Unshared catalog type) ∧
      ∀ first second made, catalog.MakesBoth first second made →
        (∀ after, (Value.shared first).Stores catalog made after →
          after.cells[second.cell]? = made.cells[second.cell]?) ∧
        ∀ after, (Value.shared second).Stores catalog made after →
          after.cells[first.cell]? = made.cells[first.cell]? := by
  constructor
  · intro type layout registered
    exact (records.referenceFree registered).unshared registered
  · intro first second made both
    cases both with
    | intro firstMade extended secondMade =>
        obtain ⟨_, firstLive, _, firstFree⟩ := records.instantiate?_shared firstMade
        obtain ⟨secondFresh, _, kept, secondFree⟩ := records.instantiate?_shared secondMade
        have firstOld := firstLive.trans_le extended.size_le
        have apart : second.cell ≠ first.cell := by omega
        have firstStillFree : (made.read first).ReferenceFree := by
          rw [kept.read_eq firstOld, extended.read_eq firstLive]
          exact firstFree
        constructor
        · intro after stores
          exact (stores.unchanged firstStillFree).2 second.cell apart
        · intro after stores
          exact (stores.unchanged secondFree).2 first.cell apart.symm

/-- Two nodes start with a pair each, taken from the buffer of the same struct type. A number stored
in the pair of the first node is not seen in the second one. -/
theorem Catalog.unshared_of_records_ring :
    let node (x : Int64) : Container :=
      .composite ⟨⟨"main", "Node"⟩, [.struct ⟨"main", "Pair"⟩ [.int x, .int 0], .null]⟩
    let second : Handle := .object ⟨"main", "Node"⟩ 1
    let made : Heap := ⟨#[node 0, node 0]⟩
    let after : Heap := ⟨#[node 5, node 0]⟩
    Ring.catalog.Records [⟨"main", Ring.node⟩, ⟨"main", Ring.pair⟩] ∧
      Ring.catalog.MakesBoth Ring.handle second made ∧
      Ring.root.Stores Ring.catalog made after ∧
      (∀ layout, Ring.catalog.layout? ⟨"main", "Node"⟩ = some layout →
        layout.Unshared Ring.catalog ⟨"main", "Node"⟩) ∧
      after.cells[second.cell]? = made.cells[second.cell]? := by
  intro node second made after
  have records : Ring.catalog.Records [⟨"main", Ring.node⟩, ⟨"main", Ring.pair⟩] :=
    .accepted (.accepted .empty rfl) rfl
  have both : Ring.catalog.MakesBoth Ring.handle second made :=
    @MakesBoth.intro _ _ .empty ⟨#[node 0]⟩ ⟨#[node 0]⟩ made ⟨"main", "Node"⟩ ⟨"main", "Node"⟩
      _ _ rfl (Heap.Extends.refl _) rfl
  have stores : Ring.root.Stores Ring.catalog made after := by
    have parsed : Path.parse "pair.x" = .ok ⟨[.member "pair", .member "x"], by simp⟩ := by
      decide +kernel
    have written :
        Access.heapAfter (Ring.root.set Ring.catalog "pair.x" (.int 5)) made = after := by
      rw [Access.heapAfter, Value.set_apply, Path.ofText_of_parse parsed]
      rfl
    rw [← written]
    refine .more .nothing ?_ (Value.referenceFree_of_not_holdsReference rfl)
    intro path found
    rw [parsed] at found
    cases found
    rintro container ⟨⟩
    refine ⟨rfl, ?_⟩
    rintro index ⟨⟩
    rintro inner ⟨⟩
    exact ⟨rfl, fun index stored => trivial⟩
  obtain ⟨unshared, untouched⟩ := unshared_of_records records
  exact ⟨records, both, stores, unshared _, (untouched _ _ _ both).1 after stores⟩

end ObjectGraph
