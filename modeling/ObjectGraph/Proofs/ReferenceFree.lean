import ObjectGraph.Proofs.Declarations

/-!
# Instances that share nothing

A value is free of references when no object and no list is found in it, at any depth of nested
structs. The initial contents of a field buffer come from three places: they are inherited, they are
the buffers of struct types, or they are given explicitly and checked. All of them are free of
references, so that a new instance has nothing in common with anything else.
-/

namespace ObjectGraph

variable {Rule : Type}

/-! ## Values and containers without references -/

/-- Neither the value nor any part of it is an object or a list. -/
def Value.ReferenceFree (value : Value) : Prop :=
  ∀ indices handle, value.part? indices ≠ some (.shared handle)

/-- No slot of the container holds an object or a list, at any depth. -/
def Container.ReferenceFree (container : Container) : Prop :=
  ∀ slot ∈ container.slots, slot.ReferenceFree

/-- No value in the initial field buffer holds an object or a list, at any depth. -/
def Layout.ReferenceFree (layout : Layout Rule) : Prop :=
  ∀ value ∈ layout.defaults, value.ReferenceFree

namespace Value

theorem referenceFree_iff {value : Value} :
    value.ReferenceFree ↔
      value.isReference = false ∧ ∀ field ∈ value.fields, field.ReferenceFree := by
  constructor
  · intro free
    constructor
    · cases value with
      | shared handle => exact absurd rfl (free [] handle)
      | _ => rfl
    · intro field present indices handle found
      obtain ⟨index, held⟩ := List.mem_iff_getElem?.mp present
      refine free (index :: indices) handle ?_
      rw [part?_cons, held]
      exact found
  · rintro ⟨plain, free⟩ indices handle found
    cases indices with
    | nil =>
        rw [part?_nil, Option.some.injEq] at found
        subst found
        cases plain
    | cons index indices =>
        rw [part?_cons, Option.bind_eq_some_iff] at found
        obtain ⟨field, held, found⟩ := found
        exact free field (List.mem_of_getElem? held) indices handle found

theorem referenceFree_struct_iff {type : TypeId} {fields : List Value} :
    (struct type fields).ReferenceFree ↔ ∀ field ∈ fields, field.ReferenceFree := by
  rw [referenceFree_iff]
  exact ⟨And.right, fun free => ⟨rfl, free⟩⟩

theorem referenceFree_null : ReferenceFree null :=
  referenceFree_iff.mpr ⟨rfl, by simp [fields]⟩

theorem anyHoldsReference_eq_false_iff {values : List Value} :
    anyHoldsReference values = false ↔ ∀ value ∈ values, value.holdsReference = false := by
  induction values with
  | nil => simp [anyHoldsReference]
  | cons value values inductionHypothesis =>
      rw [anyHoldsReference, Bool.or_eq_false_iff, inductionHypothesis, List.forall_mem_cons]

/-- The check at registration looks at every part of a value. -/
theorem referenceFree_of_not_holdsReference
    {value : Value} (unshared : value.holdsReference = false) :
    value.ReferenceFree := by
  intro indices
  induction indices generalizing value with
  | nil =>
      intro handle found
      rw [part?_nil, Option.some.injEq] at found
      subst found
      simp [holdsReference] at unshared
  | cons index indices inductionHypothesis =>
      intro handle found
      rw [part?_cons, Option.bind_eq_some_iff] at found
      obtain ⟨field, held, found⟩ := found
      cases value with
      | struct type fields =>
          rw [holdsReference, anyHoldsReference_eq_false_iff] at unshared
          exact inductionHypothesis (unshared field (List.mem_of_getElem? held)) handle found
      | _ => simp [fields] at held

theorem holdsReference_eq_false_iff {value : Value} :
    value.holdsReference = false ↔ value.ReferenceFree := by
  refine ⟨referenceFree_of_not_holdsReference, ?_⟩
  refine holdsReference.induct (fun value => value.ReferenceFree → value.holdsReference = false)
    (fun values => (∀ value ∈ values, value.ReferenceFree) → anyHoldsReference values = false)
    ?shared ?struct ?other ?nil ?cons value
  case shared => exact fun handle free => absurd rfl (free [] handle)
  case struct =>
    intro type fields unshared free
    rw [holdsReference]
    exact unshared (referenceFree_struct_iff.mp free)
  case other =>
    intro value notShared notStruct _
    cases value with
    | shared handle => exact absurd rfl (notShared handle)
    | struct type fields => exact absurd rfl (notStruct type fields)
    | _ => rfl
  case nil => exact fun _ => rfl
  case cons =>
    intro value values unshared othersUnshared free
    obtain ⟨valueFree, othersFree⟩ := List.forall_mem_cons.mp free
    rw [anyHoldsReference, unshared valueFree, othersUnshared othersFree]
    rfl

end Value

/-! ## Initial field buffers -/

theorem Catalog.referenceFree_of_plainDefault
    {catalog : Catalog Rule}
    (registeredFree : ∀ type layout, catalog.layout? type = some layout → layout.ReferenceFree)
    {label typeName : String} {member : Member Rule} {value : Value}
    (plain : catalog.plainDefault label typeName member = .ok value) :
    value.ReferenceFree := by
  unfold plainDefault at plain
  cases declared : member.type with
  | struct name =>
      simp only [declared] at plain
      cases known : (catalog.registry label).get? name with
      | none => simp [known] at plain
      | some layout =>
          cases semantics : layout.semantics with
          | reference => simp [known, semantics] at plain
          | value =>
              simp only [known, semantics, Except.ok.injEq] at plain
              subst plain
              exact Value.referenceFree_struct_iff.mpr (registeredFree ⟨label, name⟩ layout known)
  | _ =>
      simp only [declared, Except.ok.injEq] at plain
      subst plain
      exact Value.referenceFree_of_not_holdsReference (by simp [Value.holdsReference])

theorem Draft.referenceFree_of_addedDefaults
    {catalog : Catalog Rule}
    (registeredFree : ∀ type layout, catalog.layout? type = some layout → layout.ReferenceFree)
    {label typeName : String} {member : Member Rule} {defaults : List Value}
    (added : addedDefaults catalog label typeName member = .ok defaults) :
    ∀ value ∈ defaults, value.ReferenceFree := by
  unfold addedDefaults at added
  split at added
  · cases started : catalog.initialValue label typeName member with
    | error error => simp [started, Except.map] at added
    | ok initial =>
        simp only [started, Except.map, Except.ok.injEq] at added
        subst added
        rw [List.forall_mem_singleton]
        unfold Catalog.initialValue at started
        split at started
        · exact Catalog.referenceFree_of_plainDefault registeredFree started
        · split at started
          · cases started
          · split at started
            · cases started
            · next unshared =>
                cases started
                exact Value.referenceFree_of_not_holdsReference (by simpa using unshared)
  · cases added
    simp

/-- Deriving takes over a free buffer, and every member adds free values to it. -/
theorem Catalog.Records.referenceFree
    {catalog : Catalog Rule} {accepted : List (Submission Rule)}
    (records : catalog.Records accepted) {type : TypeId} {layout : Layout Rule}
    (registered : catalog.layout? type = some layout) :
    layout.ReferenceFree := by
  refine records.layout_induction ?_ ?_ ?_ registered
  · intro name semantics value present
    cases present
  · exact fun base name semantics free => free
  · intro known label layout member defaults registeredFree free added
    exact List.forall_mem_append.mpr
      ⟨free, Draft.referenceFree_of_addedDefaults registeredFree added⟩

/-! ## What can be reached -/

/-- An object or a list can be reached from a value through slots of structs, objects and lists. -/
inductive Value.Reaches (heap : Heap) : Value → Handle → Prop where
  | self (handle : Handle) : Reaches heap (.shared handle) handle
  | inside {value inner : Value} {container : Container} {handle : Handle}
      (opened : heap.container? value = some container) (held : inner ∈ container.slots)
      (further : Reaches heap inner handle) :
      Reaches heap value handle

theorem Value.ReferenceFree.not_reaches
    {heap : Heap} {value : Value} {handle : Handle} (free : value.ReferenceFree) :
    ¬ value.Reaches heap handle := by
  intro reaches
  induction reaches with
  | self handle => exact free [] handle rfl
  | @inside value inner container handle opened held further inductionHypothesis =>
      cases value with
      | struct type fields =>
          cases opened
          exact inductionHypothesis (Value.referenceFree_struct_iff.mp free inner held)
      | shared handle => exact free [] handle rfl
      | _ => cases opened

/-- Nothing but the object itself is reached from an object without references. -/
theorem Value.reaches_iff_of_referenceFree
    {heap : Heap} {own other : Handle} (free : (heap.read own).ReferenceFree) :
    (shared own).Reaches heap other ↔ other = own := by
  constructor
  · intro reaches
    cases reaches with
    | self => rfl
    | inside opened held further =>
        cases opened
        exact absurd further (free _ held).not_reaches
  · rintro rfl
    exact .self other

/-! ## New instances -/

/-- What instances of a type have in common with each other and with everything else: nothing. -/
structure Layout.Unshared (catalog : Catalog Rule) (type : TypeId) (layout : Layout Rule) :
    Prop where
  /-- The initial field buffer holds no object and no list at any depth. -/
  referenceFree : layout.ReferenceFree
  /-- A new struct leaves the heap alone and leads to no object and no list. -/
  struct (heap : Heap) : layout.semantics = .value →
    catalog.instantiate type heap = (.struct type layout.defaults, heap) ∧
      ∀ handle, ¬ (Value.struct type layout.defaults).Reaches heap handle
  /-- A new object lives in a new cell and leads to no other object and to no list. -/
  object (heap : Heap) : layout.semantics = .reference →
    ∃ after, catalog.instantiate type heap = (.shared (.object type heap.cells.size), after) ∧
      after.cells = heap.cells.push (.composite ⟨type, layout.defaults⟩) ∧
      ∀ handle, (Value.shared (.object type heap.cells.size)).Reaches after handle ↔
        handle = .object type heap.cells.size

theorem Catalog.instantiate_of_layout?
    {catalog : Catalog Rule} {type : TypeId} {layout : Layout Rule}
    (registered : catalog.layout? type = some layout) (heap : Heap) :
    catalog.instantiate type heap =
      match layout.semantics with
      | .value => (.struct type layout.defaults, heap)
      | .reference => heap.newObject ⟨type, layout.defaults⟩ := by
  have known : catalog.layout type = layout := by
    rw [Catalog.layout, registered, Option.getD_some]
  rw [instantiate, known]
  cases layout.semantics <;> rfl

theorem Layout.ReferenceFree.unshared
    {catalog : Catalog Rule} {type : TypeId} {layout : Layout Rule}
    (free : layout.ReferenceFree) (registered : catalog.layout? type = some layout) :
    layout.Unshared catalog type := by
  constructor
  case referenceFree => exact free
  case struct =>
    intro heap semantics
    rw [Catalog.instantiate_of_layout? registered, semantics]
    exact ⟨rfl, fun handle => (Value.referenceFree_struct_iff.mpr free).not_reaches⟩
  case object =>
    intro heap semantics
    rw [Catalog.instantiate_of_layout? registered, semantics]
    refine ⟨_, rfl, rfl, fun handle => Value.reaches_iff_of_referenceFree ?_⟩
    rw [Heap.read_of_getElem? Array.getElem?_push_size]
    exact free

end ObjectGraph
