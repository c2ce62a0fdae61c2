import ObjectGraph.Proofs.Addressability
import ObjectGraph.Proofs.Inheritance
import ObjectGraph.PropertyRule

/-!
# Statically typed paths

The declarations of a registry give a type to a path before any graph is looked at: a name on a
struct or object type gives the declared type of the field, and a position on a list type gives the
type of its elements. Where no type declares a name that it inherits, an instance of a derived type
offers every field of its ancestors at the declared type. So a path of a static type cannot get lost
in a well-typed graph: it reads a value of this type, unless it meets a missing value or a position
out of range on the way.
-/

namespace ObjectGraph

variable {Rule : Type}

/-! ## Static types -/

def SlotType.instanceName? : SlotType → Option String
  | struct name => some name
  | object name => some name
  | _ => none

/-- The steps lead from values of one type to values of another one, according to the declarations
of a registry. -/
inductive SlotType.Leads (catalog : Catalog Rule) (label : String) :
    SlotType → List Step → SlotType → Prop
  | here (type : SlotType) : Leads catalog label type [] type
  | field {type result : SlotType} {typeName name : String} {layout : Layout Rule}
      {placed : PlacedMember Rule} {steps : List Step}
      (named : type.instanceName? = some typeName)
      (registered : catalog.layout? ⟨label, typeName⟩ = some layout)
      (reached : layout.member? name = some placed) (stored : placed.member.kind = .field)
      (further : Leads catalog label placed.type steps result) :
      Leads catalog label type (.member name :: steps) result
  | element {element result : SlotType} {index : Nat} {steps : List Step}
      (further : Leads catalog label element steps result) :
      Leads catalog label (.list element) (.element index :: steps) result

/-- No type of a registry declares a name that one of its ancestors declares. -/
def Catalog.NoneRedeclares (catalog : Catalog Rule) (accepted : List (Submission Rule))
    (label : String) : Prop :=
  ∀ name layout, catalog.layout? ⟨label, name⟩ = some layout →
    ∀ member, Submission.member? accepted ⟨label, name⟩ member ≠ none →
      ∀ ancestor ∈ layout.ancestors, Submission.member? accepted ⟨label, ancestor⟩ member = none

/-- What following steps of a static type from a value may come to: a value of this type, a missing
value in the middle of the way, or a position behind the end of a list. The heap stays as it is. -/
inductive SlotType.Answers [Accessors Rule] (catalog : Catalog Rule) (heap : Heap) (type : SlotType)
    (start : Value) (reachedBy? : Option Step) (steps : List Step) :
    EStateM.Result AccessError Heap Value → Prop
  | value {value : Value} (accepted : type.accepts catalog value = true) :
      Answers catalog heap type start reachedBy? steps (.ok value heap)
  | missing {before after : List Step} {reachedBy next : Step}
      (split : steps = before ++ reachedBy :: next :: after)
      (met : start.follow catalog (before ++ [reachedBy]) reachedBy? heap = .ok .null heap) :
      Answers catalog heap type start reachedBy? steps (.error (.nullIntermediate reachedBy) heap)
  | outOfRange {before after : List Step} {index : Nat} {list : Value} {elements : Sequence}
      (split : steps = before ++ .element index :: after)
      (met : start.follow catalog before reachedBy? heap = .ok list heap)
      (opened : heap.container? list = some (.sequence elements))
      (beyond : elements.items.length ≤ index) :
      Answers catalog heap type start reachedBy? steps
        (.error (.indexOutOfRange index elements.items.length) heap)

/-! ## Graphs of one registry -/

/-- All structs in a value are of types of one registry. -/
def Value.DrawnFrom (label : String) (value : Value) : Prop :=
  ∀ indices type fields, value.part? indices = some (.struct type fields) → type.registry = label

def Container.DrawnFrom (label : String) : Container → Prop
  | composite owner => owner.toValue.DrawnFrom label
  | sequence elements => ∀ item ∈ elements.items, item.DrawnFrom label

/-- All composites of a heap, objects and structs in slots and elements, are of types of one
registry. -/
def Heap.DrawnFrom (label : String) (heap : Heap) : Prop :=
  ∀ (cell : Nat) (container : Container),
    heap.cells[cell]? = some container → container.DrawnFrom label

/-- A well-typed value of a graph of one registry, in a place that holds values of this type. -/
structure Value.Fills (catalog : Catalog Rule) (heap : Heap) (label : String) (type : SlotType)
    (value : Value) : Prop where
  accepted : type.accepts catalog value = true
  typed : value.WellTyped catalog heap
  drawn : value.DrawnFrom label

section Drawn

variable {label : String}

theorem Value.drawnFrom_struct_iff {type : TypeId} {fields : List Value} :
    (struct type fields).DrawnFrom label ↔
      type.registry = label ∧ ∀ field ∈ fields, field.DrawnFrom label := by
  constructor
  · intro drawn
    refine ⟨drawn [] type fields rfl, fun field present indices innerType innerFields found => ?_⟩
    obtain ⟨index, held⟩ := List.mem_iff_getElem?.mp present
    refine drawn (index :: indices) innerType innerFields ?_
    rw [part?_cons, Value.fields, held]
    exact found
  · rintro ⟨here, inside⟩ indices innerType innerFields found
    cases indices with
    | nil =>
        cases found
        exact here
    | cons index indices =>
        obtain ⟨field, held, found⟩ := Option.bind_eq_some_iff.mp found
        exact inside field (List.mem_of_getElem? held) indices innerType innerFields found

theorem Value.drawnFrom_of_noStruct
    {value : Value} (noStruct : ∀ type fields, value ≠ .struct type fields) :
    value.DrawnFrom label := by
  have fieldless : value.fields = [] := by
    cases value with
    | struct type fields => exact absurd rfl (noStruct type fields)
    | _ => rfl
  intro indices type fields found
  cases indices with
  | nil => exact absurd (Option.some.inj found) (noStruct type fields)
  | cons index indices => simp [part?_cons, fieldless] at found

theorem Container.DrawnFrom.slot
    {container : Container} (drawn : container.DrawnFrom label) (index : Nat) :
    (container.slot index).DrawnFrom label := by
  have inside : ∀ slot ∈ container.slots, slot.DrawnFrom label := by
    cases container with
    | composite owner => exact (Value.drawnFrom_struct_iff.mp drawn).2
    | sequence elements => exact drawn
  rw [Container.slot, List.getD_eq_getElem?_getD]
  cases held : container.slots[index]? with
  | none => exact Value.drawnFrom_of_noStruct nofun
  | some slot => exact inside slot (List.mem_of_getElem? held)

end Drawn

/-! ## What a derived type offers -/

/-- Where names are not declared again, a name that reaches a member in an ancestor reaches the same
member in every type that derives from it. -/
theorem Catalog.Records.member?_of_ancestor
    {catalog : Catalog Rule} {accepted : List (Submission Rule)}
    (records : catalog.Records accepted) {type : TypeId} {layout : Layout Rule}
    (registered : catalog.layout? type = some layout)
    (noneRedeclares : catalog.NoneRedeclares accepted type.registry) :
    ∀ ancestor ∈ layout.lineage, ∀ (known : Layout Rule) (name : String)
      (placed : PlacedMember Rule), catalog.layout? ⟨type.registry, ancestor⟩ = some known →
        known.member? name = some placed → layout.member? name = some placed := by
  revert noneRedeclares
  apply records.lineage_induction registered
  · intro type layout registered root _ ancestor present known name placed knownRegistered reached
    rw [records.lineage_eq registered, root, List.mem_singleton] at present
    subst present
    rw [registered, Option.some.injEq] at knownRegistered
    rwa [knownRegistered]
  · intro type layout baseName base registered baseRegistered inherited _ inBase noneRedeclares
      ancestor present known name placed knownRegistered reached
    rw [records.lineage_eq registered, inherited] at present
    rcases List.mem_cons.mp present with rfl | farther
    · rw [registered, Option.some.injEq] at knownRegistered
      rwa [knownRegistered]
    · have reachedInBase :=
        inBase noneRedeclares ancestor farther known name placed knownRegistered reached
      have along := records.member?_along_lineage baseRegistered name
      rw [reachedInBase] at along
      obtain ⟨nearer, rest, split, _, declares⟩ := along
      have undeclared : Submission.member? accepted type name = none := by
        by_contra declared
        have inAncestors : placed.declaredBy ∈ layout.ancestors := by
          rw [inherited, split]
          simp
        have absent := noneRedeclares type.name layout registered name declared placed.declaredBy
          inAncestors
        rw [absent] at declares
        cases declares
      rw [records.member?_eq_base registered baseRegistered inherited undeclared, reachedInBase]

/-! ## One step -/

section Steps

variable {catalog : Catalog Rule} {accepted : List (Submission Rule)} {heap : Heap}
  {label : String} {value : Value}

/-- A value in a place for instances is an instance, of the named type or of one that derives from
it, unless it is missing. -/
theorem Value.Fills.exists_owner
    {type : SlotType} {typeName : String} (records : catalog.Records accepted)
    (heapTyped : heap.WellTyped catalog) (heapDrawn : heap.DrawnFrom label)
    (fills : value.Fills catalog heap label type) (present : value ≠ .null)
    (named : type.instanceName? = some typeName) :
    ∃ owner layout, heap.container? value = some (.composite owner) ∧
      owner.type.registry = label ∧ owner.toValue.WellTyped catalog heap ∧
      owner.toValue.DrawnFrom label ∧ owner.FitsLayout catalog layout ∧
      typeName ∈ layout.lineage := by
  have accepted := fills.accepted
  cases type with
  | struct name =>
      cases named
      cases value with
      | struct found fields =>
          obtain rfl : found.name = typeName := by simpa [SlotType.accepts] using accepted
          have drawn := Value.drawnFrom_struct_iff.mp fills.drawn
          obtain ⟨⟨layout, fits⟩, _⟩ := Composite.wellTyped_toValue_iff.mp
            (show Composite.toValue ⟨found, fields⟩ |>.WellTyped catalog heap from fills.typed)
          refine ⟨⟨found, fields⟩, layout, rfl, drawn.1, fills.typed, fills.drawn, fits, ?_⟩
          rw [records.lineage_eq fits.registered]
          exact List.mem_cons_self
      | shared handle => cases handle <;> simp [SlotType.accepts] at accepted
      | _ => simp [SlotType.accepts] at accepted
  | object name =>
      cases named
      cases value with
      | null => exact absurd rfl present
      | shared handle =>
          cases handle with
          | list element cell => simp [SlotType.accepts] at accepted
          | object found cell =>
              cases fills.typed with
              | shared backed =>
                  obtain ⟨held, agrees⟩ := Heap.read_of_backs backed
                  have contentTyped := heapTyped _ _ held
                  have contentDrawn := heapDrawn _ _ held
                  cases content : heap.read (.object found cell) with
                  | sequence elements =>
                      rw [content] at agrees
                      cases agrees
                  | composite owner =>
                      rw [content] at agrees contentTyped contentDrawn
                      obtain rfl : owner.type = found := by
                        simpa [Container.handle, Handle.cell] using agrees
                      obtain ⟨⟨layout, fits⟩, _⟩ := Composite.wellTyped_toValue_iff.mp contentTyped
                      have drawn := Value.drawnFrom_struct_iff.mp contentDrawn
                      refine ⟨owner, layout, ?_, drawn.1, contentTyped, contentDrawn, fits, ?_⟩
                      · rw [Heap.container?, content]
                      · simpa [SlotType.accepts, Catalog.layout, fits.registered, Layout.isA]
                          using accepted
      | _ => simp [SlotType.accepts] at accepted
  | _ => cases named

/-- A value in a place for lists is a list with elements of the type, unless it is missing. -/
theorem Value.Fills.exists_elements
    {element : SlotType} (heapTyped : heap.WellTyped catalog) (heapDrawn : heap.DrawnFrom label)
    (fills : value.Fills catalog heap label (.list element)) (present : value ≠ .null) :
    ∃ elements, heap.container? value = some (.sequence elements) ∧ elements.element = element ∧
      (Container.sequence elements).WellTyped catalog heap ∧
      (Container.sequence elements).DrawnFrom label := by
  have accepted := fills.accepted
  cases value with
  | null => exact absurd rfl present
  | shared handle =>
      cases handle with
      | object found cell => simp [SlotType.accepts] at accepted
      | list found cell =>
          obtain rfl : found = element := by simpa [SlotType.accepts] using accepted
          cases fills.typed with
          | shared backed =>
              obtain ⟨held, agrees⟩ := Heap.read_of_backs backed
              have contentTyped := heapTyped _ _ held
              have contentDrawn := heapDrawn _ _ held
              cases content : heap.read (.list found cell) with
              | composite owner =>
                  rw [content] at agrees
                  cases agrees
              | sequence elements =>
                  rw [content] at agrees contentTyped contentDrawn
                  obtain rfl : elements.element = found := by
                    simpa [Container.handle, Handle.cell] using agrees
                  refine ⟨elements, ?_, rfl, contentTyped, contentDrawn⟩
                  rw [Heap.container?, content]
  | _ => simp [SlotType.accepts] at accepted

section Fetch

variable [Accessors Rule]

theorem Value.fetch_null (reachedBy next : Step) :
    Value.null.fetch catalog (some reachedBy) next heap =
      .error (.nullIntermediate reachedBy) heap := by
  rw [fetch_apply]
  rfl

/-- A field of a static type holds a value of this type. -/
theorem Value.Fills.fetch_field
    {type : SlotType} {typeName name : String} {layout : Layout Rule}
    {placed : PlacedMember Rule} (records : catalog.Records accepted)
    (noneRedeclares : catalog.NoneRedeclares accepted label)
    (heapTyped : heap.WellTyped catalog) (heapDrawn : heap.DrawnFrom label)
    (fills : value.Fills catalog heap label type) (present : value ≠ .null)
    (named : type.instanceName? = some typeName)
    (registered : catalog.layout? ⟨label, typeName⟩ = some layout)
    (reached : layout.member? name = some placed) (stored : placed.member.kind = .field)
    (reachedBy? : Option Step) :
    ∃ inner, value.fetch catalog reachedBy? (.member name) heap = .ok ⟨inner, .stored⟩ heap ∧
      inner.Fills catalog heap label placed.type := by
  obtain ⟨owner, ownLayout, opened, rfl, ownerTyped, ownerDrawn, fits, derives⟩ :=
    fills.exists_owner records heapTyped heapDrawn present named
  have offered : ownLayout.member? name = some placed :=
    records.member?_of_ancestor fits.registered noneRedeclares typeName derives layout name placed
      registered reached
  have selected : owner.select catalog (.member name) = .ok placed :=
    Layout.select_of_member? fits.registered offered
  have listed : placed ∈ ownLayout.members := by
    obtain ⟨position, _, found⟩ := Option.bind_eq_some_iff.mp offered
    exact List.mem_of_getElem? found
  refine ⟨owner.slot placed.offset, ?_, ?_⟩
  · rw [Value.fetch_apply, heap.openValue_of_container? opened]
    simp only [Container.fetch, Composite.fetch_apply, selected, stored]
  · exact
      { accepted := fits.accepted placed listed placed.offset
          (PlacedMember.stored?_eq_some_iff.mpr ⟨stored, rfl⟩)
        typed := Composite.wellTyped_slot ownerTyped placed.offset
        drawn := Container.DrawnFrom.slot
          (show (Container.composite owner).DrawnFrom owner.type.registry from ownerDrawn) _ }

/-- An element of a list holds a value of the declared type, and a position behind the last element
is out of range. -/
theorem Value.Fills.fetch_element
    {element : SlotType} (heapTyped : heap.WellTyped catalog) (heapDrawn : heap.DrawnFrom label)
    (fills : value.Fills catalog heap label (.list element)) (present : value ≠ .null)
    (index : Nat) (reachedBy? : Option Step) :
    (∃ inner, value.fetch catalog reachedBy? (.element index) heap = .ok ⟨inner, .stored⟩ heap ∧
      inner.Fills catalog heap label element) ∨
      ∃ elements : Sequence, heap.container? value = some (.sequence elements) ∧
        elements.items.length ≤ index ∧
        value.fetch catalog reachedBy? (.element index) heap =
          .error (.indexOutOfRange index elements.items.length) heap := by
  obtain ⟨elements, opened, rfl, elementsTyped, elementsDrawn⟩ :=
    fills.exists_elements heapTyped heapDrawn present
  rw [Value.fetch_apply, heap.openValue_of_container? opened]
  simp only [Sequence.fetch_apply, Sequence.select]
  by_cases inside : index < elements.items.length
  · left
    rw [if_pos inside]
    refine ⟨elements.slot index, rfl, ?_⟩
    have held : elements.slot index ∈ elements.items := by
      rw [Sequence.slot, List.getD_eq_getElem _ _ inside]
      exact List.getElem_mem inside
    exact
      { accepted := (elementsTyped _ held).1
        typed := (elementsTyped _ held).2
        drawn := elementsDrawn.slot index }
  · right
    rw [if_neg inside]
    exact ⟨elements, opened, Nat.le_of_not_lt inside, rfl⟩

/-! ## Whole paths -/

/-- What following the rest of the steps comes to, seen from one step before. -/
theorem SlotType.Answers.cons
    {type : SlotType} {inner : Value} {origin : Origin} {reachedBy? : Option Step} {step : Step}
    {steps : List Step} {outcome : EStateM.Result AccessError Heap Value}
    (fetched : value.fetch catalog reachedBy? step heap = .ok ⟨inner, origin⟩ heap)
    (answers : type.Answers catalog heap inner (some step) steps outcome) :
    type.Answers catalog heap value reachedBy? (step :: steps) outcome := by
  have onward : ∀ further, value.follow catalog (step :: further) reachedBy? heap =
      inner.follow catalog further (some step) heap := by
    intro further
    rw [Value.follow_cons_apply, fetched]
  cases answers with
  | value accepted => exact .value accepted
  | @missing before after _ next split met =>
      have splitAll : step :: steps = (step :: before) ++ _ := congrArg (List.cons step) split
      refine .missing splitAll ?_
      rw [List.cons_append, onward, met]
  | @outOfRange before after index list elements split met opened beyond =>
      have splitAll : step :: steps = (step :: before) ++ _ := congrArg (List.cons step) split
      refine .outOfRange splitAll ?_ opened beyond
      rw [onward, met]

/-- After a step to a value of a static type, either this value is missing or the rest of the steps
decides. -/
theorem Value.Fills.answers_of_fetch
    {type result : SlotType} {inner : Value} {reachedBy? : Option Step} {step : Step}
    {steps : List Step}
    (fetched : value.fetch catalog reachedBy? step heap = .ok ⟨inner, .stored⟩ heap)
    (fills : inner.Fills catalog heap label type) (leads : type.Leads catalog label steps result)
    (rest : inner ≠ .null → result.Answers catalog heap inner (some step) steps
      (inner.follow catalog steps (some step) heap)) :
    result.Answers catalog heap value reachedBy? (step :: steps)
      (value.follow catalog (step :: steps) reachedBy? heap) := by
  rw [Value.follow_cons_apply, fetched]
  by_cases missing : inner = .null
  · subst missing
    cases steps with
    | nil =>
        cases leads
        exact .value fills.accepted
    | cons next after =>
        simp only [Value.follow_cons_apply, Value.fetch_null]
        refine .missing (List.nil_append _).symm ?_
        rw [List.nil_append, Value.follow_cons_apply, fetched]
        rfl
  · exact (rest missing).cons fetched

/-- Along steps of a static type every value is of its type, and the steps never get lost. -/
theorem Value.Fills.answers_follow
    {type result : SlotType} {steps : List Step} (records : catalog.Records accepted)
    (noneRedeclares : catalog.NoneRedeclares accepted label)
    (heapTyped : heap.WellTyped catalog) (heapDrawn : heap.DrawnFrom label)
    (leads : type.Leads catalog label steps result)
    (fills : value.Fills catalog heap label type) (present : value ≠ .null)
    (reachedBy? : Option Step) :
    result.Answers catalog heap value reachedBy? steps
      (value.follow catalog steps reachedBy? heap) := by
  induction leads generalizing value reachedBy? with
  | here type => exact .value fills.accepted
  | field named registered reached stored further inductionHypothesis =>
      obtain ⟨inner, fetched, innerFills⟩ := fills.fetch_field records noneRedeclares heapTyped
        heapDrawn present named registered reached stored reachedBy?
      exact Fills.answers_of_fetch fetched innerFills further fun innerPresent =>
        inductionHypothesis innerFills innerPresent _
  | element further inductionHypothesis =>
      rcases fills.fetch_element heapTyped heapDrawn present _ reachedBy? with
        ⟨inner, fetched, innerFills⟩ | ⟨elements, opened, beyond, failed⟩
      · exact Fills.answers_of_fetch fetched innerFills further fun innerPresent =>
          inductionHypothesis innerFills innerPresent _
      · rw [Value.follow_cons_apply, failed]
        exact .outOfRange (List.nil_append _).symm rfl opened beyond

/-- In a graph of one registry without names that are declared again, a path of a static type reads
a value of this type, or it meets a missing value or a position out of range. The root is any value
of the type at which the path starts: an instance of a struct or object type, or of one that derives
from it. -/
theorem Value.answers_get
    {root : Value} {type result : SlotType} {text : String} {path : Path}
    (records : catalog.Records accepted)
    (noneRedeclares : catalog.NoneRedeclares accepted label)
    (heapTyped : heap.WellTyped catalog) (heapDrawn : heap.DrawnFrom label)
    (fills : root.Fills catalog heap label type) (present : root ≠ .null)
    (parsed : Path.parse text = .ok path) (leads : type.Leads catalog label path.steps result) :
    result.Answers catalog heap root none path.steps (root.get catalog text heap) := by
  simp only [Value.get_of_parse parsed]
  exact fills.answers_follow records noneRedeclares heapTyped heapDrawn leads present none

end Fetch

end Steps

/-! ## A kit that is a part of itself -/

namespace Kit

def part : TypeDecl PropertyRule where
  name := "Part"
  semantics := .reference
  base? := none
  members := [⟨"id", .int, .field, .everyone, none⟩]

def kit : TypeDecl PropertyRule where
  name := "Kit"
  semantics := .reference
  base? := some "Part"
  members := [⟨"parts", .list (.object "Part"), .field, .everyone, none⟩]

def accepted : List (Submission PropertyRule) :=
  [⟨"main", kit⟩, ⟨"main", part⟩]

def partCatalog : Catalog PropertyRule :=
  (Catalog.empty.register "main" part).catalog

def catalog : Catalog PropertyRule :=
  (partCatalog.register "main" kit).catalog

def root : Value :=
  .shared (.object ⟨"main", "Kit"⟩ 0)

def whole : Composite :=
  ⟨⟨"main", "Kit"⟩, [.int 7, .shared (.list (.object "Part") 1)]⟩

def heap : Heap :=
  ⟨#[.composite whole, .sequence ⟨.object "Part", [root]⟩]⟩

theorem records : catalog.Records accepted :=
  .accepted (.accepted .empty rfl) rfl

theorem layout?_eq
    {name : String} {layout : Layout PropertyRule}
    (registered : catalog.layout? ⟨"main", name⟩ = some layout) :
    name = "Part" ∧ layout.ancestors = [] ∨ name = "Kit" ∧ layout.ancestors = ["Part"] := by
  have latest : catalog = partCatalog.addLayout "main" (catalog.layout ⟨"main", "Kit"⟩) := rfl
  have first : partCatalog =
      Catalog.empty.addLayout "main" (partCatalog.layout ⟨"main", "Part"⟩) := rfl
  rw [latest, Catalog.layout?_addLayout] at registered
  split at registered
  next isKit =>
    cases registered
    obtain rfl : name = "Kit" := congrArg TypeId.name isKit
    exact .inr ⟨rfl, rfl⟩
  next =>
    rw [first, Catalog.layout?_addLayout] at registered
    split at registered
    next isPart =>
      cases registered
      obtain rfl : name = "Part" := congrArg TypeId.name isPart
      exact .inl ⟨rfl, rfl⟩
    next => cases registered

theorem noneRedeclares : catalog.NoneRedeclares accepted "main" := by
  intro name layout registered member declared ancestor inAncestors
  rcases layout?_eq registered with ⟨rfl, ancestors⟩ | ⟨rfl, ancestors⟩
  · rw [ancestors] at inAncestors
    cases inAncestors
  · rw [ancestors, List.mem_singleton] at inAncestors
    subst inAncestors
    have own : member = "parts" := by
      by_contra other
      exact declared (by simp [Submission.member?, Submission.declaration?, accepted, kit,
        Submission.type, TypeDecl.member?, Ne.symm other])
    subst own
    rfl

theorem fits_whole : whole.Fits catalog := by
  refine ⟨catalog.layout ⟨"main", "Kit"⟩, rfl, rfl, ?_, ?_⟩
  all_goals
    intro placed present index stored
    have members : (catalog.layout ⟨"main", "Kit"⟩).members =
        [⟨⟨"id", .int, .field, .everyone, none⟩, "Part", 0⟩,
          ⟨⟨"parts", .list (.object "Part"), .field, .everyone, none⟩, "Kit", 1⟩] :=
      rfl
    rw [members] at present
    simp only [List.mem_cons, List.not_mem_nil, or_false] at present
    rcases present with rfl | rfl <;> cases stored
  · decide
  · decide
  · rfl
  · rfl

theorem backs_root : heap.Backs (.object ⟨"main", "Kit"⟩ 0) :=
  ⟨_, rfl, rfl⟩

theorem wellTyped_heap : heap.WellTyped catalog := by
  intro cell container held
  match cell with
  | 0 =>
      cases held
      refine Composite.wellTyped_toValue_iff.mpr ⟨fits_whole, fun field present => ?_⟩
      simp only [whole, List.mem_cons, List.not_mem_nil, or_false] at present
      rcases present with rfl | rfl
      · exact .int 7
      · exact .shared ⟨_, rfl, rfl⟩
  | 1 =>
      cases held
      intro item present
      obtain rfl := List.mem_singleton.mp present
      exact ⟨rfl, .shared backs_root⟩
  | cell + 2 => simp [heap] at held

theorem drawnFrom_heap : heap.DrawnFrom "main" := by
  intro cell container held
  match cell with
  | 0 =>
      cases held
      refine Value.drawnFrom_struct_iff.mpr ⟨rfl, fun field present => ?_⟩
      simp only [whole, List.mem_cons, List.not_mem_nil, or_false] at present
      rcases present with rfl | rfl <;> exact Value.drawnFrom_of_noStruct nofun
  | 1 =>
      cases held
      intro item present
      obtain rfl := List.mem_singleton.mp present
      exact Value.drawnFrom_of_noStruct nofun
  | cell + 2 => simp [heap] at held

theorem root_ne_null : root ≠ .null := by
  rintro ⟨⟩

theorem fills_root : root.Fills catalog heap "main" (.object "Kit") where
  accepted := rfl
  typed := .shared backs_root
  drawn := Value.drawnFrom_of_noStruct nofun

/-- The type of parts declares the number, and the kit has it as a part that is a kit. -/
theorem leads_id :
    SlotType.Leads catalog "main" (.object "Kit") [.member "parts", .element 0, .member "id"]
      .int :=
  .field rfl rfl rfl rfl (.element (.field rfl rfl rfl rfl (.here .int)))

end Kit

/-- The number of the first part of the kit is that of the kit. Beyond its one part the answer is
another one. -/
theorem Value.answers_get_kit :
    Kit.catalog.Records Kit.accepted ∧ Kit.catalog.NoneRedeclares Kit.accepted "main" ∧
      Kit.heap.WellTyped Kit.catalog ∧ Kit.heap.DrawnFrom "main" ∧
      Kit.root.Fills Kit.catalog Kit.heap "main" (.object "Kit") ∧
      SlotType.int.Answers Kit.catalog Kit.heap Kit.root none
        [.member "parts", .element 0, .member "id"]
        (Kit.root.get Kit.catalog "parts.Array.data[0].id" Kit.heap) ∧
      Kit.root.get Kit.catalog "parts.Array.data[0].id" Kit.heap = .ok (.int 7) Kit.heap ∧
      Kit.root.get Kit.catalog "parts.Array.data[1].id" Kit.heap =
        .error (.indexOutOfRange 1 1) Kit.heap := by
  have parsed : Path.parse "parts.Array.data[0].id" =
      .ok ⟨[.member "parts", .element 0, .member "id"], by simp⟩ := by
    decide +kernel
  have otherParsed : Path.parse "parts.Array.data[1].id" =
      .ok ⟨[.member "parts", .element 1, .member "id"], by simp⟩ := by
    decide +kernel
  refine ⟨Kit.records, Kit.noneRedeclares, Kit.wellTyped_heap, Kit.drawnFrom_heap,
    Kit.fills_root, ?_, ?_, ?_⟩
  · exact answers_get Kit.records Kit.noneRedeclares Kit.wellTyped_heap Kit.drawnFrom_heap
      Kit.fills_root Kit.root_ne_null parsed Kit.leads_id
  · rw [get_of_parse parsed]
    rfl
  · rw [get_of_parse otherParsed]
    rfl

end ObjectGraph
