import ObjectGraph.Proofs.Access
import ObjectGraph.Proofs.Lists
import ObjectGraph.Proofs.TypedRegistration
import ObjectGraph.PropertyRule
import ObjectGraph.Tree

/-!
# Visibility

The visibility of a member is recorded and never consulted. Two catalogs that differ only in
recorded visibilities cannot be told apart by accepting values, by making instances, by reading and
writing along paths, by finding locations, by unfolding values into trees and by registering types.
Computed members are free in what they do, so they are assumed to take no notice of visibility
either.
-/

namespace ObjectGraph

variable {Rule : Type}

/-! ## Forgetting visibility -/

/-- The same member, visible for everyone. -/
def Member.exposed (member : Member Rule) : Member Rule :=
  { member with visibility := .everyone }

def TypeDecl.exposed (declaration : TypeDecl Rule) : TypeDecl Rule :=
  { declaration with members := declaration.members.map Member.exposed }

def PlacedMember.exposed (placed : PlacedMember Rule) : PlacedMember Rule :=
  { placed with member := placed.member.exposed }

def Layout.exposed (layout : Layout Rule) : Layout Rule :=
  { layout with members := layout.members.map PlacedMember.exposed }

def Draft.exposed (draft : Draft Rule) : Draft Rule :=
  { draft with layout := draft.layout.exposed }

/-- The declarations differ in the visibility of members at most. -/
def TypeDecl.SameButVisibility (first second : TypeDecl Rule) : Prop :=
  first.exposed = second.exposed

/-- The same types are registered, and their layouts differ in the visibility of members at most. -/
def Catalog.SameButVisibility (first second : Catalog Rule) : Prop :=
  ∀ type, (first.layout? type).map Layout.exposed = (second.layout? type).map Layout.exposed

theorem TypeDecl.SameButVisibility.refl (declaration : TypeDecl Rule) :
    declaration.SameButVisibility declaration :=
  rfl

theorem PlacedMember.exists_visibility
    {first second : PlacedMember Rule} (same : first.exposed = second.exposed) :
    ∃ visibility,
      second = { first with member := { first.member with visibility := visibility } } := by
  obtain ⟨⟨name, type, kind, visibility, initial?⟩, declaredBy, offset⟩ := second
  obtain ⟨⟨_, _, _, _, _⟩, _, _⟩ := first
  cases same
  exact ⟨visibility, rfl⟩

theorem Member.name_exposed (member : Member Rule) : member.exposed.name = member.name :=
  rfl

namespace Layout

theorem semantics_exposed (layout : Layout Rule) : layout.exposed.semantics = layout.semantics :=
  rfl

theorem defaults_exposed (layout : Layout Rule) : layout.exposed.defaults = layout.defaults :=
  rfl

theorem isA_exposed (layout : Layout Rule) (name : String) :
    layout.exposed.isA name = layout.isA name :=
  rfl

theorem exposed_eq_iff
    {layout other : Layout Rule} :
    layout.exposed = other.exposed ↔
      layout.name = other.name ∧ layout.semantics = other.semantics ∧
        layout.ancestors = other.ancestors ∧
        layout.members.map PlacedMember.exposed = other.members.map PlacedMember.exposed ∧
        layout.index = other.index ∧ layout.defaults = other.defaults := by
  rw [exposed, exposed, Layout.mk.injEq]

theorem member?_exposed (layout : Layout Rule) (name : String) :
    layout.exposed.member? name = (layout.member? name).map PlacedMember.exposed := by
  simp only [member?, exposed, List.getElem?_map]
  cases layout.index.get? name <;> rfl

theorem slot?_exposed (layout : Layout Rule) (name : String) :
    layout.exposed.slot? name = layout.slot? name := by
  rw [slot?, slot?, member?_exposed]
  cases layout.member? name <;> rfl

theorem visible_exposed (layout : Layout Rule) :
    layout.exposed.visible = layout.visible.map PlacedMember.exposed := by
  simp only [visible, exposed, List.zipIdx_map, List.filter_map, List.map_map]
  rfl

theorem addMember_exposed (layout : Layout Rule) (member : Member Rule) (defaults : List Value) :
    (layout.addMember member defaults).exposed =
      layout.exposed.addMember member.exposed defaults := by
  simp [addMember, exposed, Member.exposed, PlacedMember.exposed]

end Layout

/-! ## What layouts are used for -/

namespace Catalog.SameButVisibility

variable {first second : Catalog Rule}

theorem refl (catalog : Catalog Rule) : catalog.SameButVisibility catalog :=
  fun _ => rfl

theorem layout?_cases (same : first.SameButVisibility second) (type : TypeId) :
    (first.layout? type = none ∧ second.layout? type = none) ∨
      ∃ layout other, first.layout? type = some layout ∧ second.layout? type = some other ∧
        layout.exposed = other.exposed :=
  cases_of_map_eq (same type)

theorem layout_exposed (same : first.SameButVisibility second) (type : TypeId) :
    (first.layout type).exposed = (second.layout type).exposed := by
  rcases same.layout?_cases type with
    ⟨unknown, alsoUnknown⟩ | ⟨layout, other, known, alsoKnown, sameExposed⟩
  · rw [layout, layout, unknown, alsoUnknown]
  · rw [Catalog.layout, Catalog.layout, known, alsoKnown]
    exact sameExposed

theorem accepts_eq (same : first.SameButVisibility second) (type : SlotType) (value : Value) :
    type.accepts first value = type.accepts second value := by
  cases value with
  | shared handle =>
      cases handle with
      | list element cell => cases type <;> rfl
      | object found cell =>
          cases type with
          | object name =>
              rw [SlotType.accepts, SlotType.accepts, ← Layout.isA_exposed, same.layout_exposed,
                Layout.isA_exposed]
          | _ => rfl
  | _ => cases type <;> rfl

theorem slot?_eq (same : first.SameButVisibility second) (type : TypeId) (name : String) :
    (first.layout type).slot? name = (second.layout type).slot? name := by
  rw [← Layout.slot?_exposed, same.layout_exposed, Layout.slot?_exposed]

theorem field?_eq (same : first.SameButVisibility second) (owner : Composite) (name : String) :
    owner.field? first name = owner.field? second name := by
  rw [Composite.field?, Composite.field?, same.slot?_eq]

theorem setField?_eq
    (same : first.SameButVisibility second) (owner : Composite) (name : String) (value : Value) :
    owner.setField? first name value = owner.setField? second name value := by
  rw [Composite.setField?, Composite.setField?, same.slot?_eq]

theorem namedFields_eq (same : first.SameButVisibility second) (owner : Composite) :
    owner.namedFields first = owner.namedFields second := by
  have ofExposed : ∀ (catalog : Catalog Rule),
      owner.namedFields catalog =
        (catalog.layout owner.type).exposed.visible.filterMap (fun placed => do
          let index ← placed.stored?
          let value ← owner.fields[index]?
          some (placed.name, value)) := by
    intro catalog
    rw [Layout.visible_exposed, List.filterMap_map]
    rfl
  rw [ofExposed, ofExposed, same.layout_exposed]

theorem instantiate_eq (same : first.SameButVisibility second) (type : TypeId) (heap : Heap) :
    first.instantiate type heap = second.instantiate type heap := by
  have sameDefaults : (first.layout type).defaults = (second.layout type).defaults := by
    rw [← Layout.defaults_exposed, same.layout_exposed, Layout.defaults_exposed]
  have sameSemantics : (first.layout type).semantics = (second.layout type).semantics := by
    rw [← Layout.semantics_exposed, same.layout_exposed, Layout.semantics_exposed]
  simp only [instantiate, sameDefaults, sameSemantics]

theorem instantiate?_eq (same : first.SameButVisibility second) (type : TypeId) (heap : Heap) :
    first.instantiate? type heap = second.instantiate? type heap := by
  rw [instantiate?, instantiate?, same.instantiate_eq]
  rcases same.layout?_cases type with
    ⟨unknown, alsoUnknown⟩ | ⟨layout, other, known, alsoKnown, _⟩
  · rw [unknown, alsoUnknown]
  · rw [known, alsoKnown]

theorem newList_eq
    (same : first.SameButVisibility second) (heap : Heap) (element : SlotType)
    (items : List Value) :
    heap.newList first element items = heap.newList second element items := by
  simp only [Heap.newList, same.accepts_eq]

theorem push_eq
    (same : first.SameButVisibility second) (heap : Heap) (handle : Handle) (value : Value) :
    heap.push first handle value = heap.push second handle value := by
  simp only [Heap.push, same.accepts_eq]

theorem unfold_eq
    (same : first.SameButVisibility second) (heap : Heap) (depth : Nat) (value : Value) :
    value.unfold first heap depth = value.unfold second heap depth := by
  induction depth generalizing value with
  | zero => cases value <;> rfl
  | succ depth inductionHypothesis =>
      have sameInner : Value.unfold first heap depth = Value.unfold second heap depth :=
        funext inductionHypothesis
      have sameContainer : ∀ container : Container,
          container.unfoldWith first (Value.unfold first heap depth) =
            container.unfoldWith second (Value.unfold second heap depth) := by
        intro container
        rw [sameInner]
        cases container with
        | composite owner => rw [Container.unfoldWith, Container.unfoldWith, same.namedFields_eq]
        | sequence elements => rfl
      cases value with
      | struct type fields => exact sameContainer _
      | shared handle => exact sameContainer _
      | _ => rfl

theorem tree_eq (same : first.SameButVisibility second) (heap : Heap) (value : Value) :
    value.tree first heap = value.tree second heap :=
  same.unfold_eq heap Tree.maxDepth value

end Catalog.SameButVisibility

/-! ## One step on one container -/

/-- An assumption on computed members: readers and writers do not ask for the visibility of members,
so that they do the same with layouts that differ in nothing else. -/
structure Accessors.Blind (Rule : Type) [Accessors Rule] : Prop where
  read (rule : Rule) {first second : Catalog Rule} (same : first.SameButVisibility second) :
    Accessors.read rule first = Accessors.read rule second
  write (rule : Rule) {run : Catalog Rule → Composite → Value → Heap → Composite × Heap}
    (writer : Accessors.write? rule = some run) {first second : Catalog Rule}
    (same : first.SameButVisibility second) :
    run first = run second

/-- A write to a member that a step selects, whatever its visibility. -/
theorem Composite.put_of_select
    [Accessors Rule] {catalog : Catalog Rule} {owner : Composite} {step : Step}
    {member : Member Rule} {declaredBy : String} {offset : Nat}
    (selected : owner.select catalog step = .ok ⟨member, declaredBy, offset⟩) (value : Value)
    (heap : Heap) :
    owner.put catalog step value heap =
      match member.type.accepts catalog value with
      | false => .error (.typeMismatch member.type value.typeName) heap
      | true =>
          match member.kind with
          | .field => .ok (owner.setSlot offset value) heap
          | .property rule =>
              match Accessors.write? rule with
              | none => .error (.readOnlyMember owner.type.name member.name) heap
              | some write =>
                  .ok (write catalog owner value heap).1 (write catalog owner value heap).2 := by
  simp only [put, selected, Access.bind_apply, Access.lift_apply]
  change (if member.type.accepts catalog value then (_ : Access Composite) else _) heap = _
  cases member.type.accepts catalog value with
  | false => rfl
  | true =>
      cases member.kind with
      | field => rfl
      | property rule =>
          simp only [if_true]
          cases Accessors.write? rule <;> rfl

namespace Catalog.SameButVisibility

variable {first second : Catalog Rule}

/-- A step fails in the same way in both catalogs, or it selects members that differ in visibility
at most. -/
theorem select_cases
    (same : first.SameButVisibility second) (owner : Composite) (step : Step) :
    (∃ error, owner.select first step = .error error ∧ owner.select second step = .error error) ∨
      ∃ (member : Member Rule) (visibility : Visibility) (declaredBy : String) (offset : Nat),
        owner.select first step = .ok ⟨member, declaredBy, offset⟩ ∧
          owner.select second step =
            .ok ⟨{ member with visibility := visibility }, declaredBy, offset⟩ := by
  cases step with
  | element index => exact .inl ⟨_, rfl, rfl⟩
  | member name =>
      have sameMember : ((first.layout owner.type).member? name).map PlacedMember.exposed =
          ((second.layout owner.type).member? name).map PlacedMember.exposed := by
        rw [← Layout.member?_exposed, same.layout_exposed, Layout.member?_exposed]
      simp only [Composite.select]
      rcases cases_of_map_eq sameMember with
        ⟨unknown, alsoUnknown⟩ | ⟨placed, other, reached, alsoReached, sameExposed⟩
      · rw [unknown, alsoUnknown]
        exact .inl ⟨_, rfl, rfl⟩
      · obtain ⟨visibility, rfl⟩ := PlacedMember.exists_visibility sameExposed
        rw [reached, alsoReached]
        exact .inr ⟨placed.member, visibility, placed.declaredBy, placed.offset, rfl, rfl⟩

theorem probe_eq
    (same : first.SameButVisibility second) (container : Container) (step : Step) :
    container.probe first step = container.probe second step := by
  cases container with
  | sequence elements => rfl
  | composite owner =>
      rw [Container.probe, Container.probe, Composite.probe, Composite.probe]
      rcases same.select_cases owner step with
        ⟨error, failed, alsoFailed⟩ | ⟨member, visibility, _, _, selected, alsoSelected⟩
      · rw [failed, alsoFailed]
      · rw [selected, alsoSelected]
        rfl

theorem storage_eq (same : first.SameButVisibility second) (owner : Composite) (step : Step) :
    owner.storage first step = owner.storage second step := by
  rcases same.select_cases owner step with
    ⟨error, failed, alsoFailed⟩ | ⟨member, visibility, _, _, selected, alsoSelected⟩
  · rw [Composite.storage, Composite.storage, failed, alsoFailed]
  · rw [Composite.storage, Composite.storage, selected, alsoSelected]
    rfl

section Steps

variable [Accessors Rule]

theorem fetch_eq
    (blind : Accessors.Blind Rule) (same : first.SameButVisibility second)
    (container : Container) (step : Step) :
    container.fetch first step = container.fetch second step := by
  funext heap
  cases container with
  | sequence elements => rw [Sequence.fetch_apply, Sequence.fetch_apply]
  | composite owner =>
      rw [Container.fetch, Container.fetch, Composite.fetch_apply, Composite.fetch_apply]
      rcases same.select_cases owner step with
        ⟨error, failed, alsoFailed⟩ | ⟨member, visibility, _, _, selected, alsoSelected⟩
      · rw [failed, alsoFailed]
      · rw [selected, alsoSelected]
        cases kind : member.kind with
        | field => simp only [kind]
        | property rule => simp only [kind, blind.read rule same]

theorem put_eq
    (blind : Accessors.Blind Rule) (same : first.SameButVisibility second)
    (owner : Composite) (step : Step) (value : Value) :
    owner.put first step value = owner.put second step value := by
  rcases same.select_cases owner step with
    ⟨error, failed, alsoFailed⟩ | ⟨member, visibility, _, _, selected, alsoSelected⟩
  · rw [Composite.put, Composite.put, failed, alsoFailed]
    rfl
  · funext heap
    rw [Composite.put_of_select selected, Composite.put_of_select alsoSelected]
    simp only [same.accepts_eq]
    cases member.type.accepts second value with
    | false => rfl
    | true =>
        cases member.kind with
        | field => rfl
        | property rule =>
            cases writer : Accessors.write? rule with
            | none => simp only [writer]
            | some write => simp only [writer, blind.write rule writer same]

theorem putAt_eq
    (blind : Accessors.Blind Rule) (same : first.SameButVisibility second)
    (terminal : Step) (value : Value) (hops : List Step) (container : Container) :
    container.putAt first terminal value hops = container.putAt second terminal value hops := by
  have inComposite : ∀ (hops : List Step) (owner : Composite),
      owner.putAt first terminal value hops = owner.putAt second terminal value hops := by
    intro hops
    induction hops with
    | nil => exact fun owner => put_eq blind same owner terminal value
    | cons hop hops inductionHypothesis =>
        intro owner
        simp only [Composite.putAt, same.storage_eq, inductionHypothesis]
  cases container with
  | composite owner => rw [Container.putAt, Container.putAt, inComposite]
  | sequence elements =>
      rw [Container.putAt, Container.putAt]
      cases hops with
      | nil => simp only [Sequence.putAt, Sequence.put, same.accepts_eq]
      | cons hop hops => simp only [Sequence.putAt, inComposite]

/-! ## Paths -/

theorem read_eq
    (blind : Accessors.Blind Rule) (same : first.SameButVisibility second) (root : Value)
    (path : Path) :
    root.read first path = root.read second path := by
  have alongSteps : ∀ (steps : List Step) (reachedBy? : Option Step) (value : Value),
      value.follow first steps reachedBy? = value.follow second steps reachedBy? := by
    intro steps
    induction steps with
    | nil => exact fun reachedBy? value => rfl
    | cons step steps inductionHypothesis =>
        intro reachedBy? value
        simp only [Value.follow, Value.fetch, fetch_eq blind same, inductionHypothesis]
  exact alongSteps path.steps none root

theorem locate_eq
    (blind : Accessors.Blind Rule) (same : first.SameButVisibility second) (root : Value)
    (path : Path) :
    root.locate first path = root.locate second path := by
  have alongSteps : ∀ (steps : List Step) (walk : Walk),
      walk.advanceAll first steps = walk.advanceAll second steps := by
    intro steps
    induction steps with
    | nil => exact fun walk => rfl
    | cons step steps inductionHypothesis =>
        intro walk
        simp only [Walk.advanceAll, Walk.advance, Value.fetch, fetch_eq blind same,
          inductionHypothesis]
  simp only [Value.locate, alongSteps, Walk.finish, same.probe_eq]

theorem write_eq
    (blind : Accessors.Blind Rule) (same : first.SameButVisibility second) (location : Location)
    (value : Value) :
    location.write first value = location.write second value := by
  simp only [Location.write, putAt_eq blind same]

theorem get_eq
    (blind : Accessors.Blind Rule) (same : first.SameButVisibility second) (root : Value)
    (text : String) :
    root.get first text = root.get second text := by
  simp only [Value.get, read_eq blind same]

theorem set_eq
    (blind : Accessors.Blind Rule) (same : first.SameButVisibility second) (root : Value)
    (text : String) (value : Value) :
    root.set first text value = root.set second text value := by
  simp only [Value.set, locate_eq blind same, write_eq blind same]

end Steps

end Catalog.SameButVisibility

/-! ## Registration -/

namespace Draft

variable {catalog : Catalog Rule} {label : String}

/-- A member is taken in the same way whatever its visibility and those of the members before it. -/
theorem addMember_exposed (draft : Draft Rule) (member : Member Rule) :
    draft.exposed.addMember catalog label member.exposed =
      (draft.addMember catalog label member).map Draft.exposed := by
  simp only [addMember, bind, Except.bind, pure, Except.pure]
  by_cases twice : draft.declared.contains member.name
  · have twiceExposed : draft.exposed.declared.contains member.exposed.name := twice
    rw [if_pos twice, if_pos twiceExposed]
    rfl
  · have onceExposed : ¬ draft.exposed.declared.contains member.exposed.name := twice
    rw [if_neg twice, if_neg onceExposed]
    have sameDefaults :
        addedDefaults catalog label draft.exposed.layout.name member.exposed =
          addedDefaults catalog label draft.layout.name member :=
      rfl
    rw [sameDefaults]
    cases addedDefaults catalog label draft.layout.name member with
    | error error => rfl
    | ok defaults =>
        simp only [Except.map, Draft.exposed, Layout.addMember_exposed, Layout.member?_exposed,
          Member.name_exposed]
        cases draft.layout.member? member.name <;> rfl

theorem addMembers_exposed (draft : Draft Rule) (members : List (Member Rule)) :
    draft.exposed.addMembers catalog label (members.map Member.exposed) =
      (draft.addMembers catalog label members).map Draft.exposed id := by
  induction members generalizing draft with
  | nil => rfl
  | cons member members inductionHypothesis =>
      rw [List.map_cons, addMembers, addMembers, addMember_exposed]
      cases draft.addMember catalog label member with
      | error error => rfl
      | ok extended => exact inductionHypothesis extended

end Draft

/-- Registrations that come to the same, up to the visibility that they record. -/
structure Registration.SameButVisibility (first second : Registration Rule) : Prop where
  outcome : first.outcome.map Layout.exposed = second.outcome.map Layout.exposed
  log : first.log = second.log
  catalog : first.catalog.SameButVisibility second.catalog

namespace Catalog.SameButVisibility

variable {first second : Catalog Rule}

theorem addLayout
    {layout other : Layout Rule} (same : first.SameButVisibility second)
    (sameExposed : layout.exposed = other.exposed) (label : String) :
    (first.addLayout label layout).SameButVisibility (second.addLayout label other) := by
  have sameName : layout.name = other.name := (Layout.exposed_eq_iff.mp sameExposed).1
  intro type
  rw [layout?_addLayout, layout?_addLayout, sameName]
  split
  · exact congrArg some sameExposed
  · exact same type

theorem get?_registry (catalog : Catalog Rule) (label name : String) :
    (catalog.registry label).get? name = catalog.layout? ⟨label, name⟩ :=
  rfl

theorem contains_registry (catalog : Catalog Rule) (label name : String) :
    (catalog.registry label).contains name = (catalog.layout? ⟨label, name⟩).isSome :=
  rfl

theorem initialValue_eq
    (same : first.SameButVisibility second) (label typeName : String) (member : Member Rule) :
    first.initialValue label typeName member = second.initialValue label typeName member := by
  have samePlain :
      first.plainDefault label typeName member = second.plainDefault label typeName member := by
    rw [plainDefault, plainDefault]
    cases member.type with
    | struct name =>
        simp only [get?_registry]
        rcases same.layout?_cases ⟨label, name⟩ with
          ⟨unknown, alsoUnknown⟩ | ⟨layout, other, known, alsoKnown, sameExposed⟩
        · rw [unknown, alsoUnknown]
        · obtain ⟨_, sameSemantics, _, _, _, sameDefaults⟩ := Layout.exposed_eq_iff.mp sameExposed
          rw [known, alsoKnown]
          simp only [sameSemantics, sameDefaults]
    | _ => rfl
  simp only [initialValue, samePlain, same.accepts_eq]

theorem addMembers_eq
    (same : first.SameButVisibility second) (label : String) (draft : Draft Rule)
    (members : List (Member Rule)) :
    draft.addMembers first label members = draft.addMembers second label members := by
  induction members generalizing draft with
  | nil => rfl
  | cons member members inductionHypothesis =>
      simp only [Draft.addMembers, Draft.addMember, Draft.addedDefaults, same.initialValue_eq,
        inductionHypothesis]

theorem foundation_cases
    {declaration other : TypeDecl Rule} (same : first.SameButVisibility second)
    (sameDeclaration : declaration.SameButVisibility other) (label : String) :
    (∃ error, first.foundation label declaration = .error error ∧
        second.foundation label other = .error error) ∨
      ∃ foundation otherFoundation, first.foundation label declaration = .ok foundation ∧
        second.foundation label other = .ok otherFoundation ∧
        foundation.exposed = otherFoundation.exposed := by
  obtain ⟨name, semantics, base?, members⟩ := declaration
  obtain ⟨otherName, otherSemantics, otherBase?, otherMembers⟩ := other
  obtain ⟨rfl, rfl, rfl, _⟩ := TypeDecl.mk.inj sameDeclaration
  cases base? with
  | none => exact .inr ⟨_, _, rfl, rfl, rfl⟩
  | some baseName =>
      simp only [foundation, get?_registry]
      rcases same.layout?_cases ⟨label, baseName⟩ with
        ⟨unknown, alsoUnknown⟩ | ⟨base, otherBase, known, alsoKnown, sameExposed⟩
      · rw [unknown, alsoUnknown]
        exact .inl ⟨_, rfl, rfl⟩
      · obtain ⟨sameName, sameSemantics, sameAncestors, sameMembers, sameIndex, sameDefaults⟩ :=
          Layout.exposed_eq_iff.mp sameExposed
        rw [known, alsoKnown]
        simp only [sameSemantics]
        split
        · exact .inl ⟨_, rfl, rfl⟩
        · refine .inr ⟨_, _, rfl, rfl, Layout.exposed_eq_iff.mpr ⟨rfl, rfl, ?_, ?_, ?_, ?_⟩⟩
          · exact congrArg₂ List.cons sameName sameAncestors
          · exact sameMembers
          · exact sameIndex
          · exact sameDefaults

theorem exists_addMembers
    {layout other : Layout Rule} {members otherMembers : List (Member Rule)}
    (same : first.SameButVisibility second) (sameExposed : layout.exposed = other.exposed)
    (sameMembers : members.map Member.exposed = otherMembers.map Member.exposed)
    (label : String) :
    ∃ draft otherDraft error?,
      Draft.addMembers first label ⟨layout, [], []⟩ members = (draft, error?) ∧
        Draft.addMembers second label ⟨other, [], []⟩ otherMembers = (otherDraft, error?) ∧
        draft.layout.exposed = otherDraft.layout.exposed ∧ draft.log = otherDraft.log := by
  have sameResult :
      (Draft.addMembers first label ⟨layout, [], []⟩ members).map Draft.exposed id =
        (Draft.addMembers second label ⟨other, [], []⟩ otherMembers).map Draft.exposed id := by
    rw [same.addMembers_eq, ← Draft.addMembers_exposed, ← Draft.addMembers_exposed, sameMembers,
      Draft.exposed, Draft.exposed, sameExposed]
  obtain ⟨sameDraft, sameError⟩ := Prod.mk.inj sameResult
  obtain ⟨sameLayout, _, sameLog⟩ := Draft.mk.inj sameDraft
  exact ⟨_, _, _, rfl, Prod.ext rfl sameError.symm, sameLayout, sameLog⟩

/-- Two registrations that differ in the visibility of members at most come to the same. -/
theorem register
    {declaration other : TypeDecl Rule} (same : first.SameButVisibility second)
    (sameDeclaration : declaration.SameButVisibility other) (label : String) :
    (first.register label declaration).SameButVisibility (second.register label other) := by
  obtain ⟨sameName, _, _, sameMembers⟩ := TypeDecl.mk.inj sameDeclaration
  have sameContains :
      (first.registry label).contains declaration.name =
        (second.registry label).contains other.name := by
    simp only [contains_registry, sameName]
    rcases same.layout?_cases ⟨label, other.name⟩ with
      ⟨unknown, alsoUnknown⟩ | ⟨layout, otherLayout, known, alsoKnown, _⟩
    · rw [unknown, alsoUnknown]
    · rw [known, alsoKnown]
      rfl
  rw [Catalog.register, Catalog.register, sameContains]
  split
  · exact ⟨by rw [sameName], rfl, same⟩
  · rcases same.foundation_cases sameDeclaration label with
      ⟨error, refused, alsoRefused⟩ | ⟨foundation, otherFoundation, founded, alsoFounded, sameBase⟩
    · rw [refused, alsoRefused]
      exact ⟨rfl, rfl, same⟩
    · obtain ⟨draft, otherDraft, error?, taken, alsoTaken, sameExposed, sameLog⟩ :=
        same.exists_addMembers sameBase sameMembers label
      simp only [founded, alsoFounded, taken, alsoTaken]
      cases error? with
      | some error => exact ⟨rfl, sameLog, same⟩
      | none =>
          obtain ⟨sameLayoutName, sameSemantics, _, sameTable, _, sameDefaults⟩ :=
            Layout.exposed_eq_iff.mp sameExposed
          have sameLength : draft.layout.members.length = otherDraft.layout.members.length := by
            simpa using congrArg List.length sameTable
          refine ⟨congrArg Except.ok sameExposed, ?_, same.addLayout sameExposed label⟩
          simp only [sameLog, sameLayoutName, sameSemantics, sameLength, Layout.fieldCount,
            sameDefaults]

end Catalog.SameButVisibility

/-! ## Rules for computed members -/

section Rules

variable {first second : Catalog Rule}

theorem ReadRule.run_eq
    (same : first.SameButVisibility second) (rule : ReadRule) (owner : Composite) (heap : Heap) :
    rule.run first owner heap = rule.run second owner heap := by
  cases rule with
  | nested names =>
      have sameNested : ∀ (names : List String) (owner : Composite),
          nestedField? first heap names owner = nestedField? second heap names owner := by
        intro names
        induction names with
        | nil => exact fun owner => rfl
        | cons name names inductionHypothesis =>
            intro owner
            cases names with
            | nil => exact same.field?_eq owner name
            | cons next names => simp only [nestedField?, same.field?_eq, inductionHypothesis]
      rw [run, run, sameNested]
  | fresh => rw [run, run, same.instantiate_eq]
  | constant value => rfl
  | typeName => rfl
  | _ => rw [run, run, same.field?_eq]

theorem WriteRule.run_eq
    (same : first.SameButVisibility second) (rule : WriteRule) (owner : Composite)
    (value : Value) :
    rule.run first owner value = rule.run second owner value := by
  have sameStore : ∀ (owner : Composite) (name : String) (value : Value),
      store first owner name value = store second owner name value := by
    intro owner name value
    rw [store, store, same.setField?_eq]
  cases rule with
  | fields names => simp only [run, sameStore]
  | ignore => rfl
  | scaledInt name factor => simp only [run, sameStore]
  | scaledFloat name factor => simp only [run, sameStore]
  | nested names =>
      have sameNested : ∀ (names : List String) (owner : Composite),
          storeNested first value names owner = storeNested second value names owner := by
        intro names
        induction names with
        | nil => exact fun owner => rfl
        | cons name names inductionHypothesis =>
            intro owner
            cases names with
            | nil => exact same.setField?_eq owner name value
            | cons next names =>
                simp only [storeNested, same.field?_eq, same.setField?_eq, inductionHypothesis]
      rw [run, run, sameNested]

end Rules

theorem PropertyRule.blind : Accessors.Blind PropertyRule where
  read rule first second same :=
    funext fun owner => funext fun heap => rule.read.run_eq same owner heap
  write rule run writer first second same := by
    obtain ⟨write, _, rfl⟩ := Option.map_eq_some_iff.mp writer
    funext owner value heap
    exact congrArg (·, heap) (write.run_eq same owner value)

end ObjectGraph
