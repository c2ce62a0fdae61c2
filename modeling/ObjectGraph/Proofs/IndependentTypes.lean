import Mathlib.Data.List.Sort
import Mathlib.Data.String.Basic
import ObjectGraph.Examples.Tools
import ObjectGraph.Proofs.Acceptance

/-!
# Registration in either order

A registration looks up a few types only: the declared name itself, the base, and the struct types
of the fields that have no initial value of their own. Catalogs that agree on these types give the
same answer and the same records. Of all types a registration changes at most the declared one, and
it changes none when it fails. Two declarations that do not need each other's types can therefore be
registered in either order, whichever of them are accepted.
-/

namespace ObjectGraph

variable {Rule : Type}

/-- The type of this name has to be registered before the declaration: as the base, or as the struct
type of a field without an initial value of its own. -/
inductive TypeDecl.Needs (declaration : TypeDecl Rule) : String → Prop
  | base {name : String} (named : declaration.base? = some name) : Needs declaration name
  | field {name : String} {member : Member Rule} (present : member ∈ declaration.members)
      (stored : member.isField = true) (plain : member.initial? = none)
      (isStruct : member.type = .struct name) : Needs declaration name

/-- An object of this type is among the initial values of the declaration. No field may start with
an object, but the type of the object decides about the reason that is given. -/
def TypeDecl.Gives (declaration : TypeDecl Rule) (type : TypeId) : Prop :=
  ∃ member ∈ declaration.members, ∃ cell,
    member.initial? = some (.shared (.object type cell))

/-- The objects among the initial values are instances of registered types, as all objects are. -/
def TypeDecl.GivesRegistered (catalog : Catalog Rule) (declaration : TypeDecl Rule) : Prop :=
  ∀ type, declaration.Gives type → catalog.layout? type ≠ none

/-- The registration of the declaration looks up this type. -/
inductive TypeDecl.Asks (label : String) (declaration : TypeDecl Rule) : TypeId → Prop
  | own : Asks label declaration ⟨label, declaration.name⟩
  | needed {name : String} (needs : declaration.Needs name) : Asks label declaration ⟨label, name⟩
  | given {type : TypeId} (gives : declaration.Gives type) : Asks label declaration type

/-- Neither declaration is about the type of the other one or needs it. -/
structure TypeDecl.Independent (first second : TypeDecl Rule) : Prop where
  name_ne : first.name ≠ second.name
  not_needs : ¬ first.Needs second.name
  not_needed : ¬ second.Needs first.name

/-- A registration has the same outcome in both catalogs and reports the same. -/
structure Catalog.RegistersAlike (catalog other : Catalog Rule) (label : String)
    (declaration : TypeDecl Rule) : Prop where
  outcome_eq : (other.register label declaration).outcome =
    (catalog.register label declaration).outcome
  log_eq : (other.register label declaration).log = (catalog.register label declaration).log

/-- Two declarations can be registered in either order. -/
structure Catalog.RegistersInEitherOrder (catalog : Catalog Rule) (label : String)
    (first second : TypeDecl Rule) : Prop where
  first_alike : catalog.RegistersAlike (catalog.register label second).catalog label first
  second_alike : catalog.RegistersAlike (catalog.register label first).catalog label second
  /-- In the end both types are registered with the layouts that their registrations gave. -/
  first_kept : ∀ layout, (catalog.register label first).outcome = .ok layout →
    ((catalog.register label first).catalog.register label second).catalog.layout?
      ⟨label, first.name⟩ = some layout
  second_kept : ∀ layout, (catalog.register label second).outcome = .ok layout →
    ((catalog.register label first).catalog.register label second).catalog.layout?
      ⟨label, second.name⟩ = some layout
  layout?_eq : ∀ type,
    ((catalog.register label first).catalog.register label second).catalog.layout? type =
      ((catalog.register label second).catalog.register label first).catalog.layout? type
  names_eq : ∀ registry,
    (((catalog.register label first).catalog.register label second).catalog.registry
        registry).names =
      (((catalog.register label second).catalog.register label first).catalog.registry
        registry).names

/-! ## What a registration reads -/

/-- Whether a value is accepted depends on the catalog for objects only. -/
theorem SlotType.accepts_congr
    {catalog other : Catalog Rule} {value : Value}
    (agree : ∀ type cell, value = .shared (.object type cell) →
      other.layout? type = catalog.layout? type)
    (slot : SlotType) :
    slot.accepts other value = slot.accepts catalog value := by
  cases value with
  | shared handle =>
      cases handle with
      | object type cell =>
          have same := agree type cell rfl
          cases slot with
          | object name => simp only [accepts, Catalog.layout, same]
          | _ => rfl
      | list element cell => cases slot <;> rfl
  | _ => cases slot <;> rfl

section Reading

variable {catalog other : Catalog Rule} {label : String} {declaration : TypeDecl Rule}
  (agree : ∀ type, declaration.Asks label type → other.layout? type = catalog.layout? type)

include agree

theorem Catalog.plainDefault_congr
    {member : Member Rule} (present : member ∈ declaration.members)
    (stored : member.isField = true) (plain : member.initial? = none) (typeName : String) :
    other.plainDefault label typeName member = catalog.plainDefault label typeName member := by
  unfold plainDefault
  cases isStruct : member.type with
  | struct name =>
      have same : (other.registry label).get? name = (catalog.registry label).get? name :=
        agree _ (.needed (.field present stored plain isStruct))
      simp only [same]
  | _ => rfl

theorem Catalog.initialValue_congr
    {member : Member Rule} (present : member ∈ declaration.members)
    (stored : member.isField = true) (typeName : String) :
    other.initialValue label typeName member = catalog.initialValue label typeName member := by
  unfold initialValue
  cases explicit : member.initial? with
  | none => exact plainDefault_congr agree present stored explicit typeName
  | some value =>
      have same : member.type.accepts other value = member.type.accepts catalog value := by
        apply SlotType.accepts_congr
        rintro type cell rfl
        exact agree type (.given ⟨member, present, cell, explicit⟩)
      simp only [same]

theorem Draft.addedDefaults_congr
    {member : Member Rule} (present : member ∈ declaration.members) (typeName : String) :
    addedDefaults other label typeName member = addedDefaults catalog label typeName member := by
  unfold addedDefaults
  by_cases stored : member.isField = true
  · rw [if_pos stored, if_pos stored, Catalog.initialValue_congr agree present stored]
  · rw [if_neg stored, if_neg stored]

theorem Draft.addMember_congr
    {member : Member Rule} (present : member ∈ declaration.members) (draft : Draft Rule) :
    draft.addMember other label member = draft.addMember catalog label member := by
  have same := addedDefaults_congr agree present draft.layout.name
  simp only [addMember, same]

theorem Draft.addMembers_congr
    {members : List (Member Rule)} (part : ∀ member ∈ members, member ∈ declaration.members)
    (draft : Draft Rule) :
    addMembers other label draft members = addMembers catalog label draft members := by
  induction members generalizing draft with
  | nil => rfl
  | cons member members inductionHypothesis =>
      obtain ⟨present, rest⟩ := List.forall_mem_cons.mp part
      rw [addMembers, addMembers, addMember_congr agree present]
      cases draft.addMember catalog label member with
      | error error => rfl
      | ok extended => exact inductionHypothesis rest extended

theorem Catalog.foundation_congr :
    other.foundation label declaration = catalog.foundation label declaration := by
  unfold foundation
  cases named : declaration.base? with
  | none => rfl
  | some baseName =>
      have same : (other.registry label).get? baseName = (catalog.registry label).get? baseName :=
        agree _ (.needed (.base named))
      simp only [same]

/-- A registration depends on the types that it looks up, and on nothing else. -/
theorem Catalog.registersAlike_of_agree : catalog.RegistersAlike other label declaration := by
  have own := agree _ .own
  have founded := foundation_congr agree
  have taken := Draft.addMembers_congr agree fun _ present => present
  cases known : catalog.layout? ⟨label, declaration.name⟩ with
  | some layout =>
      rw [known] at own
      constructor
      · rw [outcome_of_known own, outcome_of_known known]
      · rw [register_of_known own, register_of_known known]
  | none =>
      rw [known] at own
      constructor
      · rw [outcome_of_fresh own, outcome_of_fresh known, founded]
        simp only [taken]
      · rw [register_of_fresh own, register_of_fresh known, founded]
        cases catalog.foundation label declaration with
        | error error => rfl
        | ok foundation =>
            simp only [taken]
            split
            · rfl
            · rfl

end Reading

/-! ## What a registration writes -/

section Writing

variable {catalog : Catalog Rule} {label : String} {declaration : TypeDecl Rule}

/-- All types but the declared one stay as they are, even if the registration fails. -/
theorem Catalog.layout?_register_of_ne
    {type : TypeId} (different : type ≠ ⟨label, declaration.name⟩) :
    (catalog.register label declaration).catalog.layout? type = catalog.layout? type := by
  cases outcome : (catalog.register label declaration).outcome with
  | ok layout => rw [layout?_register outcome, if_neg different]
  | error error => rw [register_eq_error outcome]

/-- What becomes of the declared type depends on the outcome and on what was there. -/
theorem Catalog.layout?_register_own
    {other : Catalog Rule} (alike : catalog.RegistersAlike other label declaration)
    (same : other.layout? ⟨label, declaration.name⟩ = catalog.layout? ⟨label, declaration.name⟩) :
    (other.register label declaration).catalog.layout? ⟨label, declaration.name⟩ =
      (catalog.register label declaration).catalog.layout? ⟨label, declaration.name⟩ := by
  have otherOutcome := alike.outcome_eq
  cases outcome : (catalog.register label declaration).outcome with
  | ok layout =>
      rw [outcome] at otherOutcome
      rw [layout?_register otherOutcome, layout?_register outcome, if_pos rfl, if_pos rfl]
  | error error =>
      rw [outcome] at otherOutcome
      rw [register_eq_error otherOutcome, register_eq_error outcome, same]

end Writing

/-! ## The names of a registry -/

namespace TableOver

variable {Map : Type → Type} [KeyedMap Map] {Entry : Type}

theorem mem_names_toList_iff
    [KeyedMap.Lawful Map] {table : TableOver Map Entry} {name : String} :
    name ∈ table.toList.map Prod.fst ↔ table.get? name ≠ none := by
  rw [List.mem_map, Option.ne_none_iff_exists']
  constructor
  · rintro ⟨⟨key, entry⟩, listed, rfl⟩
    exact ⟨entry, mem_toList_iff.mp listed⟩
  · rintro ⟨entry, held⟩
    exact ⟨(name, entry), mem_toList_iff.mpr held, rfl⟩

theorem sorted_perm (table : TableOver Map Entry) :
    table.sorted.Perm table.toList :=
  List.mergeSort_perm _ _

theorem pairwise_sorted (table : TableOver Map Entry) :
    table.sorted.Pairwise fun left right => left.1 ≤ right.1 := by
  have notBelow : ∀ left right : String, (!decide (right < left)) = true ↔ left ≤ right := by
    intro left right
    rw [Bool.not_eq_true', decide_eq_false_iff_not, not_lt]
  unfold sorted
  apply List.Pairwise.imp _ (List.pairwise_mergeSort _ _ table.toList)
  · intro left right inOrder
    exact (notBelow left.1 right.1).mp inOrder
  · intro first second third nearer farther
    rw [notBelow] at nearer farther ⊢
    exact nearer.trans farther
  · intro first second
    rw [Bool.or_eq_true, notBelow, notBelow]
    exact le_total first.1 second.1

end TableOver

section Names

variable {registry other : Registry Rule}

theorem Registry.mem_names_iff
    {name : String} :
    name ∈ registry.names ↔ registry.get? name ≠ none := by
  rw [names, (registry.layouts.sorted_perm.map Prod.fst).mem_iff]
  exact TableOver.mem_names_toList_iff

/-- The names are listed in order, each of them once. -/
theorem Registry.pairwise_names : registry.names.Pairwise (· < ·) := by
  have ordered : registry.names.Pairwise (· ≤ ·) :=
    List.pairwise_map.mpr registry.layouts.pairwise_sorted
  have distinct : registry.names.Nodup :=
    (registry.layouts.sorted_perm.map Prod.fst).nodup_iff.mpr registry.layouts.nodup_toList
  apply (ordered.and distinct).imp
  intro first second inOrder
  exact lt_of_le_of_ne inOrder.1 inOrder.2

/-- Registries list the same names when they know the same names. -/
theorem Registry.names_eq_of_get?_eq
    (same : ∀ name, registry.get? name = other.get? name) :
    registry.names = other.names := by
  apply List.Pairwise.eq_of_mem_iff registry.pairwise_names other.pairwise_names
  intro name
  rw [mem_names_iff, mem_names_iff, same]

end Names

/-! ## Either order -/

theorem TypeDecl.Independent.symm
    {first second : TypeDecl Rule} (independent : first.Independent second) :
    second.Independent first :=
  ⟨independent.name_ne.symm, independent.not_needed, independent.not_needs⟩

/-- In a well-typed heap the types of all objects are registered. -/
theorem TypeDecl.givesRegistered_of_supplied
    {catalog : Catalog Rule} {heap : Heap} {declaration : TypeDecl Rule}
    (typed : heap.WellTyped catalog)
    (supplied : Member.Supplied catalog heap declaration.members) :
    declaration.GivesRegistered catalog := by
  rintro type ⟨member, present, cell, explicit⟩
  cases supplied member present _ explicit with
  | shared backed =>
      obtain ⟨container, stored, same⟩ := backed
      cases container with
      | sequence elements => cases same
      | composite owner =>
          cases same
          cases typed cell _ stored with
          | struct fits _ =>
              obtain ⟨layout, fitsLayout⟩ := fits
              exact Option.ne_none_iff_exists'.mpr ⟨layout, fitsLayout.registered⟩

section Orders

variable {catalog : Catalog Rule} {first second : TypeDecl Rule}

theorem TypeDecl.Independent.type_ne
    (independent : first.Independent second) (label : String) :
    (⟨label, first.name⟩ : TypeId) ≠ ⟨label, second.name⟩ := by
  intro same
  exact independent.name_ne (TypeId.mk.inj same).2

/-- A registration looks up no type that an independent one changes. -/
theorem TypeDecl.Independent.registersAlike
    (independent : first.Independent second) (known : first.GivesRegistered catalog)
    (label : String) :
    catalog.RegistersAlike (catalog.register label second).catalog label first := by
  apply Catalog.registersAlike_of_agree
  intro type asks
  cases asks with
  | own => exact Catalog.layout?_register_of_ne (independent.type_ne label)
  | @needed name needs =>
      apply Catalog.layout?_register_of_ne
      intro same
      rw [(TypeId.mk.inj same).2] at needs
      exact independent.not_needs needs
  | given gives =>
      cases outcome : (catalog.register label second).outcome with
      | error error => rw [Catalog.register_eq_error outcome]
      | ok layout =>
          have fresh := Catalog.layout?_eq_none_of_not_contains (Catalog.register_eq_ok outcome).1
          apply Catalog.layout?_register_of_ne
          rintro rfl
          exact known _ gives fresh

/-- What becomes of the type of the first declaration does not depend on the order. -/
theorem TypeDecl.Independent.layout?_first
    (independent : first.Independent second) (known : first.GivesRegistered catalog)
    (label : String) :
    ((catalog.register label first).catalog.register label second).catalog.layout?
        ⟨label, first.name⟩ =
      ((catalog.register label second).catalog.register label first).catalog.layout?
        ⟨label, first.name⟩ := by
  have different := independent.type_ne label
  have alike := independent.registersAlike known label
  rw [Catalog.layout?_register_of_ne different]
  exact (Catalog.layout?_register_own alike (Catalog.layout?_register_of_ne different)).symm

theorem TypeDecl.Independent.layout?_eq
    (independent : first.Independent second) (firstKnown : first.GivesRegistered catalog)
    (secondKnown : second.GivesRegistered catalog) (label : String) (type : TypeId) :
    ((catalog.register label first).catalog.register label second).catalog.layout? type =
      ((catalog.register label second).catalog.register label first).catalog.layout? type := by
  by_cases isFirst : type = ⟨label, first.name⟩
  · rw [isFirst]
    exact independent.layout?_first firstKnown label
  · by_cases isSecond : type = ⟨label, second.name⟩
    · rw [isSecond]
      exact (independent.symm.layout?_first secondKnown label).symm
    · rw [Catalog.layout?_register_of_ne isSecond, Catalog.layout?_register_of_ne isFirst,
        Catalog.layout?_register_of_ne isFirst, Catalog.layout?_register_of_ne isSecond]

end Orders

/-- Independent declarations can be registered in either order: both times each of them has the same
outcome, and the same types are registered in the end. -/
theorem Catalog.registersInEitherOrder_of_independent
    {catalog : Catalog Rule} {first second : TypeDecl Rule}
    (independent : first.Independent second) (firstKnown : first.GivesRegistered catalog)
    (secondKnown : second.GivesRegistered catalog) (label : String) :
    catalog.RegistersInEitherOrder label first second := by
  have layout?_eq := independent.layout?_eq firstKnown secondKnown label
  constructor
  case first_alike => exact independent.registersAlike firstKnown label
  case second_alike => exact independent.symm.registersAlike secondKnown label
  case first_kept =>
    intro layout acceptance
    rw [layout?_register_of_ne (independent.type_ne label), layout?_register acceptance, if_pos rfl]
  case second_kept =>
    intro layout acceptance
    have alike := independent.symm.registersAlike secondKnown label
    rw [← alike.outcome_eq] at acceptance
    rw [layout?_register acceptance, if_pos rfl]
  case layout?_eq => exact layout?_eq
  case names_eq =>
    intro registry
    apply Registry.names_eq_of_get?_eq
    exact fun name => layout?_eq ⟨registry, name⟩

namespace Tools

/-- A tool with a head of its own. -/
def hammer : TypeDecl PropertyRule where
  name := "Hammer"
  semantics := .reference
  base? := some "Tool"
  members := [⟨"head", .int, .field, .everyone, some (.int 7)⟩]

/-- A thing that refers to a hammer, and starts with a shared saw. -/
def nail : TypeDecl PropertyRule where
  name := "Nail"
  semantics := .reference
  base? := some "Thing"
  members :=
    [⟨"hammer", .object "Hammer", .field, .everyone, none⟩,
      ⟨"saw", .object "Tool", .field, .everyone, some (.shared (.object sawType 0))⟩]

end Tools

/-- The nail is refused and the hammer accepted, whichever comes first. -/
theorem Catalog.registersInEitherOrder_hammer :
    Tools.hammer.Independent Tools.nail ∧ Tools.hammer.GivesRegistered Tools.catalog ∧
      Tools.nail.GivesRegistered Tools.catalog ∧
      Tools.catalog.RegistersInEitherOrder "main" Tools.hammer Tools.nail ∧
      (∃ layout, (Tools.catalog.register "main" Tools.hammer).outcome = .ok layout) ∧
      (Tools.catalog.register "main" Tools.nail).outcome =
        .error (.sharedDefault "Nail" "saw") := by
  have independent : Tools.hammer.Independent Tools.nail := by
    refine ⟨by decide, ?_, ?_⟩
    · intro needs
      cases needs with
      | base named => exact absurd named (by decide)
      | field present stored plain isStruct =>
          obtain rfl := List.mem_singleton.mp present
          cases plain
    · intro needs
      cases needs with
      | base named => exact absurd named (by decide)
      | field present stored plain isStruct =>
          simp only [Tools.nail, List.mem_cons, List.not_mem_nil, or_false] at present
          rcases present with rfl | rfl
          · cases isStruct
          · cases plain
  have hammerKnown : Tools.hammer.GivesRegistered Tools.catalog := by
    rintro type ⟨member, present, cell, explicit⟩
    obtain rfl := List.mem_singleton.mp present
    cases explicit
  have nailKnown : Tools.nail.GivesRegistered Tools.catalog := by
    rintro type ⟨member, present, cell, explicit⟩
    simp only [Tools.nail, List.mem_cons, List.not_mem_nil, or_false] at present
    rcases present with rfl | rfl
    · cases explicit
    · cases explicit
      simp [Tools.layout?_saw]
  exact ⟨independent, hammerKnown, nailKnown,
    registersInEitherOrder_of_independent independent hammerKnown nailKnown "main", ⟨_, rfl⟩, rfl⟩

end ObjectGraph
