import Mathlib.Data.List.GetD
import ObjectGraph.Proofs.Typing
import ObjectGraph.Registration

/-!
# Registration keeps types

A layout is built member by member on top of the layout of the base, or from nothing. Each stored
member gets the next slot and an initial value that it accepts: its own one, which is checked, or
the plain one for its type, which for a struct are the contents of a layout that is registered
already. So a layout is sound at every moment of its construction, and a catalog that gets it stays
well formed.
-/

namespace ObjectGraph

variable {Rule : Type}

/-! ## Catalogs that grow -/

namespace Catalog

theorem layout?_addLayout
    (catalog : Catalog Rule) (label : String) (layout : Layout Rule) (type : TypeId) :
    (catalog.addLayout label layout).layout? type =
      if type = ⟨label, layout.name⟩ then some layout else catalog.layout? type := by
  obtain ⟨registry, name⟩ := type
  simp only [layout?, Catalog.registry, addLayout, TableOver.get?_set, TypeId.mk.injEq]
  by_cases sameLabel : registry = label
  · subst sameLabel
    simp only [if_true, Option.getD_some, Registry.get?, TableOver.get?_set, true_and]
  · simp [sameLabel]

theorem layout_addLayout
    (catalog : Catalog Rule) (label : String) (layout : Layout Rule) (type : TypeId) :
    (catalog.addLayout label layout).layout type =
      if type = ⟨label, layout.name⟩ then layout else catalog.layout type := by
  rw [Catalog.layout, layout?_addLayout]
  split <;> rfl

@[simp]
theorem layout?_empty (type : TypeId) :
    (empty : Catalog Rule).layout? type = none :=
  rfl

theorem wellFormed_empty : (empty : Catalog Rule).WellFormed where
  named type layout registered := by simp at registered
  sound type layout registered := by simp at registered

theorem Includes.refl (catalog : Catalog Rule) :
    catalog.Includes catalog :=
  fun _ _ registered => registered

theorem contains_iff_layout? (catalog : Catalog Rule) (label name : String) :
    (catalog.registry label).contains name = true ↔ catalog.layout? ⟨label, name⟩ ≠ none :=
  Option.isSome_iff_ne_none

section AddLayout

variable {catalog : Catalog Rule} {label : String} {layout : Layout Rule}

theorem layout?_eq_none_of_not_contains
    {name : String} (fresh : (catalog.registry label).contains name = false) :
    catalog.layout? ⟨label, name⟩ = none := by
  by_contra known
  rw [(contains_iff_layout? catalog label name).mpr known] at fresh
  cases fresh

theorem includes_addLayout (fresh : (catalog.registry label).contains layout.name = false) :
    (catalog.addLayout label layout).Includes catalog := by
  intro type known registered
  rw [layout?_addLayout, if_neg]
  · exact registered
  · rintro rfl
    rw [layout?_eq_none_of_not_contains fresh] at registered
    cases registered

theorem Named.addLayout (named : catalog.Named) (label : String) (layout : Layout Rule) :
    (catalog.addLayout label layout).Named := by
  intro type known registered
  rw [layout?_addLayout] at registered
  split at registered
  · next same =>
      cases registered
      rw [same]
  · exact named type known registered

/-- A sound layout under a new name keeps a catalog well formed. -/
theorem WellFormed.addLayout
    (wellFormed : catalog.WellFormed) (sound : layout.Sound catalog)
    (fresh : (catalog.registry label).contains layout.name = false) :
    (catalog.addLayout label layout).WellFormed := by
  have named := wellFormed.named.addLayout label layout
  have includes := includes_addLayout fresh
  refine ⟨named, fun type known registered => ?_⟩
  rw [layout?_addLayout] at registered
  split at registered
  · cases registered
    exact sound.of_includes includes named
  · exact (wellFormed.sound type known registered).of_includes includes named

end AddLayout

end Catalog

/-! ## Initial values -/

section Initial

variable {catalog : Catalog Rule} {heap : Heap}

/-- A value that holds nothing shared is as well typed in one heap as in another. -/
theorem Value.WellTyped.of_not_holdsReference
    {value : Value} (typed : value.WellTyped catalog heap)
    (unshared : value.holdsReference = false) (other : Heap) :
    value.WellTyped catalog other := by
  have within : ∀ (fields : List Value), anyHoldsReference fields = false →
      ∀ field ∈ fields, field.holdsReference = false := by
    intro fields
    induction fields with
    | nil => simp
    | cons first fields inductionHypothesis =>
        intro none field present
        simp only [anyHoldsReference, Bool.or_eq_false_iff] at none
        rcases List.mem_cons.mp present with rfl | later
        · exact none.1
        · exact inductionHypothesis none.2 field later
  induction typed with
  | struct fits _ inductionHypothesis =>
      refine .struct fits fun field present => inductionHypothesis field present ?_
      exact within _ (by simpa [holdsReference] using unshared) field present
  | shared backed => simp [holdsReference] at unshared
  | _ => constructor

/-- The initial contents of a registered layout make a well-typed struct in any heap. -/
theorem Catalog.WellFormed.wellTyped_defaults
    {type : TypeId} {layout : Layout Rule} (wellFormed : catalog.WellFormed)
    (registered : catalog.layout? type = some layout) (heap : Heap) :
    (Value.struct type layout.defaults).WellTyped catalog heap := by
  have sound := wellFormed.sound type layout registered
  have fits : Composite.FitsLayout catalog ⟨type, layout.defaults⟩ layout :=
    ⟨registered, rfl, sound.inside, sound.accepted⟩
  refine .struct ⟨layout, fits⟩ fun value present => ?_
  exact (sound.typed value present).of_grows heap.grows_empty

theorem Catalog.WellFormed.instantiate
    {type : TypeId} {layout : Layout Rule} (wellFormed : catalog.WellFormed)
    (heapTyped : heap.WellTyped catalog) (registered : catalog.layout? type = some layout) :
    heap.Evolves catalog (catalog.instantiate type heap).2 ∧
      (catalog.instantiate type heap).1.WellTyped catalog (catalog.instantiate type heap).2 := by
  have known : catalog.layout type = layout := by
    rw [Catalog.layout, registered, Option.getD_some]
  have typed := wellFormed.wellTyped_defaults registered heap
  simp only [Catalog.instantiate, known]
  cases layout.semantics with
  | value => exact ⟨.refl heapTyped, typed⟩
  | reference =>
      have objectTyped : (Container.composite ⟨type, layout.defaults⟩).WellTyped catalog heap :=
        typed
      exact ⟨.push heapTyped objectTyped, .shared (heap.backs_push _)⟩

theorem Catalog.WellFormed.plainDefault
    {label typeName : String} {member : Member Rule} {value : Value}
    (wellFormed : catalog.WellFormed)
    (chosen : catalog.plainDefault label typeName member = .ok value) :
    member.type.accepts catalog value = true ∧ value.WellTyped catalog Heap.empty := by
  unfold Catalog.plainDefault at chosen
  cases type : member.type with
  | struct name =>
      simp only [type] at chosen
      cases registered : (catalog.registry label).get? name with
      | none => simp [registered] at chosen
      | some layout =>
          simp only [registered] at chosen
          split at chosen
          · cases chosen
          · cases chosen
            have known : catalog.layout? ⟨label, name⟩ = some layout := registered
            exact ⟨by simp [SlotType.accepts], wellFormed.wellTyped_defaults known Heap.empty⟩
  | _ =>
      simp only [type] at chosen
      cases chosen
      exact ⟨rfl, by constructor⟩

/-- Every field starts with a value of its type, if the explicit initial values are well typed. -/
theorem Catalog.WellFormed.initialValue
    {label typeName : String} {member : Member Rule} {value : Value}
    (wellFormed : catalog.WellFormed)
    (supplied : ∀ explicit, member.initial? = some explicit → explicit.WellTyped catalog heap)
    (chosen : catalog.initialValue label typeName member = .ok value) :
    member.type.accepts catalog value = true ∧ value.WellTyped catalog Heap.empty := by
  unfold Catalog.initialValue at chosen
  cases declared : member.initial? with
  | none =>
      simp only [declared] at chosen
      exact wellFormed.plainDefault chosen
  | some explicit =>
      simp only [declared] at chosen
      split at chosen
      · cases chosen
      · next accepted =>
          split at chosen
          · cases chosen
          · next unshared =>
              cases chosen
              refine ⟨by simpa using accepted, ?_⟩
              exact (supplied _ declared).of_not_holdsReference (by simpa using unshared) _

end Initial

/-! ## Layouts under construction -/

namespace Layout.Sound

variable {catalog : Catalog Rule} {layout : Layout Rule}

theorem bare (catalog : Catalog Rule) (name : String) (semantics : Semantics) :
    (Layout.bare name semantics : Layout Rule).Sound catalog where
  inside placed present := by simp [Layout.bare] at present
  apart := .nil
  accepted placed present := by simp [Layout.bare] at present
  typed value present := by simp [Layout.bare] at present

/-- A derived layout starts with all members of its base. -/
theorem derive (sound : layout.Sound catalog) (name : String) (semantics : Semantics) :
    (layout.derive name semantics).Sound catalog :=
  ⟨sound.inside, sound.apart, sound.accepted, sound.typed⟩

/-- A new member takes the slot behind all others, if it takes one. -/
theorem addMember
    {member : Member Rule} {defaults : List Value} (sound : layout.Sound catalog)
    (filled : member.isField = true → ∃ value, defaults = [value] ∧
      member.type.accepts catalog value = true)
    (typed : ∀ value ∈ defaults, value.WellTyped catalog Heap.empty) :
    (layout.addMember member defaults).Sound catalog := by
  have added : ∀ index, PlacedMember.stored? ⟨member, layout.name, layout.defaults.length⟩ =
      some index → member.isField = true ∧ index = layout.fieldCount := by
    intro index stored
    simp only [PlacedMember.stored?, Option.ite_none_right_eq_some, Option.some.injEq] at stored
    exact ⟨stored.1, stored.2.symm⟩
  constructor
  · intro placed present index stored
    simp only [Layout.addMember, Layout.fieldCount, List.length_append]
    rcases List.mem_append.mp present with old | new
    · have inside := sound.inside placed old index stored
      simp only [Layout.fieldCount] at inside
      omega
    · rw [List.mem_singleton.mp new] at stored
      obtain ⟨isField, rfl⟩ := added index stored
      obtain ⟨value, rfl, _⟩ := filled isField
      simp [Layout.fieldCount]
  · refine List.pairwise_append.mpr ⟨sound.apart, List.pairwise_singleton _ _, ?_⟩
    intro first old second new index firstStored secondStored
    rw [List.mem_singleton.mp new] at secondStored
    have inside := sound.inside first old index firstStored
    have behind := (added index secondStored).2
    omega
  · intro placed present index stored
    simp only [Layout.addMember]
    rcases List.mem_append.mp present with old | new
    · have inside := sound.inside placed old index stored
      have accepted := sound.accepted placed old index stored
      rwa [List.getD_append _ _ _ _ inside]
    · rw [List.mem_singleton.mp new] at stored ⊢
      obtain ⟨isField, rfl⟩ := added index stored
      obtain ⟨value, rfl, accepted⟩ := filled isField
      simpa [Layout.fieldCount, PlacedMember.type] using accepted
  · intro value present
    rcases List.mem_append.mp present with old | new
    · exact sound.typed value old
    · exact typed value new

end Layout.Sound

/-- The explicit initial values of some members are well typed. -/
def Member.Supplied (catalog : Catalog Rule) (heap : Heap) (members : List (Member Rule)) : Prop :=
  ∀ member ∈ members, ∀ value, member.initial? = some value → value.WellTyped catalog heap

theorem Member.supplied_of_plain
    {members : List (Member Rule)} (plain : ∀ member ∈ members, member.initial? = none)
    (catalog : Catalog Rule) (heap : Heap) :
    Supplied catalog heap members := by
  intro member present value explicit
  rw [plain member present] at explicit
  cases explicit

section Registering

variable {catalog : Catalog Rule} {heap : Heap} {label : String}

/-- What a member adds to the field buffer fits it. -/
theorem Draft.addedDefaults_fit
    {typeName : String} {member : Member Rule} {defaults : List Value}
    (wellFormed : catalog.WellFormed)
    (supplied : ∀ value, member.initial? = some value → value.WellTyped catalog heap)
    (added : addedDefaults catalog label typeName member = .ok defaults) :
    (member.isField = true → ∃ value, defaults = [value] ∧
      member.type.accepts catalog value = true) ∧
    ∀ value ∈ defaults, value.WellTyped catalog Heap.empty := by
  unfold addedDefaults at added
  split at added
  · cases chosen : catalog.initialValue label typeName member with
    | error error => simp [chosen, Except.map] at added
    | ok value =>
        simp only [chosen, Except.map, Except.ok.injEq] at added
        subst added
        obtain ⟨accepted, typed⟩ := wellFormed.initialValue supplied chosen
        exact ⟨fun _ => ⟨value, rfl, accepted⟩, by simpa using typed⟩
  · next computed =>
      cases added
      exact ⟨fun isField => absurd isField computed, by simp⟩

theorem Draft.sound_of_addMember
    {draft extended : Draft Rule} {member : Member Rule} (wellFormed : catalog.WellFormed)
    (sound : draft.layout.Sound catalog)
    (supplied : ∀ value, member.initial? = some value → value.WellTyped catalog heap)
    (taken : draft.addMember catalog label member = .ok extended) :
    extended.layout.Sound catalog ∧ extended.layout.name = draft.layout.name := by
  simp only [Draft.addMember, bind, Except.bind, pure, Except.pure] at taken
  split at taken
  · cases taken
  · split at taken
    · cases taken
    · next defaults added =>
        cases taken
        obtain ⟨filled, typed⟩ := addedDefaults_fit wellFormed supplied added
        exact ⟨sound.addMember filled typed, rfl⟩

theorem Draft.sound_of_addMembers
    {members : List (Member Rule)} {draft complete : Draft Rule}
    {refusal? : Option RegistrationError} (wellFormed : catalog.WellFormed)
    (sound : draft.layout.Sound catalog)
    (supplied : Member.Supplied catalog heap members)
    (taken : addMembers catalog label draft members = (complete, refusal?)) :
    complete.layout.Sound catalog ∧ complete.layout.name = draft.layout.name := by
  induction members generalizing draft with
  | nil =>
      cases taken
      exact ⟨sound, rfl⟩
  | cons member members inductionHypothesis =>
      rw [addMembers] at taken
      split at taken
      · cases taken
        exact ⟨sound, rfl⟩
      · next extended taking =>
          obtain ⟨extendedSound, sameName⟩ := sound_of_addMember wellFormed sound
            (supplied member List.mem_cons_self) taking
          obtain ⟨completeSound, completeName⟩ := inductionHypothesis extendedSound
            (fun later present => supplied later (List.mem_cons_of_mem _ present)) taken
          exact ⟨completeSound, completeName.trans sameName⟩

theorem Catalog.WellFormed.foundation
    {declaration : TypeDecl Rule} {layout : Layout Rule} (wellFormed : catalog.WellFormed)
    (founded : catalog.foundation label declaration = .ok layout) :
    layout.Sound catalog ∧ layout.name = declaration.name := by
  unfold Catalog.foundation at founded
  split at founded
  · cases founded
    exact ⟨.bare catalog _ _, rfl⟩
  · next baseName _ =>
      cases registered : (catalog.registry label).get? baseName with
      | none => simp [registered] at founded
      | some base =>
          simp only [registered] at founded
          split at founded
          · cases founded
          · cases founded
            have known : catalog.layout? ⟨label, baseName⟩ = some base := registered
            exact ⟨(wellFormed.sound _ _ known).derive _ _, rfl⟩

/-- Registration keeps a catalog well formed and all that it knows, whether it succeeds or not. -/
theorem Catalog.WellFormed.register
    {declaration : TypeDecl Rule} (wellFormed : catalog.WellFormed)
    (supplied : Member.Supplied catalog heap declaration.members) :
    (catalog.register label declaration).catalog.WellFormed ∧
      (catalog.register label declaration).catalog.Includes catalog := by
  unfold Catalog.register
  split
  · exact ⟨wellFormed, .refl catalog⟩
  · next unknown =>
      split
      · exact ⟨wellFormed, .refl catalog⟩
      · next foundation founded =>
          obtain ⟨foundationSound, foundationName⟩ := wellFormed.foundation founded
          split
          · exact ⟨wellFormed, .refl catalog⟩
          · next draft taken =>
              obtain ⟨sound, name⟩ :=
                Draft.sound_of_addMembers wellFormed foundationSound supplied taken
              have fresh : (catalog.registry label).contains draft.layout.name = false := by
                rw [name, foundationName]
                simpa using unknown
              exact ⟨wellFormed.addLayout sound fresh, includes_addLayout fresh⟩

end Registering

end ObjectGraph
