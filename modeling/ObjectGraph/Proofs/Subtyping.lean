import Mathlib.Logic.Relation
import Mathlib.Order.Defs.Unbundled
import ObjectGraph.Proofs.MemberAccess

/-!
# The order of types

Whether a type derives from another one is decided by comparing names along its lineage, and no type
is looked up for that. Registration sees to it that the names can be trusted: behind a name in a
lineage comes the whole lineage of the type that is registered under this name. Deriving is
therefore the same as having the other lineage at the end of the own one, which is a partial order.

* It is the order that the declared bases generate.
* Slots for objects respect it: one type derives from another exactly when its objects fit wherever
  those of the other type do.
* What is visible in a type is visible in all types that derive from it.
-/

namespace ObjectGraph

variable {Rule : Type}

/-- A registered type is the other one or derives from it. -/
def Registry.Derives (registry : Registry Rule) (name other : String) : Prop :=
  ∃ layout, registry.get? name = some layout ∧ layout.isA other = true

/-- The recorded declaration of a type names the other one as its base. -/
def Submission.NamesBase (accepted : List (Submission Rule)) (label name base : String) : Prop :=
  ∃ declaration, declaration? ⟨label, name⟩ accepted = some declaration ∧
    declaration.base? = some base

/-- If the value is an object, it is an instance of a type of this registry. -/
def Value.InstanceOf (label : String) (value : Value) : Prop :=
  ∀ type cell, value = .shared (.object type cell) → type.registry = label

/-- The types of a registry are ordered by deriving. -/
structure Catalog.OrdersTypes (catalog : Catalog Rule) (accepted : List (Submission Rule))
    (label : String) : Prop where
  partialOrder :
    IsPartialOrder {name : String // (catalog.registry label).contains name = true}
      fun name other => (catalog.registry label).Derives name other
  contains : ∀ name other, (catalog.registry label).Derives name other →
    (catalog.registry label).contains name = true ∧ (catalog.registry label).contains other = true
  generated : ∀ name, (catalog.registry label).contains name = true → ∀ other,
    (catalog.registry label).Derives name other ↔
      Relation.ReflTransGen (Submission.NamesBase accepted label) name other
  accepts : ∀ derived, (catalog.registry label).contains derived = true → ∀ base,
    (catalog.registry label).Derives derived base ↔
      ∀ value : Value, value.InstanceOf label →
        (SlotType.object derived).accepts catalog value = true →
          (SlotType.object base).accepts catalog value = true
  visible : ∀ derived base layout baseLayout,
    (catalog.registry label).get? derived = some layout →
      (catalog.registry label).get? base = some baseLayout → layout.isA base = true →
        ∀ placed ∈ baseLayout.visible, ∃ shown ∈ layout.visible, shown.name = placed.name

/-! ## Lineages -/

theorem Layout.isA_iff_mem {layout : Layout Rule} {name : String} :
    layout.isA name = true ↔ name ∈ layout.lineage :=
  List.contains_iff_mem

namespace Catalog.Records

variable {catalog : Catalog Rule} {accepted : List (Submission Rule)}

section Lineage

variable (records : catalog.Records accepted) {type : TypeId} {layout : Layout Rule}
  (registered : catalog.layout? type = some layout)

include records registered

/-- Behind a name in a lineage comes the lineage of the type of this name. -/
theorem exists_ancestor {name : String} (derives : layout.isA name = true) :
    ∃ ancestor, catalog.layout? ⟨type.registry, name⟩ = some ancestor ∧
      ancestor.lineage <:+ layout.lineage := by
  obtain ⟨nearer, farther, split⟩ := List.append_of_mem (Layout.isA_iff_mem.mp derives)
  obtain ⟨ancestor, preserves⟩ := records.exists_preserves registered nearer name farther split
  refine ⟨ancestor, preserves.registered, ?_⟩
  rw [split, preserves.lineage]
  exact List.suffix_append nearer (name :: farther)

theorem isA_self : layout.isA type.name = true := by
  rw [Layout.isA_iff_mem, records.lineage_eq registered]
  exact List.mem_cons_self

/-- Types whose lineages contain each other have the same name. -/
theorem name_eq_of_suffix
    {other : TypeId} {otherLayout : Layout Rule}
    (otherRegistered : catalog.layout? other = some otherLayout)
    (inside : layout.lineage <:+ otherLayout.lineage)
    (around : otherLayout.lineage <:+ layout.lineage) :
    type.name = other.name := by
  have same : layout.lineage = otherLayout.lineage := inside.eq_of_length_le around.length_le
  rw [records.lineage_eq registered, records.lineage_eq otherRegistered] at same
  exact (List.cons.inj same).1

/-- The base that the declaration of a type names is registered, and its lineage comes behind the
name of the type. -/
theorem lineage_of_namesBase
    {base : String} (named : Submission.NamesBase accepted type.registry type.name base) :
    ∃ baseLayout, catalog.layout? ⟨type.registry, base⟩ = some baseLayout ∧
      layout.lineage = type.name :: baseLayout.lineage := by
  obtain ⟨declaration, recorded, baseNamed⟩ := named
  obtain ⟨own, _, ownRecorded, _, _, _, built⟩ := records.exists_builtOn registered
  have same : declaration = own := Option.some.inj (recorded.symm.trans ownRecorded)
  subst same
  simp only [Layout.BuiltOn, baseNamed] at built
  obtain ⟨baseLayout, baseRegistered, _, _, ancestors, _, _⟩ := built
  refine ⟨baseLayout, baseRegistered, ?_⟩
  rw [records.lineage_eq registered, ancestors]

/-- Names of a lineage are reached by naming bases. -/
theorem reflTransGen_of_mem_lineage :
    ∀ ancestor ∈ layout.lineage,
      Relation.ReflTransGen (Submission.NamesBase accepted type.registry) type.name ancestor := by
  apply records.lineage_induction registered
  · intro type layout registered root ancestor present
    rw [records.lineage_eq registered, root, List.mem_singleton] at present
    rw [present]
  · intro type layout baseName base registered baseRegistered inherited _ inBase ancestor present
    rw [records.lineage_eq registered, inherited] at present
    rcases List.mem_cons.mp present with rfl | farther
    · exact .refl
    · obtain ⟨declaration, _, recorded, named, _, _⟩ :=
        records.exists_own registered baseRegistered inherited
      exact .head ⟨declaration, recorded, named⟩ (inBase ancestor farther)

/-- A name reaches a member if some type of the lineage declares it. -/
theorem exists_member?_iff {name : String} :
    (∃ placed, layout.member? name = some placed) ↔
      ∃ ancestor ∈ layout.lineage,
        Submission.member? accepted ⟨type.registry, ancestor⟩ name ≠ none := by
  have searched := records.nearest?_lineage registered name
  rw [← Option.ne_none_iff_exists', ne_eq, ← Option.map_eq_none_iff, ← searched,
    Submission.nearest?, List.findSome?_eq_none_iff]
  simp

end Lineage

/-- What is visible in an ancestor is visible, although another member may be visible instead. -/
theorem exists_visible_of_suffix
    (records : catalog.Records accepted) {label derived base : String}
    {layout baseLayout : Layout Rule}
    (registered : catalog.layout? ⟨label, derived⟩ = some layout)
    (baseRegistered : catalog.layout? ⟨label, base⟩ = some baseLayout)
    (suffix : baseLayout.lineage <:+ layout.lineage) {placed : PlacedMember Rule}
    (visible : placed ∈ baseLayout.visible) :
    ∃ shown ∈ layout.visible, shown.name = placed.name := by
  have reached := (records.exists_member?_iff baseRegistered).mp
    ⟨placed, Layout.mem_visible_iff.mp visible⟩
  obtain ⟨ancestor, present, declares⟩ := reached
  obtain ⟨shown, found⟩ := (records.exists_member?_iff registered).mpr
    ⟨ancestor, suffix.subset present, declares⟩
  have named : shown.name = placed.name := (records.indexed registered).name_eq found
  rw [← named] at found
  exact ⟨shown, Layout.mem_visible_iff.mpr found, named⟩

end Catalog.Records

/-! ## Deriving -/

namespace Catalog

variable {catalog : Catalog Rule} {label name other : String}

theorem contains_iff_exists_layout? :
    (catalog.registry label).contains name = true ↔
      ∃ layout, catalog.layout? ⟨label, name⟩ = some layout :=
  Option.isSome_iff_exists

theorem derives_iff :
    (catalog.registry label).Derives name other ↔
      ∃ layout, catalog.layout? ⟨label, name⟩ = some layout ∧ layout.isA other = true :=
  Iff.rfl

/-- An object of a registry is accepted in the place of those that its type derives from. -/
theorem accepts_object_iff
    (known : (catalog.registry label).contains other = true) (cell : Nat) :
    (SlotType.object other).accepts catalog (.shared (.object ⟨label, name⟩ cell)) = true ↔
      (catalog.registry label).Derives name other := by
  rw [derives_iff]
  simp only [SlotType.accepts, Catalog.layout]
  cases registered : catalog.layout? ⟨label, name⟩ with
  | some layout => simp
  | none =>
      have notItself : ¬ (Layout.bare name .reference : Layout Rule).isA other = true := by
        intro itself
        obtain rfl : other = name := by simpa [Layout.isA, Layout.lineage, Layout.bare] using itself
        rw [contains_iff_layout?] at known
        exact known registered
      simpa using notItself

end Catalog

namespace Catalog.Records

variable {catalog : Catalog Rule} {accepted : List (Submission Rule)}
  (records : catalog.Records accepted) {label : String}

include records

theorem derives_refl
    {name : String} (known : (catalog.registry label).contains name = true) :
    (catalog.registry label).Derives name name := by
  obtain ⟨layout, registered⟩ := contains_iff_exists_layout?.mp known
  exact ⟨layout, registered, records.isA_self registered⟩

theorem derives_trans
    {first second third : String} (nearer : (catalog.registry label).Derives first second)
    (farther : (catalog.registry label).Derives second third) :
    (catalog.registry label).Derives first third := by
  obtain ⟨layout, registered, derives⟩ := derives_iff.mp nearer
  obtain ⟨middle, middleRegistered, further⟩ := derives_iff.mp farther
  obtain ⟨ancestor, ancestorRegistered, suffix⟩ := records.exists_ancestor registered derives
  obtain rfl : ancestor = middle :=
    Option.some.inj (ancestorRegistered.symm.trans middleRegistered)
  refine ⟨layout, registered, Layout.isA_iff_mem.mpr ?_⟩
  apply suffix.subset
  exact Layout.isA_iff_mem.mp further

theorem derives_antisymm
    {first second : String} (forth : (catalog.registry label).Derives first second)
    (back : (catalog.registry label).Derives second first) :
    first = second := by
  obtain ⟨layout, registered, derives⟩ := derives_iff.mp forth
  obtain ⟨other, otherRegistered, derivesBack⟩ := derives_iff.mp back
  obtain ⟨ancestor, ancestorRegistered, around⟩ := records.exists_ancestor registered derives
  obtain ⟨known, knownRegistered, inside⟩ := records.exists_ancestor otherRegistered derivesBack
  obtain rfl : ancestor = other :=
    Option.some.inj (ancestorRegistered.symm.trans otherRegistered)
  obtain rfl : known = layout := Option.some.inj (knownRegistered.symm.trans registered)
  exact records.name_eq_of_suffix registered otherRegistered inside around

theorem contains_of_derives
    {name other : String} (derives : (catalog.registry label).Derives name other) :
    (catalog.registry label).contains name = true ∧
      (catalog.registry label).contains other = true := by
  obtain ⟨layout, registered, isA⟩ := derives_iff.mp derives
  obtain ⟨ancestor, known, _⟩ := records.exists_ancestor registered isA
  constructor
  · exact contains_iff_exists_layout?.mpr ⟨layout, registered⟩
  · exact contains_iff_exists_layout?.mpr ⟨ancestor, known⟩

/-- A type derives from the base that its declaration names. -/
theorem derives_of_namesBase
    {name base : String} (known : (catalog.registry label).contains name = true)
    (named : Submission.NamesBase accepted label name base) :
    (catalog.registry label).Derives name base := by
  obtain ⟨layout, registered⟩ := contains_iff_exists_layout?.mp known
  obtain ⟨baseLayout, baseRegistered, lineage⟩ := records.lineage_of_namesBase registered named
  refine ⟨layout, registered, Layout.isA_iff_mem.mpr ?_⟩
  rw [lineage, records.lineage_eq baseRegistered]
  simp

/-- Deriving is generated by the declared bases. -/
theorem derives_iff_reflTransGen
    {name : String} (known : (catalog.registry label).contains name = true) (other : String) :
    (catalog.registry label).Derives name other ↔
      Relation.ReflTransGen (Submission.NamesBase accepted label) name other := by
  constructor
  · intro derives
    obtain ⟨layout, registered, isA⟩ := derives_iff.mp derives
    exact records.reflTransGen_of_mem_lineage registered other (Layout.isA_iff_mem.mp isA)
  · intro path
    induction path using Relation.ReflTransGen.head_induction_on with
    | refl => exact records.derives_refl known
    | @head name base named _ inductionHypothesis =>
        have derivesBase := records.derives_of_namesBase known named
        have baseKnown := (records.contains_of_derives derivesBase).2
        exact records.derives_trans derivesBase (inductionHypothesis baseKnown)

/-- A type derives from another one exactly when the values of its registry that a slot for its
objects accepts are accepted in a slot for objects of the other type. -/
theorem derives_iff_accepts
    {derived : String} (known : (catalog.registry label).contains derived = true)
    (base : String) :
    (catalog.registry label).Derives derived base ↔
      ∀ value : Value, value.InstanceOf label →
        (SlotType.object derived).accepts catalog value = true →
          (SlotType.object base).accepts catalog value = true := by
  constructor
  · intro derives value instanceOf accepted
    have baseKnown := (records.contains_of_derives derives).2
    cases value with
    | null => rfl
    | shared handle =>
        cases handle with
        | list element cell => simp [SlotType.accepts] at accepted
        | object type cell =>
            obtain rfl : type.registry = label := instanceOf type cell rfl
            have fits := (accepts_object_iff known cell).mp accepted
            apply (accepts_object_iff baseKnown cell).mpr
            exact records.derives_trans fits derives
    | _ => simp [SlotType.accepts] at accepted
  · intro respects
    obtain ⟨layout, registered⟩ := contains_iff_exists_layout?.mp known
    have instanceOf : (Value.shared (.object ⟨label, derived⟩ 0)).InstanceOf label := by
      intro type cell same
      cases same
      rfl
    have fits := (accepts_object_iff known 0).mpr (records.derives_refl known)
    have accepted := respects _ instanceOf fits
    simp only [SlotType.accepts, Catalog.layout, registered, Option.getD_some] at accepted
    exact ⟨layout, registered, accepted⟩

end Catalog.Records

/-- Whatever is registered in whichever order, deriving is a partial order of the registered types.
Slots for objects and visible names respect it. -/
theorem Catalog.ordersTypes_of_records
    {catalog : Catalog Rule} {accepted : List (Submission Rule)}
    (records : catalog.Records accepted) (label : String) :
    catalog.OrdersTypes accepted label := by
  constructor
  case partialOrder =>
    refine { refl := ?_, trans := ?_, antisymm := ?_ }
    · exact fun name => records.derives_refl name.2
    · exact fun first second third nearer farther => records.derives_trans nearer farther
    · exact fun first second forth back => Subtype.ext (records.derives_antisymm forth back)
  case contains => exact fun name other => records.contains_of_derives
  case generated => exact fun name known other => records.derives_iff_reflTransGen known other
  case accepts => exact fun derived known base => records.derives_iff_accepts known base
  case visible =>
    intro derived base layout baseLayout registered baseRegistered isA placed visible
    have derives : catalog.layout? ⟨label, derived⟩ = some layout := registered
    obtain ⟨ancestor, known, suffix⟩ := records.exists_ancestor derives isA
    obtain rfl : ancestor = baseLayout := Option.some.inj (known.symm.trans baseRegistered)
    exact records.exists_visible_of_suffix registered baseRegistered suffix visible

/-- A saw is a thing by way of a tool, so that the number of a thing is visible in a saw. -/
theorem Catalog.ordersTypes_tools :
    let accepted := [⟨"main", Tools.saw⟩, ⟨"main", Tools.tool⟩, ⟨"main", Tools.thing⟩]
    Tools.catalog.Records accepted ∧ Tools.catalog.OrdersTypes accepted "main" ∧
      (Tools.catalog.registry "main").Derives "Saw" "Thing" ∧
      ¬ (Tools.catalog.registry "main").Derives "Thing" "Saw" ∧
      ∃ shown ∈ Tools.sawLayout.visible, shown.name = "id" := by
  intro accepted
  have records : Tools.catalog.Records accepted :=
    .accepted (.accepted (.accepted .empty rfl) rfl) rfl
  have orders := ordersTypes_of_records records "main"
  have derives : (Tools.catalog.registry "main").Derives "Saw" "Thing" := ⟨_, rfl, rfl⟩
  refine ⟨records, orders, derives, ?_, ?_⟩
  · rintro ⟨layout, registered, isA⟩
    cases registered
    cases isA
  · obtain ⟨saw, sawRegistered, isA⟩ := derives
    cases sawRegistered
    obtain ⟨shown, visible, named⟩ :=
      orders.visible "Saw" "Thing" _ _ rfl rfl isA _ List.mem_cons_self
    exact ⟨shown, visible, named⟩

end ObjectGraph
