import ObjectGraph.Proofs.Inheritance
import ObjectGraph.Proofs.TreeReads

/-!
# All ways to a member

A member of a composite is found by looking up its name in the index of the layout, and the fields
of a composite are listed by going through all members and keeping those that their own names reach.
Whichever way is taken, a name leads to the same member, over chains of bases of any length and for
all patterns of stored and computed members that hide each other:

* a name denotes the member that the nearest type of the lineage declares;
* if that member is stored, every operation finds its slot, and the listing has it once;
* if it is computed, it can be read and nothing else finds a slot for it, although an ancestor may
  store a field of that name;
* if there is none, all operations fail alike.
-/

namespace ObjectGraph

variable {Rule : Type}

/-- A composite of a registered type. Its buffer has one entry for each stored member of the layout,
hidden ones included. -/
structure Composite.HasLayout (catalog : Catalog Rule) (owner : Composite)
    (layout : Layout Rule) : Prop where
  registered : catalog.layout? owner.type = some layout
  length_eq : owner.fields.length = layout.fieldCount

/-- A name denotes the member that the nearest type of the lineage declares under it. -/
def Layout.Denotes (accepted : List (Submission Rule)) (label : String) (layout : Layout Rule)
    (name : String) (member : Member Rule) : Prop :=
  ∃ declaredBy,
    Submission.nearest? accepted label layout.lineage name = some (declaredBy, member)

/-- All operations that reach a member by this name find the same one. -/
structure Composite.AgreesOn [Accessors Rule] (catalog : Catalog Rule)
    (accepted : List (Submission Rule)) (owner : Composite) (layout : Layout Rule)
    (name : String) : Prop where
  fetched : ∀ heap value,
    (∃ after, owner.fetch catalog (.member name) heap = .ok ⟨value, .stored⟩ after) ↔
      owner.field? catalog name = some value
  held : ∀ value,
    (∃ index, owner.storage catalog (.member name) = .ok index ∧
      owner.fields[index]? = some value) ↔ owner.field? catalog name = some value
  listed : ∀ value,
    (name, value) ∈ owner.namedFields catalog ↔ owner.field? catalog name = some value
  once : ∀ value, owner.field? catalog name = some value →
    ((owner.namedFields catalog).map Prod.fst).count name = 1
  updated : ∀ index, owner.storage catalog (.member name) = .ok index →
    ∀ new, owner.setField? catalog name new = some (owner.setSlot index new)
  computed : ∀ heap,
    (∃ value after, owner.fetch catalog (.member name) heap = .ok ⟨value, .computed⟩ after) ↔
      ∃ member rule, layout.Denotes accepted owner.type.registry name member ∧
        member.kind = .property rule
  /-- A computed member has no storage, even if an ancestor stores a field of its name. -/
  unstored : ∀ member rule, layout.Denotes accepted owner.type.registry name member →
    member.kind = .property rule →
      owner.field? catalog name = none ∧ (∀ new, owner.setField? catalog name new = none) ∧
        owner.storage catalog (.member name) =
          .error (.detachedOwner member.type.describe (some (.member name))) ∧
        ∀ value, (name, value) ∉ owner.namedFields catalog
  /-- A name that is neither that of a field nor that of a computed member is no name at all. -/
  missing : owner.field? catalog name = none →
    (∀ member rule, layout.Denotes accepted owner.type.registry name member →
      member.kind ≠ .property rule) →
    let failure := AccessError.memberNotFound owner.type.name name
    (∀ heap, owner.fetch catalog (.member name) heap = .error failure heap) ∧
      owner.probe catalog (.member name) = .error failure ∧
      owner.storage catalog (.member name) = .error failure ∧
      ∀ new heap, owner.put catalog (.member name) new heap = .error failure heap

/-- A composite shows its members alike to all who ask for them. -/
structure Composite.AccessorsAgree [Accessors Rule] (catalog : Catalog Rule)
    (accepted : List (Submission Rule)) (owner : Composite) (layout : Layout Rule) : Prop where
  agreesOn : ∀ name, owner.AgreesOn catalog accepted layout name
  ordered : (owner.namedFields catalog).Pairwise fun first second =>
    ∀ index, owner.storage catalog (.member first.1) = .ok index →
      ∀ other, owner.storage catalog (.member second.1) = .ok other → index < other
  visible_iff : ∀ name placed,
    placed ∈ layout.visible ∧ placed.name = name ↔ layout.member? name = some placed
  distinct : (layout.visible.map PlacedMember.name).Nodup
  complete : ∀ placed ∈ layout.members, ∃ shown ∈ layout.visible, shown.name = placed.name

/-! ## Visible members -/

namespace Layout

/-- The visible members are picked by their positions, which their names lead to. -/
theorem exists_picked (layout : Layout Rule) :
    ∃ picked : List (PlacedMember Rule × Nat), picked.Sublist layout.members.zipIdx ∧
      layout.visible = picked.map Prod.fst ∧
      ∀ item ∈ picked, layout.index.get? item.1.name = some item.2 := by
  refine ⟨_, List.filter_sublist, rfl, fun item present => ?_⟩
  exact beq_iff_eq.mp (List.mem_filter.mp present).2

theorem visible_sublist (layout : Layout Rule) : layout.visible.Sublist layout.members := by
  obtain ⟨picked, sublist, visible, _⟩ := layout.exists_picked
  have all : layout.members.zipIdx.map Prod.fst = layout.members := List.zipIdx_map_fst 0 _
  rw [visible, ← all]
  exact sublist.map Prod.fst

/-- A member is visible if its own name reaches it. -/
theorem mem_visible_iff {layout : Layout Rule} {placed : PlacedMember Rule} :
    placed ∈ layout.visible ↔ layout.member? placed.name = some placed := by
  rw [visible, List.mem_map]
  constructor
  · rintro ⟨⟨other, position⟩, kept, rfl⟩
    obtain ⟨present, reached⟩ := List.mem_filter.mp kept
    rw [member?, beq_iff_eq.mp reached, Option.bind_some]
    exact List.mem_zipIdx_iff_getElem?.mp present
  · intro found
    obtain ⟨position, reached, present⟩ := Option.bind_eq_some_iff.mp found
    refine ⟨(placed, position), List.mem_filter.mpr ⟨?_, ?_⟩, rfl⟩
    · exact List.mem_zipIdx_iff_getElem?.mpr present
    · exact beq_iff_eq.mpr reached

/-- The index leads from the names of visible members back to their positions. -/
theorem nodup_visible (layout : Layout Rule) :
    (layout.visible.map PlacedMember.name).Nodup := by
  obtain ⟨picked, sublist, visible, reached⟩ := layout.exists_picked
  have increasing : (layout.members.zipIdx.map Prod.snd).Nodup := by
    rw [List.zipIdx_map_snd]
    exact List.nodup_range'
  have positions : (picked.map Prod.snd).Nodup := increasing.sublist (sublist.map Prod.snd)
  have looked : (layout.visible.map PlacedMember.name).map layout.index.get? =
      (picked.map Prod.snd).map some := by
    rw [visible, List.map_map, List.map_map, List.map_map]
    exact List.map_congr_left reached
  have distinct := positions.map (Option.some_injective Nat)
  rw [← looked] at distinct
  exact distinct.of_map

theorem Indexed.name_eq
    {layout : Layout Rule} (indexed : layout.Indexed) {name : String}
    {placed : PlacedMember Rule} (found : layout.member? name = some placed) :
    placed.name = name := by
  obtain ⟨position, reached, present⟩ := Option.bind_eq_some_iff.mp found
  obtain ⟨other, otherPresent, named⟩ := indexed name position reached
  rw [present, Option.some.injEq] at otherPresent
  rw [otherPresent, named]

/-- Every member's name is in the index. -/
def Covered (layout : Layout Rule) : Prop :=
  ∀ placed ∈ layout.members, layout.index.get? placed.name ≠ none

theorem Covered.addMember
    {layout : Layout Rule} (covered : layout.Covered) (member : Member Rule)
    (defaults : List Value) :
    (layout.addMember member defaults).Covered := by
  intro placed present
  simp only [Layout.addMember, TableOver.get?_set]
  split
  · simp
  · next other =>
      rcases List.mem_append.mp present with old | new
      · exact covered placed old
      · rw [List.mem_singleton.mp new] at other
        exact absurd rfl other

/-- Of the members of one name one is visible. -/
theorem Covered.exists_visible
    {layout : Layout Rule} (covered : layout.Covered) (indexed : layout.Indexed)
    {placed : PlacedMember Rule} (present : placed ∈ layout.members) :
    ∃ shown ∈ layout.visible, shown.name = placed.name := by
  obtain ⟨position, reached⟩ := Option.ne_none_iff_exists'.mp (covered placed present)
  obtain ⟨shown, listed, named⟩ := indexed placed.name position reached
  have found : layout.member? shown.name = some shown := by
    rw [named, member?, reached, Option.bind_some, listed]
  exact ⟨shown, mem_visible_iff.mpr found, named⟩

end Layout

theorem Catalog.Records.covered
    {catalog : Catalog Rule} {accepted : List (Submission Rule)}
    (records : catalog.Records accepted) {type : TypeId} {layout : Layout Rule}
    (registered : catalog.layout? type = some layout) :
    layout.Covered := by
  apply records.layout_induction _ _ _ registered
  · intro name semantics placed present
    simp [Layout.bare] at present
  · exact fun base name semantics covered => covered
  · exact fun known label layout member defaults _ covered _ => covered.addMember member defaults

/-! ## Names that reach a member -/

namespace Composite

variable {catalog : Catalog Rule} {owner : Composite} {layout : Layout Rule} {name : String}

/-- A new instance has the layout of its type. -/
theorem hasLayout_defaults
    {type : TypeId} (registered : catalog.layout? type = some layout) :
    (⟨type, layout.defaults⟩ : Composite).HasLayout catalog layout :=
  ⟨registered, rfl⟩

/-- Storing into a slot leaves the layout as it is. -/
theorem HasLayout.setSlot
    (has : owner.HasLayout catalog layout) (index : Nat) (value : Value) :
    (owner.setSlot index value).HasLayout catalog layout := by
  refine ⟨has.registered, ?_⟩
  rw [Composite.setSlot, List.length_set, has.length_eq]

theorem HasLayout.layout_eq (has : owner.HasLayout catalog layout) :
    catalog.layout owner.type = layout := by
  rw [Catalog.layout, has.registered, Option.getD_some]

theorem storage_eq_ok_iff_slot? {index : Nat} :
    owner.storage catalog (.member name) = .ok index ↔
      (catalog.layout owner.type).slot? name = some index := by
  rw [storage_eq_ok_iff, Layout.slot?, Option.bind_eq_some_iff]
  constructor
  · rintro ⟨placed, selected, kept⟩
    obtain ⟨other, same, found⟩ := select_eq_ok_iff.mp selected
    cases same
    exact ⟨placed, found, PlacedMember.stored?_eq_some_iff.mpr kept⟩
  · rintro ⟨placed, found, stored⟩
    exact ⟨placed, select_eq_ok_iff.mpr ⟨name, rfl, found⟩,
      PlacedMember.stored?_eq_some_iff.mp stored⟩

/-- The value of a field is what its storage holds. -/
theorem field?_eq_some_iff {value : Value} :
    owner.field? catalog name = some value ↔
      ∃ index, owner.storage catalog (.member name) = .ok index ∧
        owner.fields[index]? = some value := by
  rw [field?, Option.bind_eq_some_iff]
  simp only [storage_eq_ok_iff_slot?]

/-- The listed fields are those that can be asked for. -/
theorem mem_namedFields_iff_field?
    (indexed : (catalog.layout owner.type).Indexed) {value : Value} :
    (name, value) ∈ owner.namedFields catalog ↔ owner.field? catalog name = some value := by
  rw [mem_namedFields_iff, field?_eq_some_iff]
  constructor
  · rintro ⟨position, shown⟩
    exact shown.storage
  · rintro ⟨index, stored, present⟩
    exact exists_showsAt_of_storage indexed stored present

/-- A name that reaches no member fails everywhere. -/
theorem fails_of_unreached
    [Accessors Rule] (unreached : (catalog.layout owner.type).member? name = none) :
    let failure := AccessError.memberNotFound owner.type.name name
    (∀ heap, owner.fetch catalog (.member name) heap = .error failure heap) ∧
      owner.probe catalog (.member name) = .error failure ∧
      owner.storage catalog (.member name) = .error failure ∧
      ∀ new heap, owner.put catalog (.member name) new heap = .error failure heap := by
  intro failure
  have selected : owner.select catalog (.member name) = .error failure := by
    rw [select, unreached]
  refine ⟨fun heap => ?_, ?_, ?_, fun new heap => ?_⟩
  · rw [fetch_apply, selected]
  · rw [probe, selected]
    rfl
  · rw [storage, selected]
    rfl
  · simp only [put, Access.bind_apply, Access.lift_apply, selected]

/-- What is read out of storage stands in the slot of a stored member. -/
theorem fetch_stored_iff [Accessors Rule] {heap : Heap} {value : Value} :
    (∃ after, owner.fetch catalog (.member name) heap = .ok ⟨value, .stored⟩ after) ↔
      ∃ index, owner.storage catalog (.member name) = .ok index ∧ owner.slot index = value := by
  simp only [fetch_apply, storage_eq_ok_iff]
  cases owner.select catalog (.member name) with
  | error error => simp
  | ok placed => cases kind : placed.member.kind <;> simp [kind]

/-- What is read as a copy comes from a computed member. -/
theorem fetch_computed_iff [Accessors Rule] {heap : Heap} :
    (∃ value after, owner.fetch catalog (.member name) heap = .ok ⟨value, .computed⟩ after) ↔
      ∃ placed rule, (catalog.layout owner.type).member? name = some placed ∧
        placed.member.kind = .property rule := by
  rw [fetch_apply, select]
  cases (catalog.layout owner.type).member? name with
  | none => simp
  | some placed => cases kind : placed.member.kind <;> simp [kind]

/-- A computed member has no storage. -/
theorem unstored_of_computed
    {placed : PlacedMember Rule} {rule : Rule}
    (found : (catalog.layout owner.type).member? name = some placed)
    (kind : placed.member.kind = .property rule) :
    (catalog.layout owner.type).slot? name = none ∧
      owner.storage catalog (.member name) =
        .error (.detachedOwner placed.type.describe (some (.member name))) := by
  constructor
  · rw [Layout.slot?, found, Option.bind_some, PlacedMember.stored?, Member.isField, kind]
    rfl
  · have selected : owner.select catalog (.member name) = .ok placed :=
      select_eq_ok_iff.mpr ⟨name, rfl, found⟩
    simp only [storage, selected, bind, Except.bind, kind]
    rfl

section Agreement

variable {accepted : List (Submission Rule)} (records : catalog.Records accepted)
  (has : owner.HasLayout catalog layout)

include records has

theorem HasLayout.denotes_iff {member : Member Rule} :
    layout.Denotes accepted owner.type.registry name member ↔
      ∃ placed, (catalog.layout owner.type).member? name = some placed ∧
        placed.member = member := by
  rw [Layout.Denotes, records.nearest?_lineage has.registered, has.layout_eq]
  simp only [Option.map_eq_some_iff, Prod.mk.injEq]
  constructor
  · rintro ⟨declaredBy, placed, found, _, same⟩
    exact ⟨placed, found, same⟩
  · rintro ⟨placed, found, same⟩
    exact ⟨placed.declaredBy, placed, found, rfl, same⟩

/-- The storage of a field is inside the buffer. -/
theorem HasLayout.getElem?_of_storage
    {index : Nat} (stored : owner.storage catalog (.member name) = .ok index) :
    owner.fields[index]? = some (owner.slot index) := by
  obtain ⟨placed, selected, kept⟩ := storage_eq_ok_iff.mp stored
  obtain ⟨_, _, found⟩ := select_eq_ok_iff.mp selected
  obtain ⟨position, _, listed⟩ := Option.bind_eq_some_iff.mp found
  rw [has.layout_eq] at listed
  have inside : index < owner.fields.length := by
    rw [has.length_eq]
    exact (records.numbered has.registered).lt_fieldCount (List.mem_of_getElem? listed)
      (PlacedMember.stored?_eq_some_iff.mpr kept)
  rw [slot, List.getD_eq_getElem?_getD, List.getElem?_eq_getElem inside, Option.getD_some]

theorem HasLayout.held_iff {value : Value} :
    (∃ index, owner.storage catalog (.member name) = .ok index ∧ owner.slot index = value) ↔
      owner.field? catalog name = some value := by
  rw [field?_eq_some_iff]
  constructor
  · rintro ⟨index, stored, rfl⟩
    exact ⟨index, stored, has.getElem?_of_storage records stored⟩
  · rintro ⟨index, stored, present⟩
    rw [has.getElem?_of_storage records stored, Option.some.injEq] at present
    exact ⟨index, stored, present⟩

/-- A name that reaches a member is that of a field or of a computed member. -/
theorem HasLayout.unreached_of_missing
    (noField : owner.field? catalog name = none)
    (noProperty : ∀ member rule, layout.Denotes accepted owner.type.registry name member →
      member.kind ≠ .property rule) :
    (catalog.layout owner.type).member? name = none := by
  by_contra reached
  obtain ⟨placed, found⟩ := Option.ne_none_iff_exists'.mp reached
  cases kind : placed.member.kind with
  | property rule =>
      exact noProperty placed.member rule ((has.denotes_iff records).mpr ⟨placed, found, rfl⟩) kind
  | field =>
      have stored : owner.storage catalog (.member name) = .ok placed.offset :=
        storage_eq_ok_iff.mpr ⟨placed, select_eq_ok_iff.mpr ⟨name, rfl, found⟩, kind, rfl⟩
      have present := (has.held_iff records).mp ⟨placed.offset, stored, rfl⟩
      rw [noField] at present
      cases present

theorem HasLayout.setField?_of_storage
    {index : Nat} (stored : owner.storage catalog (.member name) = .ok index) (new : Value) :
    owner.setField? catalog name new = some (owner.setSlot index new) := by
  have inside := (List.getElem?_eq_some_iff.mp (has.getElem?_of_storage records stored)).1
  simp only [setField?, storage_eq_ok_iff_slot?.mp stored, bind, Option.bind_some, if_pos inside]

theorem HasLayout.agreesOn [Accessors Rule] (name : String) :
    owner.AgreesOn catalog accepted layout name := by
  have indexed : (catalog.layout owner.type).Indexed := records.indexed_layout owner.type
  constructor
  case fetched =>
    intro heap value
    rw [fetch_stored_iff]
    exact has.held_iff records
  case held => exact fun value => field?_eq_some_iff.symm
  case listed => exact fun value => mem_namedFields_iff_field? indexed
  case once =>
    intro value present
    have listed := (mem_namedFields_iff_field? indexed).mpr present
    have named : name ∈ (owner.namedFields catalog).map Prod.fst :=
      List.mem_map.mpr ⟨(name, value), listed, rfl⟩
    exact List.count_eq_one_of_mem (owner.nodup_namedFields catalog) named
  case updated => exact fun index stored new => has.setField?_of_storage records stored new
  case computed =>
    intro heap
    rw [fetch_computed_iff]
    constructor
    · rintro ⟨placed, rule, found, kind⟩
      exact ⟨placed.member, rule, (has.denotes_iff records).mpr ⟨placed, found, rfl⟩, kind⟩
    · rintro ⟨member, rule, denotes, kind⟩
      obtain ⟨placed, found, rfl⟩ := (has.denotes_iff records).mp denotes
      exact ⟨placed, rule, found, kind⟩
  case unstored =>
    intro member rule denotes kind
    obtain ⟨placed, found, rfl⟩ := (has.denotes_iff records).mp denotes
    obtain ⟨noSlot, refused⟩ := unstored_of_computed found kind
    have noField : owner.field? catalog name = none := by
      rw [field?, noSlot, Option.bind_none]
    refine ⟨noField, fun new => ?_, refused, fun value listed => ?_⟩
    · simp only [setField?, noSlot, bind, Option.bind_none]
    · rw [mem_namedFields_iff_field? indexed, noField] at listed
      cases listed
  case missing =>
    exact fun noField noProperty =>
      fails_of_unreached (has.unreached_of_missing records noField noProperty)

/-- The slots of the listed fields increase, since those of the members do. -/
theorem HasLayout.pairwise_namedFields :
    (owner.namedFields catalog).Pairwise fun first second =>
      ∀ index, owner.storage catalog (.member first.1) = .ok index →
        ∀ other, owner.storage catalog (.member second.1) = .ok other → index < other := by
  have increasing := (records.numbered has.registered).pairwise_lt.sublist layout.visible_sublist
  rw [namedFields, has.layout_eq, List.pairwise_filterMap]
  refine increasing.imp_of_mem fun firstVisible secondVisible before => ?_
  have slotOf : ∀ placed ∈ layout.visible, ∀ entry : String × Value,
      (do
        let index ← placed.stored?
        let value ← owner.fields[index]?
        some (placed.name, value)) = some entry →
      ∀ index, owner.storage catalog (.member entry.1) = .ok index →
        placed.stored? = some index := by
    intro placed visible entry chosen index stored
    simp only [bind, Option.bind_eq_some_iff, Option.some.injEq] at chosen
    obtain ⟨_, _, _, _, rfl⟩ := chosen
    rw [storage_eq_ok_iff_slot?, has.layout_eq, Layout.slot?, Layout.mem_visible_iff.mp visible]
      at stored
    exact stored
  intro first firstChosen second secondChosen index stored other otherStored
  exact before index (slotOf _ firstVisible first firstChosen index stored) other
    (slotOf _ secondVisible second secondChosen other otherStored)

end Agreement

/-- For every composite of a registered type, all operations by name and the listings of its fields
and of the visible members agree. -/
theorem accessorsAgree_of_records
    [Accessors Rule] {accepted : List (Submission Rule)} (records : catalog.Records accepted)
    (has : owner.HasLayout catalog layout) :
    owner.AccessorsAgree catalog accepted layout := by
  have indexed : layout.Indexed := records.indexed has.registered
  have covered : layout.Covered := records.covered has.registered
  constructor
  case agreesOn => exact fun name => has.agreesOn records name
  case ordered => exact has.pairwise_namedFields records
  case visible_iff =>
    intro name placed
    constructor
    · rintro ⟨visible, rfl⟩
      exact Layout.mem_visible_iff.mp visible
    · intro found
      have named : placed.name = name := indexed.name_eq found
      subst named
      exact ⟨Layout.mem_visible_iff.mpr found, rfl⟩
  case distinct => exact layout.nodup_visible
  case complete => exact fun placed present => covered.exists_visible indexed present

/-- A thing stores a label and a tool computes one, so that the stored text is hidden in a tool. -/
theorem accessorsAgree_tool :
    let accepted := [⟨"main", Tools.saw⟩, ⟨"main", Tools.tool⟩, ⟨"main", Tools.thing⟩]
    let type : TypeId := ⟨"main", "Tool"⟩
    let layout := Tools.catalog.layout type
    let owner := (⟨type, layout.defaults⟩ : Composite).setSlot 1 (.text "hidden")
    Tools.catalog.Records accepted ∧ owner.HasLayout Tools.catalog layout ∧
      owner.AccessorsAgree Tools.catalog accepted layout ∧
      owner.fields = [.int 0, .text "hidden"] ∧
      owner.namedFields Tools.catalog = [("id", .int 0)] ∧
      owner.fetch Tools.catalog (.member "label") .empty = .ok ⟨.int 0, .computed⟩ .empty := by
  intro accepted type layout owner
  have records : Tools.catalog.Records accepted :=
    .accepted (.accepted (.accepted .empty rfl) rfl) rfl
  have registered : Tools.catalog.layout? type = some layout := rfl
  have has : owner.HasLayout Tools.catalog layout := (hasLayout_defaults registered).setSlot 1 _
  exact ⟨records, has, accessorsAgree_of_records records has, rfl, rfl, rfl⟩

end Composite

end ObjectGraph
