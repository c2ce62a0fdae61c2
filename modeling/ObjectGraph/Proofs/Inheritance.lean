import ObjectGraph.Access.Container
import ObjectGraph.Proofs.NearestMember

/-!
# What a layout takes over from its ancestors

A derived layout repeats the layout of its base and goes on from there: first come all members and
all initial values of the base, then its own. Computed members take no slot, and hidden fields keep
theirs, so members and slots are counted apart.

* The stored members have the slots of the field buffer in order, one slot each.
* Every ancestor is registered, and its members and initial values are where the derived layout
  starts. An inherited member therefore has the slot that it has in its ancestor.
* No type is its own ancestor.
-/

namespace ObjectGraph

variable {Rule : Type}

namespace Layout

/-- The stored members, hidden ones included, have the slots of the field buffer one after the
other, and no slot is left over. -/
def Numbered (layout : Layout Rule) : Prop :=
  layout.members.filterMap PlacedMember.stored? = List.range layout.fieldCount

/-- A layout starts with the members and the initial values of another one. -/
structure Continues (layout start : Layout Rule) : Prop where
  members : start.members <+: layout.members
  defaults : start.defaults <+: layout.defaults

/-- A layout consists of what its base has, if it has one, and of its own declared members in
order. The base is what is registered under the declared name, and both are reference types. -/
def BuiltOn (catalog : Catalog Rule) (label : String) (declaration : TypeDecl Rule)
    (own : List (PlacedMember Rule)) (layout : Layout Rule) : Prop :=
  match declaration.base? with
  | none => layout.ancestors = [] ∧ layout.members = own
  | some baseName => ∃ base, catalog.layout? ⟨label, baseName⟩ = some base ∧
      layout.semantics = .reference ∧ base.semantics = .reference ∧
      layout.ancestors = base.lineage ∧ layout.members = base.members ++ own ∧
      base.defaults <+: layout.defaults

/-- A layout gives an ancestor's members the places that they have in the ancestor. What a name
reaches in the layout it reaches in the ancestor too, unless a type in between declares it. -/
structure Preserves (catalog : Catalog Rule) (label : String) (layout : Layout Rule)
    (name : String) (farther : List String) (ancestor : Layout Rule) : Prop where
  registered : catalog.layout? ⟨label, name⟩ = some ancestor
  lineage : ancestor.lineage = name :: farther
  continues : layout.Continues ancestor
  reached : ∀ member placed, layout.member? member = some placed →
    placed.declaredBy ∈ ancestor.lineage → ancestor.member? member = some placed

/-- The shape of a registered layout. -/
structure Inherits (catalog : Catalog Rule) (accepted : List (Submission Rule)) (type : TypeId)
    (layout : Layout Rule) : Prop where
  name_eq : layout.name = type.name
  numbered : layout.Numbered
  built : ∃ declaration own, Submission.declaration? type accepted = some declaration ∧
    layout.base? = declaration.base? ∧ own.map PlacedMember.member = declaration.members ∧
    (∀ placed ∈ own, placed.declaredBy = type.name) ∧
    layout.BuiltOn catalog type.registry declaration own
  ancestors : ∀ nearer name farther, layout.lineage = nearer ++ name :: farther →
    ∃ ancestor, layout.Preserves catalog type.registry name farther ancestor
  /-- A step into an instance selects the same slot as in an instance of the declaring type. -/
  sameSlot : ∀ name placed, layout.member? name = some placed →
    ∀ derived original : Composite, derived.type = type →
      original.type = ⟨type.registry, placed.declaredBy⟩ →
        derived.select catalog (.member name) = .ok placed ∧
          original.select catalog (.member name) = .ok placed
  distinct : layout.lineage.Nodup

/-! ## Slots -/

theorem numbered_bare (name : String) (semantics : Semantics) :
    (bare name semantics : Layout Rule).Numbered :=
  rfl

theorem Numbered.addMember
    {layout : Layout Rule} {member : Member Rule} {defaults : List Value}
    (numbered : layout.Numbered) (filled : defaults.length = if member.isField then 1 else 0) :
    (layout.addMember member defaults).Numbered := by
  have members : (layout.addMember member defaults).members.filterMap PlacedMember.stored? =
      List.range layout.fieldCount ++
        [(⟨member, layout.name, layout.fieldCount⟩ : PlacedMember Rule)].filterMap
          PlacedMember.stored? := by
    rw [← numbered]
    exact List.filterMap_append
  have count : (layout.addMember member defaults).fieldCount =
      layout.fieldCount + defaults.length :=
    List.length_append
  rw [Numbered, members, count, filled]
  by_cases field : member.isField = true
  · simp [PlacedMember.stored?, field, List.range_succ]
  · simp [PlacedMember.stored?, field]

theorem Numbered.lt_fieldCount
    {layout : Layout Rule} (numbered : layout.Numbered) {placed : PlacedMember Rule} {slot : Nat}
    (present : placed ∈ layout.members) (stored : placed.stored? = some slot) :
    slot < layout.fieldCount := by
  have listed : slot ∈ layout.members.filterMap PlacedMember.stored? :=
    List.mem_filterMap.mpr ⟨placed, present, stored⟩
  rw [numbered] at listed
  exact List.mem_range.mp listed

/-- The slots of the stored members increase in the order of the layout. -/
theorem Numbered.pairwise_lt
    {layout : Layout Rule} (numbered : layout.Numbered) :
    layout.members.Pairwise fun first second =>
      ∀ slot, first.stored? = some slot → ∀ other, second.stored? = some other → slot < other := by
  have increasing : (layout.members.filterMap PlacedMember.stored?).Pairwise (· < ·) := by
    rw [numbered]
    exact List.pairwise_lt_range
  exact List.pairwise_filterMap.mp increasing

end Layout

/-- A stored member adds one initial value and a computed one adds none. -/
theorem Draft.length_addedDefaults
    {catalog : Catalog Rule} {label typeName : String} {member : Member Rule}
    {defaults : List Value} (added : addedDefaults catalog label typeName member = .ok defaults) :
    defaults.length = if member.isField then 1 else 0 := by
  unfold addedDefaults at added
  by_cases field : member.isField = true
  · rw [if_pos field] at added ⊢
    cases started : catalog.initialValue label typeName member with
    | error error => simp [started, Except.map] at added
    | ok value =>
        simp only [started, Except.map, Except.ok.injEq] at added
        simp [← added]
  · rw [if_neg field] at added ⊢
    cases added
    rfl

theorem Catalog.Records.numbered
    {catalog : Catalog Rule} {accepted : List (Submission Rule)}
    (records : catalog.Records accepted) {type : TypeId} {layout : Layout Rule}
    (registered : catalog.layout? type = some layout) :
    layout.Numbered := by
  apply records.layout_induction _ _ _ registered
  · exact fun name semantics => Layout.numbered_bare name semantics
  · exact fun base name semantics numbered => numbered
  · intro known label layout member defaults _ numbered added
    exact numbered.addMember (Draft.length_addedDefaults added)

/-! ## The base -/

namespace Layout

theorem Continues.refl (layout : Layout Rule) :
    layout.Continues layout :=
  ⟨List.prefix_rfl, List.prefix_rfl⟩

theorem Continues.trans
    {first second third : Layout Rule} (later : first.Continues second)
    (earlier : second.Continues third) :
    first.Continues third :=
  ⟨earlier.members.trans later.members, earlier.defaults.trans later.defaults⟩

/-- Members are added behind those that are there, in order, and so are their initial values. -/
theorem Adds.exists_own
    {catalog : Catalog Rule} {label : String} {layout complete : Layout Rule}
    {members : List (Member Rule)} (adds : Adds catalog label layout members complete) :
    layout.defaults <+: complete.defaults ∧
      ∃ own, complete.members = layout.members ++ own ∧ own.map PlacedMember.member = members ∧
        ∀ placed ∈ own, placed.declaredBy = layout.name := by
  induction adds with
  | nil layout => exact ⟨List.prefix_rfl, [], by simp⟩
  | @cons layout complete member members defaults added rest inductionHypothesis =>
      obtain ⟨laterDefaults, own, laterMembers, declared, declaredBy⟩ := inductionHypothesis
      have extended : layout.defaults <+: (layout.addMember member defaults).defaults :=
        List.prefix_append _ _
      refine ⟨extended.trans laterDefaults,
        ⟨member, layout.name, layout.defaults.length⟩ :: own, ?_, ?_, ?_⟩
      · rw [laterMembers]
        simp [Layout.addMember]
      · rw [List.map_cons, declared]
      · exact List.forall_mem_cons.mpr ⟨rfl, declaredBy⟩

theorem BuiltOn.exists_base
    {catalog : Catalog Rule} {label : String} {declaration : TypeDecl Rule}
    {own : List (PlacedMember Rule)} {layout : Layout Rule}
    (built : layout.BuiltOn catalog label declaration own) {name : String} {names : List String}
    (derived : layout.ancestors = name :: names) :
    ∃ baseName base, catalog.layout? ⟨label, baseName⟩ = some base ∧
      layout.ancestors = base.lineage ∧ layout.Continues base := by
  unfold BuiltOn at built
  cases declared : declaration.base? with
  | none =>
      rw [declared] at built
      rw [built.1] at derived
      cases derived
  | some baseName =>
      rw [declared] at built
      obtain ⟨base, registered, _, _, ancestors, members, defaults⟩ := built
      have continues : layout.Continues base :=
        ⟨by rw [members]; exact List.prefix_append _ _, defaults⟩
      exact ⟨baseName, base, registered, ancestors, continues⟩

end Layout

namespace Catalog.Records

variable {catalog : Catalog Rule} {accepted : List (Submission Rule)}

/-- A registered layout is that of its base, followed by the members that its declaration lists. -/
theorem exists_builtOn
    (records : catalog.Records accepted) {type : TypeId} {layout : Layout Rule}
    (registered : catalog.layout? type = some layout) :
    ∃ declaration own, Submission.declaration? type accepted = some declaration ∧
      layout.base? = declaration.base? ∧ own.map PlacedMember.member = declaration.members ∧
      (∀ placed ∈ own, placed.declaredBy = type.name) ∧
      layout.BuiltOn catalog type.registry declaration own := by
  obtain ⟨declaration, recorded, sameName, made⟩ := records.exists_declaration registered
  obtain ⟨earlier, foundation, included, founded, adds⟩ := made.built
  obtain ⟨name_eq, semantics_eq, ancestors_eq⟩ := adds.head_eq
  obtain ⟨defaults, own, members, declared, declaredBy⟩ := adds.exists_own
  have foundationName : foundation.name = type.name := by
    rw [← name_eq, made.name_eq, sameName]
  have ownedByType : ∀ placed ∈ own, placed.declaredBy = type.name := fun placed present =>
    (declaredBy placed present).trans foundationName
  refine ⟨declaration, own, recorded, ?_, declared, ownedByType, ?_⟩
  · rw [Layout.base?, ancestors_eq]
    rcases foundation_eq_ok founded with ⟨noBase, rfl⟩ | ⟨baseName, base, named, known, _, _, rfl⟩
    · rw [noBase]
      rfl
    · have baseName_eq := records.name_eq (included _ base known)
      rw [named, Layout.derive, Layout.lineage, List.head?_cons, baseName_eq]
  · rcases foundation_eq_ok founded with
      ⟨noBase, rfl⟩ | ⟨baseName, base, named, known, reference, baseReference, rfl⟩
    · simp only [Layout.BuiltOn, noBase]
      exact ⟨ancestors_eq, members⟩
    · simp only [Layout.BuiltOn, named]
      exact ⟨base, included _ base known, semantics_eq.trans reference, baseReference,
        ancestors_eq, members, defaults⟩

/-! ## The ancestors -/

section Ancestors

variable (records : catalog.Records accepted) {type : TypeId} {layout : Layout Rule}
  (registered : catalog.layout? type = some layout)

include records registered

theorem lineage_eq : layout.lineage = type.name :: layout.ancestors := by
  rw [Layout.lineage, records.name_eq registered]

/-- The type whose lineage comes behind the own name is the declared base, and the members of the
declaration come behind those of this type. -/
theorem exists_own
    {baseName : String} {base : Layout Rule}
    (baseRegistered : catalog.layout? ⟨type.registry, baseName⟩ = some base)
    (inherited : layout.ancestors = base.lineage) :
    ∃ declaration own, Submission.declaration? type accepted = some declaration ∧
      declaration.base? = some baseName ∧ own.map PlacedMember.member = declaration.members ∧
      layout.members = base.members ++ own := by
  obtain ⟨declaration, own, recorded, sameBase, declared, _, built⟩ :=
    records.exists_builtOn registered
  have named : declaration.base? = some baseName := by
    rw [← sameBase, Layout.base?, inherited, records.lineage_eq baseRegistered, List.head?_cons]
  simp only [Layout.BuiltOn, named] at built
  obtain ⟨found, foundRegistered, _, _, _, members, _⟩ := built
  obtain rfl : base = found := Option.some.inj (baseRegistered.symm.trans foundRegistered)
  exact ⟨declaration, own, recorded, named, declared, members⟩

/-- What holds of a layout if it holds of its base holds of every registered layout. The base has
fewer ancestors, since it is one of the ancestors itself. -/
theorem lineage_induction
    {motive : TypeId → Layout Rule → Prop}
    (root : ∀ type layout, catalog.layout? type = some layout → layout.ancestors = [] →
      motive type layout)
    (derived : ∀ type layout baseName base, catalog.layout? type = some layout →
      catalog.layout? ⟨type.registry, baseName⟩ = some base → layout.ancestors = base.lineage →
        layout.Continues base → motive ⟨type.registry, baseName⟩ base → motive type layout) :
    motive type layout := by
  induction count : layout.ancestors.length using Nat.strong_induction_on
    generalizing type layout with
  | h size inductionHypothesis =>
      cases ancestors : layout.ancestors with
      | nil => exact root type layout registered ancestors
      | cons name names =>
          obtain ⟨declaration, own, _, _, _, _, built⟩ := records.exists_builtOn registered
          obtain ⟨baseName, base, baseRegistered, inherited, continues⟩ :=
            built.exists_base ancestors
          have fewer : base.ancestors.length < size := by
            rw [← count, inherited]
            simp [Layout.lineage]
          have holds := inductionHypothesis _ fewer baseRegistered rfl
          exact derived type layout baseName base registered baseRegistered inherited continues
            holds

theorem exists_layout_of_mem_lineage :
    ∀ ancestor ∈ layout.lineage, ∃ known,
      catalog.layout? ⟨type.registry, ancestor⟩ = some known := by
  apply records.lineage_induction registered
  · intro type layout registered ancestors
    rw [records.lineage_eq registered, ancestors]
    simpa using ⟨layout, registered⟩
  · intro type layout baseName base registered _ inherited _ inBase
    rw [records.lineage_eq registered, inherited]
    exact List.forall_mem_cons.mpr ⟨⟨layout, registered⟩, inBase⟩

end Ancestors

/-- No type is among its own ancestors: when a declaration is accepted, all its ancestors are
registered and its own name is not. -/
theorem nodup_lineage
    (records : catalog.Records accepted) {type : TypeId} {layout : Layout Rule}
    (registered : catalog.layout? type = some layout) :
    layout.lineage.Nodup := by
  induction records generalizing type layout with
  | empty => simp at registered
  | refused records refusal inductionHypothesis =>
      rw [register_eq_error refusal] at registered
      exact inductionHypothesis registered
  | @accepted catalog earlier label declaration newLayout records acceptance inductionHypothesis =>
      obtain ⟨fresh, made, grown⟩ := register_eq_ok acceptance
      rw [grown, layout?_addLayout] at registered
      by_cases new : type = ⟨label, newLayout.name⟩
      · rw [if_pos new] at registered
        cases registered
        obtain ⟨known, foundation, included, founded, adds⟩ := made.built
        rw [Layout.lineage, made.name_eq, adds.head_eq.2.2]
        rcases foundation_eq_ok founded with ⟨_, rfl⟩ | ⟨baseName, base, _, present, _, _, rfl⟩
        · exact List.nodup_cons.mpr ⟨List.not_mem_nil, List.nodup_nil⟩
        · have baseRegistered := included _ base present
          refine List.nodup_cons.mpr ⟨fun own => ?_, inductionHypothesis baseRegistered⟩
          obtain ⟨other, taken⟩ :=
            records.exists_layout_of_mem_lineage baseRegistered declaration.name own
          have free := layout?_eq_none_of_not_contains fresh
          rw [free] at taken
          cases taken
      · rw [if_neg new] at registered
        exact inductionHypothesis registered

section Ancestors

variable (records : catalog.Records accepted) {type : TypeId} {layout : Layout Rule}
  (registered : catalog.layout? type = some layout)

include records registered

/-- A name that the type does not declare itself reaches what it reaches in the base. -/
theorem member?_eq_base
    {baseName : String} {base : Layout Rule}
    (baseRegistered : catalog.layout? ⟨type.registry, baseName⟩ = some base)
    (inherited : layout.ancestors = base.lineage) {name : String}
    (undeclared : Submission.member? accepted type name = none) :
    layout.member? name = base.member? name := by
  obtain ⟨declaration, base?, recorded, hasBase, lineage, found⟩ := records.member?_step registered
  have searched := found name
  rw [Submission.member?, recorded, Option.bind_some] at undeclared
  rw [undeclared] at searched
  rw [records.lineage_eq registered, inherited] at lineage
  have sameLineage := (List.cons.inj lineage).2
  cases base? with
  | none => cases sameLineage
  | some found =>
      obtain ⟨foundName, _, foundRegistered⟩ := hasBase
      have sameName : baseName = foundName := by
        have name := records.name_eq baseRegistered
        have nameFound := records.name_eq foundRegistered
        exact name.symm.trans ((List.cons.inj sameLineage).1.trans nameFound)
      rw [← sameName, baseRegistered, Option.some.injEq] at foundRegistered
      rw [foundRegistered, searched]
      rfl

/-- A member that the type does not declare itself is reached in the base. -/
theorem member?_of_base
    {baseName : String} {base : Layout Rule}
    (baseRegistered : catalog.layout? ⟨type.registry, baseName⟩ = some base)
    (inherited : layout.ancestors = base.lineage) {name : String} {placed : PlacedMember Rule}
    (reached : layout.member? name = some placed) (notOwn : placed.declaredBy ≠ type.name) :
    base.member? name = some placed := by
  obtain ⟨declaration, _, recorded, _, _, found⟩ := records.member?_step registered
  have searched := found name
  cases own : declaration.member? name with
  | some member =>
      rw [own] at searched
      obtain ⟨offset, foundOwn⟩ := searched
      rw [reached, Option.some.injEq] at foundOwn
      exact absurd (congrArg PlacedMember.declaredBy foundOwn) notOwn
  | none =>
      have undeclared : Submission.member? accepted type name = none := by
        rw [Submission.member?, recorded, Option.bind_some, own]
      rw [← records.member?_eq_base registered baseRegistered inherited undeclared, reached]

theorem preserves_self :
    layout.Preserves catalog type.registry type.name layout.ancestors layout where
  registered := registered
  lineage := records.lineage_eq registered
  continues := .refl layout
  reached _ _ found _ := found

/-- Every name in the lineage is that of an ancestor whose members are kept in place. -/
theorem exists_preserves :
    ∀ nearer name farther, layout.lineage = nearer ++ name :: farther →
      ∃ ancestor, layout.Preserves catalog type.registry name farther ancestor := by
  apply records.lineage_induction registered
  · intro type layout registered root nearer name farther split
    have itself := records.preserves_self registered
    rw [records.lineage_eq registered, root] at split
    obtain ⟨rfl, rest⟩ | ⟨_, rfl, absent⟩ := List.cons_eq_append_iff.mp split
    · cases rest
      exact ⟨layout, root ▸ itself⟩
    · simp at absent
  · intro type layout baseName base registered baseRegistered inherited continues holds nearer name
      farther split
    have distinct := records.nodup_lineage registered
    have itself := records.preserves_self registered
    rw [records.lineage_eq registered] at split distinct
    obtain ⟨rfl, rest⟩ | ⟨further, rfl, rest⟩ := List.cons_eq_append_iff.mp split
    · cases rest
      exact ⟨layout, itself⟩
    · have splitBase : base.lineage = further ++ name :: farther := by rw [← inherited, rest]
      obtain ⟨ancestor, known, lineage, baseContinues, reached⟩ :=
        holds further name farther splitBase
      refine ⟨ancestor, known, lineage, continues.trans baseContinues, ?_⟩
      intro member placed found declared
      have notOwn : placed.declaredBy ≠ type.name := by
        intro own
        rw [lineage, own] at declared
        refine (List.nodup_cons.mp distinct).1 ?_
        rw [rest]
        exact List.mem_append_right further declared
      have foundInBase :=
        records.member?_of_base registered baseRegistered inherited found notOwn
      exact reached member placed foundInBase declared

end Ancestors

end Catalog.Records

/-! ## The shape of a layout -/

namespace Layout

theorem select_of_member?
    {catalog : Catalog Rule} {owner : Composite} {layout : Layout Rule} {name : String}
    {placed : PlacedMember Rule} (registered : catalog.layout? owner.type = some layout)
    (reached : layout.member? name = some placed) :
    owner.select catalog (.member name) = .ok placed := by
  have known : catalog.layout owner.type = layout := by
    rw [Catalog.layout, registered, Option.getD_some]
  simp only [Composite.select, known, reached]

/-- Every layout that registering types leads to is built on its ancestors: it numbers its slots in
order and starts with what each of its ancestors has. -/
theorem inherits_of_records
    {catalog : Catalog Rule} {accepted : List (Submission Rule)}
    (records : catalog.Records accepted) {type : TypeId} {layout : Layout Rule}
    (registered : catalog.layout? type = some layout) :
    layout.Inherits catalog accepted type := by
  constructor
  case name_eq => exact records.name_eq registered
  case numbered => exact records.numbered registered
  case built => exact records.exists_builtOn registered
  case ancestors => exact records.exists_preserves registered
  case distinct => exact records.nodup_lineage registered
  case sameSlot =>
    intro name placed reached derived original derivedType originalType
    have along := records.member?_along_lineage registered name
    rw [reached] at along
    obtain ⟨nearer, farther, split, _, _⟩ := along
    obtain ⟨ancestor, preserves⟩ := records.exists_preserves registered _ _ _ split
    have declared : placed.declaredBy ∈ ancestor.lineage := by
      rw [preserves.lineage]
      exact List.mem_cons_self
    have inAncestor := preserves.reached name placed reached declared
    constructor
    · exact select_of_member? (derivedType ▸ registered) reached
    · exact select_of_member? (originalType ▸ preserves.registered) inAncestor

/-- A saw has four members and three slots. The number is where a thing has it, and so is the text
that the newer labels hide. -/
theorem inherits_saw :
    let accepted := [⟨"main", Tools.saw⟩, ⟨"main", Tools.tool⟩, ⟨"main", Tools.thing⟩]
    Tools.catalog.Records accepted ∧ Tools.catalog.layout? Tools.sawType = some Tools.sawLayout ∧
      Tools.sawLayout.Inherits Tools.catalog accepted Tools.sawType ∧
      Tools.sawLayout.lineage = ["Saw", "Tool", "Thing"] ∧
      Tools.sawLayout.members.map PlacedMember.stored? = [some 0, some 1, none, some 2] := by
  intro accepted
  have records : Tools.catalog.Records accepted :=
    .accepted (.accepted (.accepted .empty rfl) rfl) rfl
  exact ⟨records, Tools.layout?_saw, inherits_of_records records Tools.layout?_saw, rfl, rfl⟩

end Layout

end ObjectGraph
