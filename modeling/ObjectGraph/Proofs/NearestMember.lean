import ObjectGraph.Examples.Tools
import ObjectGraph.Proofs.Declarations

/-!
# Names reach the nearest declaration

A layout finds members through an index that it took over from its base and that each member of its
own has overwritten. The search that the index stands for goes through declarations: first that of
the type itself, then that of its base, and so on. Both agree for every registered type, over
chains of bases of any length, and the name of the declaring type comes out right as well.
-/

namespace ObjectGraph

variable {Rule : Type}

/-- The layout of the base that a declaration names, if it names one. -/
def TypeDecl.HasBase (catalog : Catalog Rule) (label : String) (declaration : TypeDecl Rule) :
    Option (Layout Rule) → Prop
  | none => declaration.base? = none
  | some base => ∃ baseName, declaration.base? = some baseName ∧
      catalog.layout? ⟨label, baseName⟩ = some base

/-- The first of these types that declares a name itself, with the member that it declares. -/
def Submission.nearest? (accepted : List (Submission Rule)) (label : String)
    (lineage : List String) (name : String) : Option (String × Member Rule) :=
  lineage.findSome? fun ancestor =>
    (member? accepted ⟨label, ancestor⟩ name).map fun member => (ancestor, member)

/-- A layout finds for a name what the search through recorded declarations finds. -/
structure Layout.FindsNearest (catalog : Catalog Rule) (accepted : List (Submission Rule))
    (type : TypeId) (layout : Layout Rule) (name : String) : Prop where
  step : ∃ declaration base?, Submission.declaration? type accepted = some declaration ∧
    declaration.HasBase catalog type.registry base? ∧
    layout.lineage = type.name :: (base?.map Layout.lineage).getD [] ∧
    match declaration.member? name with
    | some member => ∃ offset, layout.member? name = some ⟨member, type.name, offset⟩
    | none => layout.member? name = base?.bind fun base => base.member? name
  unreached : layout.member? name = none ↔ ∀ ancestor ∈ layout.lineage,
    Submission.member? accepted ⟨type.registry, ancestor⟩ name = none
  /-- What is reached is declared by its declaring type, and no nearer type declares the name. -/
  nearest : ∀ placed, layout.member? name = some placed →
    ∃ nearer farther, layout.lineage = nearer ++ placed.declaredBy :: farther ∧
      (∀ closer ∈ nearer, Submission.member? accepted ⟨type.registry, closer⟩ name = none) ∧
      Submission.member? accepted ⟨type.registry, placed.declaredBy⟩ name = some placed.member

/-! ## The index -/

namespace Layout

/-- Every name in the index leads to a member of this name. -/
def Indexed (layout : Layout Rule) : Prop :=
  ∀ name position, layout.index.get? name = some position →
    ∃ placed, layout.members[position]? = some placed ∧ placed.name = name

theorem indexed_bare (name : String) (semantics : Semantics) :
    (bare name semantics : Layout Rule).Indexed := by
  intro other position found
  simp [bare] at found

theorem Indexed.addMember
    {layout : Layout Rule} (indexed : layout.Indexed) (member : Member Rule)
    (defaults : List Value) :
    (layout.addMember member defaults).Indexed := by
  intro name position found
  simp only [Layout.addMember, TableOver.get?_set] at found ⊢
  split at found
  · next same =>
      cases found
      exact ⟨⟨member, layout.name, layout.defaults.length⟩, by simp, same.symm⟩
  · obtain ⟨placed, present, sameName⟩ := indexed name position found
    have inside := (List.getElem?_eq_some_iff.mp present).1
    exact ⟨placed, by rw [List.getElem?_append_left inside, present], sameName⟩

/-- A new member is reached by its name, and all other names reach what they reached. -/
theorem Indexed.member?_addMember
    {layout : Layout Rule} (indexed : layout.Indexed) (member : Member Rule)
    (defaults : List Value) (name : String) :
    (layout.addMember member defaults).member? name =
      if name = member.name then some ⟨member, layout.name, layout.defaults.length⟩
      else layout.member? name := by
  simp only [member?, Layout.addMember, TableOver.get?_set]
  by_cases same : name = member.name
  · simp [same]
  · rw [if_neg same, if_neg same]
    cases found : layout.index.get? name with
    | none => rfl
    | some position =>
        obtain ⟨placed, present, _⟩ := indexed name position found
        have inside := (List.getElem?_eq_some_iff.mp present).1
        rw [Option.bind_some, Option.bind_some, List.getElem?_append_left inside]

/-- Of the members that are added each is reached by its own name, and all other names reach what
they reached. -/
theorem Adds.member?_eq
    {catalog : Catalog Rule} {label : String} {layout complete : Layout Rule}
    {members : List (Member Rule)} (adds : Adds catalog label layout members complete)
    (indexed : layout.Indexed) (distinct : (members.map Member.name).Nodup) (name : String) :
    match members.find? fun member => member.name == name with
    | some member => ∃ offset, complete.member? name = some ⟨member, layout.name, offset⟩
    | none => complete.member? name = layout.member? name := by
  induction adds with
  | nil layout => rfl
  | @cons layout complete member members defaults added rest inductionHypothesis =>
      obtain ⟨fresh, distinctRest⟩ := List.nodup_cons.mp distinct
      have later := inductionHypothesis (indexed.addMember member defaults) distinctRest
      rw [indexed.member?_addMember] at later
      by_cases same : member.name = name
      · have absent : members.find? (fun other => other.name == name) = none := by
          rw [List.find?_eq_none]
          intro other present sameName
          refine fresh (List.mem_map.mpr ⟨other, present, ?_⟩)
          rw [same]
          simpa using sameName
        rw [absent] at later
        simp only [List.find?_cons, same, beq_self_eq_true] at later ⊢
        exact ⟨layout.defaults.length, by simpa [same] using later⟩
      · have different : (member.name == name) = false := beq_eq_false_iff_ne.mpr same
        rw [if_neg (Ne.symm same)] at later
        simp only [List.find?_cons, different]
        exact later

end Layout

namespace Catalog.Records

variable {catalog : Catalog Rule} {accepted : List (Submission Rule)}
  (records : catalog.Records accepted) {type : TypeId} {layout : Layout Rule}
  (registered : catalog.layout? type = some layout)

include records registered

theorem indexed : layout.Indexed := by
  refine records.layout_induction ?_ ?_ ?_ registered
  · exact fun name semantics => Layout.indexed_bare name semantics
  · exact fun base name semantics indexed => indexed
  · exact fun known label layout member defaults _ indexed _ => indexed.addMember member defaults

/-- One step of the search: a declaration of the type itself comes first, then the base is asked. -/
theorem member?_step :
    ∃ declaration base?, Submission.declaration? type accepted = some declaration ∧
      declaration.HasBase catalog type.registry base? ∧
      layout.lineage = type.name :: (base?.map Layout.lineage).getD [] ∧
      ∀ name,
        match declaration.member? name with
        | some member => ∃ offset, layout.member? name = some ⟨member, type.name, offset⟩
        | none => layout.member? name = base?.bind fun base => base.member? name := by
  obtain ⟨declaration, recorded, sameName, made⟩ := records.exists_declaration registered
  obtain ⟨earlier, foundation, included, founded, adds⟩ := made.built
  obtain ⟨name_eq, _, ancestors_eq⟩ := adds.head_eq
  have layoutName := records.name_eq registered
  rcases foundation_eq_ok founded with ⟨noBase, rfl⟩ | ⟨baseName, base, named, known, _, _, rfl⟩
  · refine ⟨declaration, none, recorded, noBase, ?_, fun name => ?_⟩
    · rw [Layout.lineage, layoutName, ancestors_eq]
      rfl
    · have found := adds.member?_eq (Layout.indexed_bare _ _) made.distinct name
      rw [← sameName]
      exact found
  · have registeredBase := included _ base known
    refine ⟨declaration, some base, recorded, ⟨baseName, named, registeredBase⟩, ?_, fun name => ?_⟩
    · rw [Layout.lineage, layoutName, ancestors_eq]
      rfl
    · have indexed : base.Indexed := records.indexed registeredBase
      have found := adds.member?_eq indexed made.distinct name
      rw [← sameName]
      exact found

/-! ## The search along the lineage -/

/-- What a name reaches is declared by the type or ancestor named by its declaring type, and by
none that is nearer. A name that reaches nothing is declared by none of them. -/
theorem member?_along_lineage (name : String) :
    match layout.member? name with
    | none => ∀ ancestor ∈ layout.lineage,
        Submission.member? accepted ⟨type.registry, ancestor⟩ name = none
    | some placed => ∃ nearer farther, layout.lineage = nearer ++ placed.declaredBy :: farther ∧
        (∀ closer ∈ nearer, Submission.member? accepted ⟨type.registry, closer⟩ name = none) ∧
        Submission.member? accepted ⟨type.registry, placed.declaredBy⟩ name =
          some placed.member := by
  induction count : layout.ancestors.length using Nat.strong_induction_on
    generalizing type layout with
  | h size inductionHypothesis =>
      obtain ⟨declaration, base?, recorded, hasBase, lineage_eq, found⟩ :=
        records.member?_step registered
      have declared (other : String) :
          Submission.member? accepted type other = declaration.member? other := by
        rw [Submission.member?, recorded, Option.bind_some]
      have reached := found name
      cases own : declaration.member? name with
      | some member =>
          rw [own] at reached
          obtain ⟨offset, reached⟩ := reached
          rw [reached]
          exact ⟨[], _, lineage_eq, by simp, by rw [← own]; exact declared name⟩
      | none =>
          rw [own] at reached
          have notOwn : Submission.member? accepted type name = none := (declared name).trans own
          cases base? with
          | none =>
              have unreached : layout.member? name = none := reached
              rw [unreached, lineage_eq]
              simpa using notOwn
          | some base =>
              obtain ⟨baseName, _, known⟩ := hasBase
              have inherited : layout.member? name = base.member? name := reached
              have ancestors_eq : layout.ancestors = base.lineage := (List.cons.inj lineage_eq).2
              have fewer : base.ancestors.length < size := by
                rw [← count, ancestors_eq]
                simp [Layout.lineage]
              have further := inductionHypothesis _ fewer known rfl
              rw [inherited, lineage_eq]
              cases reachedInBase : base.member? name with
              | none =>
                  rw [reachedInBase] at further
                  exact List.forall_mem_cons.mpr ⟨notOwn, further⟩
              | some placed =>
                  rw [reachedInBase] at further
                  obtain ⟨nearer, farther, split, undeclared, declares⟩ := further
                  refine ⟨type.name :: nearer, farther, ?_, ?_, declares⟩
                  · simp [split]
                  · exact List.forall_mem_cons.mpr ⟨notOwn, undeclared⟩

/-- The search finds for a name what the name reaches, and the type that declares it. -/
theorem nearest?_lineage (name : String) :
    Submission.nearest? accepted type.registry layout.lineage name =
      (layout.member? name).map fun placed => (placed.declaredBy, placed.member) := by
  have along := records.member?_along_lineage registered name
  cases reached : layout.member? name with
  | none =>
      rw [reached] at along
      rw [Submission.nearest?, Option.map_none, List.findSome?_eq_none_iff]
      intro ancestor present
      rw [along ancestor present, Option.map_none]
  | some placed =>
      rw [reached] at along
      obtain ⟨nearer, farther, split, undeclared, declares⟩ := along
      have notNearer : Submission.nearest? accepted type.registry nearer name = none := by
        rw [Submission.nearest?, List.findSome?_eq_none_iff]
        intro closer present
        rw [undeclared closer present, Option.map_none]
      rw [Submission.nearest?] at notNearer ⊢
      rw [split, List.findSome?_append, notNearer, List.findSome?_cons, declares]
      rfl

end Catalog.Records

/-- For every registered type and every name the index agrees with the search through declarations,
whatever kinds and visibilities the members have. -/
theorem Layout.findsNearest_of_records
    {catalog : Catalog Rule} {accepted : List (Submission Rule)}
    (records : catalog.Records accepted) {type : TypeId} {layout : Layout Rule}
    (registered : catalog.layout? type = some layout) (name : String) :
    layout.FindsNearest catalog accepted type name := by
  obtain ⟨declaration, base?, recorded, hasBase, lineage_eq, found⟩ :=
    records.member?_step registered
  have along := records.member?_along_lineage registered name
  constructor
  · exact ⟨declaration, base?, recorded, hasBase, lineage_eq, found name⟩
  · constructor
    · intro unreached
      rwa [unreached] at along
    · intro undeclared
      cases reached : layout.member? name with
      | none => rfl
      | some placed =>
          rw [reached] at along
          obtain ⟨nearer, farther, split, _, declares⟩ := along
          rw [undeclared placed.declaredBy (by simp [split])] at declares
          cases declares
  · intro placed reached
    rwa [reached] at along

/-- The number of a saw is found two generations up, and its label is its own. -/
theorem Layout.findsNearest_saw :
    let accepted := [⟨"main", Tools.saw⟩, ⟨"main", Tools.tool⟩, ⟨"main", Tools.thing⟩]
    Tools.catalog.Records accepted ∧ Tools.catalog.layout? Tools.sawType = some Tools.sawLayout ∧
      (∀ name, Tools.sawLayout.FindsNearest Tools.catalog accepted Tools.sawType name) ∧
      (Tools.sawLayout.member? "id").map PlacedMember.declaredBy = some "Thing" ∧
      (Tools.sawLayout.member? "label").map PlacedMember.declaredBy = some "Saw" := by
  intro accepted
  have records : Tools.catalog.Records accepted :=
    .accepted (.accepted (.accepted .empty rfl) rfl) rfl
  exact ⟨records, Tools.layout?_saw, findsNearest_of_records records Tools.layout?_saw, rfl, rfl⟩

end ObjectGraph
