import ObjectGraph.Proofs.Acceptance
import ObjectGraph.Proofs.Inheritance

/-!
# What a registration reports

Whether a declared member hides an inherited one is looked up in the index that the members declared
before it have overwritten already. No name is taken twice, so that a name still reaches what it
reaches in the base when it is looked up.

* The members that hide something are reported in order, each with the nearest ancestor that
  declares its name, until a member is refused. The type itself is never reported.
* A summary comes last, and only if the type is registered. It counts hidden members and fields too.
* Nothing is reported of a declaration that is refused for its name or its base.
-/

namespace ObjectGraph

variable {Rule : Type}

/-- The names of the types that the declaration derives from, nearest first. -/
def TypeDecl.ancestors (catalog : Catalog Rule) (label : String) (declaration : TypeDecl Rule) :
    List String :=
  match declaration.base? with
  | none => []
  | some baseName => (catalog.layout ⟨label, baseName⟩).lineage

namespace Submission

/-- The record of a member whose name one of the ancestors declares. -/
def hiding? (accepted : List (Submission Rule)) (label : String) (ancestors : List String)
    (typeName : String) (member : Member Rule) : Option LogRecord :=
  (nearest? accepted label ancestors member.name).map fun nearest =>
    .hidden typeName member.name nearest.1

/-- All members that the types of a lineage declare, base first. -/
def members (accepted : List (Submission Rule)) (label : String) (lineage : List String) :
    List (Member Rule) :=
  lineage.reverse.flatMap fun name =>
    ((declaration? ⟨label, name⟩ accepted).map TypeDecl.members).getD []

def summary (accepted : List (Submission Rule)) (label : String) (ancestors : List String)
    (declaration : TypeDecl Rule) : LogRecord :=
  let all := members accepted label ancestors ++ declaration.members
  .registered declaration.name declaration.semantics all.length (all.countP Member.isField)

end Submission

/-- What is to be reported of a registration, depending on how it ends. -/
inductive Catalog.Reports (catalog : Catalog Rule) (accepted : List (Submission Rule))
    (label : String) (declaration : TypeDecl Rule) :
    Except RegistrationError (Layout Rule) → List LogRecord → Prop
  | known {layout : Layout Rule}
      (known : catalog.layout? ⟨label, declaration.name⟩ = some layout) :
      Reports catalog accepted label declaration (.error (.duplicateType declaration.name)) []
  | baseless {error : RegistrationError}
      (fresh : catalog.layout? ⟨label, declaration.name⟩ = none)
      (baseless : declaration.Baseless catalog label error) :
      Reports catalog accepted label declaration (.error error) []
  | stopped {error : RegistrationError} {before after : List (Member Rule)} {member : Member Rule}
      (fresh : catalog.layout? ⟨label, declaration.name⟩ = none)
      (derivable : declaration.Derivable catalog label)
      (split : declaration.members = before ++ member :: after)
      (declarable : Member.Declarable catalog label [] before)
      (violated : member.Violates catalog label declaration.name (before.map Member.name) error) :
      Reports catalog accepted label declaration (.error error)
        (before.filterMap (Submission.hiding? accepted label
          (declaration.ancestors catalog label) declaration.name))
  | complete {layout : Layout Rule} (acceptable : declaration.Acceptable catalog label) :
      Reports catalog accepted label declaration (.ok layout)
        (declaration.members.filterMap (Submission.hiding? accepted label
            (declaration.ancestors catalog label) declaration.name) ++
          [Submission.summary accepted label (declaration.ancestors catalog label) declaration])

/-- The records of a registration tell the truth. -/
structure Catalog.ReportsHiding (catalog : Catalog Rule) (accepted : List (Submission Rule))
    (label : String) (declaration : TypeDecl Rule) : Prop where
  reports : catalog.Reports accepted label declaration
    (catalog.register label declaration).outcome (catalog.register label declaration).log
  summaries : ((catalog.register label declaration).log.filter
      fun record => record.level == "DEBUG").length =
    if (catalog.register label declaration).outcome.isOk then 1 else 0
  ancestor : ∀ typeName member declaredBy,
    .hidden typeName member declaredBy ∈ (catalog.register label declaration).log →
      typeName = declaration.name ∧ declaredBy ∈ declaration.ancestors catalog label ∧
        declaredBy ≠ declaration.name

/-! ## The draft -/

/-- The record of a member whose name reaches a member of the layout. -/
def Layout.hiding? (layout : Layout Rule) (member : Member Rule) : Option LogRecord :=
  (layout.member? member.name).map fun inherited =>
    .hidden layout.name member.name inherited.declaredBy

namespace Draft

/-- Names that are not declared yet reach what they reach in the foundation. -/
structure BuildsOn (foundation : Layout Rule) (draft : Draft Rule) : Prop where
  name_eq : draft.layout.name = foundation.name
  indexed : draft.layout.Indexed
  untouched : ∀ name, name ∉ draft.declared →
    draft.layout.member? name = foundation.member? name

variable {catalog : Catalog Rule} {label : String} {foundation : Layout Rule}
  {draft extended : Draft Rule} {member : Member Rule}

theorem addMember_eq_ok
    (taken : draft.addMember catalog label member = .ok extended) :
    member.name ∉ draft.declared ∧ ∃ defaults,
      extended = ⟨draft.layout.addMember member defaults, draft.declared ++ [member.name],
        draft.log ++ (draft.layout.hiding? member).toList⟩ := by
  simp only [addMember, bind, Except.bind, pure, Except.pure] at taken
  split at taken
  · cases taken
  · next fresh =>
      split at taken
      · cases taken
      · next defaults _ =>
          cases taken
          refine ⟨by simpa using fresh, defaults, ?_⟩
          unfold Layout.hiding?
          cases draft.layout.member? member.name with
          | none => rfl
          | some inherited => rfl

/-- A member is compared with the members of the foundation only. -/
theorem BuildsOn.addMember
    (builds : draft.BuildsOn foundation)
    (taken : draft.addMember catalog label member = .ok extended) :
    extended.BuildsOn foundation ∧
      extended.log = draft.log ++ (foundation.hiding? member).toList := by
  obtain ⟨fresh, defaults, rfl⟩ := addMember_eq_ok taken
  constructor
  · constructor
    · exact builds.name_eq
    · exact builds.indexed.addMember member defaults
    · intro name undeclared
      simp only [List.mem_append, List.mem_singleton, not_or] at undeclared
      rw [builds.indexed.member?_addMember, if_neg undeclared.2]
      exact builds.untouched name undeclared.1
  · rw [Layout.hiding?, Layout.hiding?, builds.name_eq, builds.untouched member.name fresh]

/-- The members in front of the first refused one are compared with the foundation in order. -/
theorem BuildsOn.exists_taken
    (builds : draft.BuildsOn foundation) (catalog : Catalog Rule) (label : String)
    (members : List (Member Rule)) :
    ∃ before after, members = before ++ after ∧
      (addMembers catalog label draft members).1.log =
        draft.log ++ before.filterMap foundation.hiding? ∧
      Member.Declarable catalog label draft.declared before ∧
      match (addMembers catalog label draft members).2 with
      | none => after = []
      | some error => ∃ member rest, after = member :: rest ∧
          member.Violates catalog label foundation.name
            (draft.declared ++ before.map Member.name) error := by
  have nothing : ∀ declared, Member.Declarable catalog label declared [] :=
    fun declared => ⟨by simp, .nil, by simp⟩
  induction members generalizing draft with
  | nil => exact ⟨[], [], rfl, by simp [addMembers], nothing _, rfl⟩
  | cons member members inductionHypothesis =>
      rw [addMembers]
      rcases draft.addMember_eq catalog label member with
        ⟨error, taken, violated⟩ | ⟨extended, taken, admissible, _, declared⟩
      · simp only [taken]
        rw [builds.name_eq] at violated
        exact ⟨[], member :: members, rfl, by simp, nothing _, member, members, rfl,
          by simpa using violated⟩
      · obtain ⟨buildsOn, log⟩ := builds.addMember taken
        obtain ⟨before, after, rfl, laterLog, declarable, ending⟩ :=
          inductionHypothesis buildsOn
        simp only [taken]
        refine ⟨member :: before, after, rfl, ?_, ?_, ?_⟩
        · rw [laterLog, log, List.append_assoc]
          cases hides : foundation.hiding? member <;> simp [hides]
        · rw [declared] at declarable
          exact Member.declarable_cons_iff.mpr ⟨admissible, declarable⟩
        · simpa [declared] using ending

end Draft

/-! ## The declared members of a lineage -/

/-- Stored fields are counted by their slots. -/
theorem Layout.Numbered.fieldCount_eq
    {layout : Layout Rule} (numbered : layout.Numbered) :
    layout.fieldCount = (layout.members.map PlacedMember.member).countP Member.isField := by
  have slots := congrArg List.length numbered
  rw [List.length_range, List.length_filterMap_eq_countP] at slots
  rw [← slots, List.countP_map]
  apply List.countP_congr
  intro placed _
  by_cases field : placed.member.isField = true
  · simp [PlacedMember.stored?, field]
  · simp [PlacedMember.stored?, field]

namespace Submission

variable {accepted : List (Submission Rule)} {label : String}

theorem members_nil : members accepted label [] = [] :=
  rfl

theorem members_cons
    {name : String} {declaration : TypeDecl Rule}
    (recorded : declaration? ⟨label, name⟩ accepted = some declaration) (ancestors : List String) :
    members accepted label (name :: ancestors) =
      members accepted label ancestors ++ declaration.members := by
  simp [members, recorded]

end Submission

namespace Catalog.Records

variable {catalog : Catalog Rule} {accepted : List (Submission Rule)}

/-- A layout has all members that the types of its lineage declare. -/
theorem members_eq
    (records : catalog.Records accepted) {type : TypeId} {layout : Layout Rule}
    (registered : catalog.layout? type = some layout) :
    layout.members.map PlacedMember.member =
      Submission.members accepted type.registry layout.lineage := by
  apply records.lineage_induction registered
  · intro type layout registered root
    obtain ⟨declaration, own, recorded, noBase, declared, _, built⟩ :=
      records.exists_builtOn registered
    have unnamed : declaration.base? = none := by rw [← noBase, Layout.base?, root, List.head?_nil]
    simp only [Layout.BuiltOn, unnamed] at built
    rw [records.lineage_eq registered, root, Submission.members_cons recorded,
      Submission.members_nil, List.nil_append, built.2, declared]
  · intro type layout baseName base registered baseRegistered inherited _ inBase
    obtain ⟨declaration, own, recorded, _, declared, members⟩ :=
      records.exists_own registered baseRegistered inherited
    rw [records.lineage_eq registered, inherited, Submission.members_cons recorded, members,
      List.map_append, inBase, declared]

/-! ## The foundation -/

variable (records : catalog.Records accepted) {label : String} {declaration : TypeDecl Rule}
  {foundation : Layout Rule} (founded : catalog.foundation label declaration = .ok foundation)

include records founded

/-- The foundation is made of what the ancestors declare. -/
theorem foundation_eq_ancestors :
    foundation.name = declaration.name ∧ foundation.semantics = declaration.semantics ∧
      foundation.members.map PlacedMember.member =
        Submission.members accepted label (declaration.ancestors catalog label) ∧
      ∀ name, Submission.nearest? accepted label (declaration.ancestors catalog label) name =
        (foundation.member? name).map fun placed => (placed.declaredBy, placed.member) := by
  rcases foundation_eq_ok founded with ⟨noBase, rfl⟩ | ⟨baseName, base, named, known, _, _, rfl⟩
  · simp only [TypeDecl.ancestors, noBase]
    exact ⟨rfl, rfl, rfl, fun name => rfl⟩
  · have ancestors : declaration.ancestors catalog label = base.lineage := by
      simp only [TypeDecl.ancestors, named, Catalog.layout, known, Option.getD_some]
    rw [ancestors]
    exact ⟨rfl, rfl, records.members_eq known, records.nearest?_lineage known⟩

theorem indexed_foundation : foundation.Indexed := by
  rcases foundation_eq_ok founded with ⟨_, rfl⟩ | ⟨_, base, _, known, _, _, rfl⟩
  · exact Layout.indexed_bare _ _
  · have indexed : base.Indexed := records.indexed known
    exact indexed

theorem hiding?_foundation :
    foundation.hiding? =
      Submission.hiding? accepted label (declaration.ancestors catalog label) declaration.name := by
  obtain ⟨name, _, _, nearest⟩ := records.foundation_eq_ancestors founded
  funext member
  rw [Layout.hiding?, Submission.hiding?, nearest, name, Option.map_map]
  rfl

end Catalog.Records

/-! ## The records -/

namespace Submission

variable {accepted : List (Submission Rule)} {label typeName : String} {ancestors : List String}

theorem exists_of_hiding?
    {member : Member Rule} {record : LogRecord}
    (hides : hiding? accepted label ancestors typeName member = some record) :
    ∃ declaredBy ∈ ancestors, record = .hidden typeName member.name declaredBy := by
  obtain ⟨nearest, found, rfl⟩ := Option.map_eq_some_iff.mp hides
  obtain ⟨ancestor, present, declares⟩ := List.exists_of_findSome?_eq_some found
  obtain ⟨_, _, rfl⟩ := Option.map_eq_some_iff.mp declares
  exact ⟨ancestor, present, rfl⟩

theorem mem_filterMap_hiding?
    {members : List (Member Rule)} {record : LogRecord}
    (present : record ∈ members.filterMap (hiding? accepted label ancestors typeName)) :
    ∃ member declaredBy, declaredBy ∈ ancestors ∧ record = .hidden typeName member declaredBy := by
  obtain ⟨member, _, hides⟩ := List.mem_filterMap.mp present
  obtain ⟨declaredBy, isAncestor, rfl⟩ := exists_of_hiding? hides
  exact ⟨member.name, declaredBy, isAncestor, rfl⟩

theorem filter_hiding?_eq_nil (members : List (Member Rule)) :
    (members.filterMap (hiding? accepted label ancestors typeName)).filter
      (fun record => record.level == "DEBUG") = [] := by
  rw [List.filter_eq_nil_iff]
  intro record present
  obtain ⟨member, declaredBy, _, rfl⟩ := mem_filterMap_hiding? present
  simp [LogRecord.level]

end Submission

section Records

variable {catalog : Catalog Rule} {accepted : List (Submission Rule)} {label : String}
  {declaration : TypeDecl Rule}

theorem Catalog.Records.summary_eq
    (records : catalog.Records accepted) {layout : Layout Rule}
    (acceptance : (catalog.register label declaration).outcome = .ok layout) :
    .registered layout.name layout.semantics layout.members.length layout.fieldCount =
      Submission.summary accepted label (declaration.ancestors catalog label) declaration := by
  obtain ⟨_, _, ⟨foundation, founded, adds⟩, _⟩ := register_eq_addLayout acceptance
  obtain ⟨name, semantics, inherited, _⟩ := records.foundation_eq_ancestors founded
  obtain ⟨layoutName, layoutSemantics, _⟩ := adds.head_eq
  obtain ⟨_, own, split, declared, _⟩ := adds.exists_own
  have members : layout.members.map PlacedMember.member =
      Submission.members accepted label (declaration.ancestors catalog label) ++
        declaration.members := by
    rw [split, List.map_append, inherited, declared]
  have registered : (catalog.register label declaration).catalog.layout?
      ⟨label, declaration.name⟩ = some layout := by
    rw [layout?_register acceptance, if_pos rfl]
  have fields := ((Records.accepted records acceptance).numbered registered).fieldCount_eq
  have total := congrArg List.length members
  rw [List.length_map] at total
  rw [Submission.summary, fields, total, members, layoutName, layoutSemantics, name, semantics]

/-- The records of a registration are those that its end calls for. -/
theorem Catalog.Records.reports
    (records : catalog.Records accepted) (label : String) (declaration : TypeDecl Rule) :
    catalog.Reports accepted label declaration (catalog.register label declaration).outcome
      (catalog.register label declaration).log := by
  cases known : catalog.layout? ⟨label, declaration.name⟩ with
  | some layout =>
      rw [register_of_known known]
      exact .known known
  | none =>
      rcases catalog.foundation_eq label declaration with
        ⟨error, founded, baseless⟩ | ⟨foundation, founded, derivable, name⟩
      · rw [register_of_fresh known, founded]
        exact .baseless known baseless
      · have start : Draft.BuildsOn foundation ⟨foundation, [], []⟩ :=
          ⟨rfl, records.indexed_foundation founded, fun _ _ => rfl⟩
        obtain ⟨before, after, split, log, declarable, ending⟩ :=
          start.exists_taken catalog label declaration.members
        rw [records.hiding?_foundation founded, List.nil_append] at log
        have registration := register_of_fresh known
        rw [founded] at registration
        rcases taken : Draft.addMembers catalog label ⟨foundation, [], []⟩ declaration.members with
          ⟨draft, none | error⟩
        · simp only [taken] at registration log ending
          rw [ending, List.append_nil] at split
          rw [← split] at declarable log
          have acceptance : (catalog.register label declaration).outcome = .ok draft.layout := by
            rw [registration]
          rw [records.summary_eq acceptance, log] at registration
          rw [registration]
          exact .complete (TypeDecl.acceptable_iff.mpr ⟨known, derivable, declarable⟩)
        · simp only [taken] at registration log ending
          obtain ⟨member, rest, rfl, violated⟩ := ending
          rw [name] at violated
          rw [registration, log]
          exact .stopped known derivable split declarable violated

/-- No type derives from itself, since its ancestors are registered when it is declared. -/
theorem Catalog.Records.name_not_mem_ancestors
    (records : catalog.Records accepted)
    (fresh : catalog.layout? ⟨label, declaration.name⟩ = none)
    (derivable : declaration.Derivable catalog label) :
    declaration.name ∉ declaration.ancestors catalog label := by
  unfold TypeDecl.ancestors
  cases named : declaration.base? with
  | none => exact List.not_mem_nil
  | some baseName =>
      obtain ⟨base, baseRegistered, _⟩ := derivable baseName named
      simp only [Catalog.layout, baseRegistered, Option.getD_some]
      intro own
      obtain ⟨known, registered⟩ := records.exists_layout_of_mem_lineage baseRegistered _ own
      rw [fresh] at registered
      cases registered

namespace Catalog.Reports

variable {outcome : Except RegistrationError (Layout Rule)} {log : List LogRecord}

theorem summaries (reports : catalog.Reports accepted label declaration outcome log) :
    (log.filter fun record => record.level == "DEBUG").length =
      if outcome.isOk then 1 else 0 := by
  cases reports with
  | known known => rfl
  | baseless fresh baseless => rfl
  | stopped =>
      rw [Submission.filter_hiding?_eq_nil]
      rfl
  | complete acceptable =>
      rw [List.filter_append, Submission.filter_hiding?_eq_nil]
      rfl

theorem ancestor
    (reports : catalog.Reports accepted label declaration outcome log)
    (records : catalog.Records accepted) {typeName member declaredBy : String}
    (present : .hidden typeName member declaredBy ∈ log) :
    typeName = declaration.name ∧ declaredBy ∈ declaration.ancestors catalog label ∧
      declaredBy ≠ declaration.name := by
  have named : ∀ {members : List (Member Rule)},
      .hidden typeName member declaredBy ∈ members.filterMap (Submission.hiding? accepted label
        (declaration.ancestors catalog label) declaration.name) →
      declaration.name ∉ declaration.ancestors catalog label →
        typeName = declaration.name ∧ declaredBy ∈ declaration.ancestors catalog label ∧
          declaredBy ≠ declaration.name := by
    intro members listed apart
    obtain ⟨_, _, isAncestor, same⟩ := Submission.mem_filterMap_hiding? listed
    cases same
    refine ⟨rfl, isAncestor, ?_⟩
    rintro rfl
    exact apart isAncestor
  cases reports with
  | known known => cases present
  | baseless fresh baseless => cases present
  | stopped fresh derivable =>
      exact named present (records.name_not_mem_ancestors fresh derivable)
  | complete acceptable =>
      have apart := records.name_not_mem_ancestors acceptable.fresh acceptable.derivable
      rcases List.mem_append.mp present with listed | last
      · exact named listed apart
      · cases List.mem_singleton.mp last

end Catalog.Reports

/-- A registration reports exactly the hidden members that it comes to, and its success. -/
theorem Catalog.reportsHiding_of_records
    (records : catalog.Records accepted) (label : String) (declaration : TypeDecl Rule) :
    catalog.ReportsHiding accepted label declaration := by
  have reports := records.reports label declaration
  constructor
  case reports => exact reports
  case summaries => exact reports.summaries
  case ancestor => exact fun typeName member declaredBy => reports.ancestor records

end Records

namespace Tools

def chainsaw : TypeDecl PropertyRule where
  name := "Chainsaw"
  semantics := .reference
  base? := some "Saw"
  members :=
    [⟨"label", .text, .field, .everyone, none⟩,
      ⟨"motor", .int, .field, .everyone, none⟩,
      ⟨"id", .int, .property ⟨.field "motor", none⟩, .everyone, none⟩]

end Tools

/-- The label of the chainsaw hides that of the saw, which hides two more of them. -/
theorem Catalog.reportsHiding_chainsaw :
    let accepted := [⟨"main", Tools.saw⟩, ⟨"main", Tools.tool⟩, ⟨"main", Tools.thing⟩]
    Tools.catalog.Records accepted ∧
      Tools.catalog.ReportsHiding accepted "main" Tools.chainsaw ∧
      (Tools.catalog.register "main" Tools.chainsaw).log =
        [.hidden "Chainsaw" "label" "Saw", .hidden "Chainsaw" "id" "Thing",
          .registered "Chainsaw" .reference 7 5] := by
  intro accepted
  have records : Tools.catalog.Records accepted :=
    .accepted (.accepted (.accepted .empty rfl) rfl) rfl
  exact ⟨records, reportsHiding_of_records records "main" Tools.chainsaw, rfl⟩

end ObjectGraph
