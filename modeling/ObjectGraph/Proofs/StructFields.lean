import Mathlib.Data.List.Nodup
import Mathlib.Logic.Relation
import ObjectGraph.Proofs.Inheritance
import ObjectGraph.PropertyRule

/-!
# Struct types of fields

A field without explicit initial value starts with the contents of its struct type, which therefore
has to be registered in the same registry, as a value type. A field with an explicit initial value
only compares names: an instance of an equally named type of another registry will do, and then the
field names a struct type that its own registry may not know.

* Every struct field names a value type that some registry had when the declaring type was accepted:
  its own registry, or the one that its initial value comes from.
* In a registry whose struct fields all start with values of its own, no value type holds itself, at
  any depth.
* In other registries both fail: `Mirror` has two value types that hold each other.
-/

namespace ObjectGraph

variable {Rule : Type}

/-! ## What a registry knows -/

/-- The type is registered as a value type. -/
def Catalog.HasValueType (catalog : Catalog Rule) (type : TypeId) : Prop :=
  ∃ layout, catalog.layout? type = some layout ∧ layout.semantics = .value

/-- A struct that a declaration gives as an initial value is an instance of a registered type. -/
def TypeDecl.GivesInstances (catalog : Catalog Rule) (declaration : TypeDecl Rule) : Prop :=
  ∀ member ∈ declaration.members, ∀ type fields,
    member.initial? = some (.struct type fields) → catalog.HasValueType type

/-- The struct fields of a declaration start with values of this registry. -/
def TypeDecl.GivesOwn (label : String) (declaration : TypeDecl Rule) : Prop :=
  ∀ member ∈ declaration.members, ∀ name type fields,
    member.type = .struct name → member.initial? = some (.struct type fields) →
      type.registry = label

namespace Submission

/-- The catalog that accepted declarations lead to, latest first. -/
def replay : List (Submission Rule) → Catalog Rule
  | [] => .empty
  | submission :: earlier =>
      ((replay earlier).register submission.label submission.declaration).catalog

/-- Every declaration gave instances of types that were registered at that time. -/
def GiveInstances : List (Submission Rule) → Prop
  | [] => True
  | submission :: earlier =>
      submission.declaration.GivesInstances (replay earlier) ∧ GiveInstances earlier

/-- When the declaration of a type was accepted, another type was registered as a value type. -/
def KnewValueType (accepted : List (Submission Rule)) (type known : TypeId) : Prop :=
  ∃ (later earlier : List (Submission Rule)) (declaration : TypeDecl Rule),
    accepted = later ++ ⟨type.registry, declaration⟩ :: earlier ∧ declaration.name = type.name ∧
      (replay earlier).HasValueType known

theorem givesInstances_of_split
    {later earlier : List (Submission Rule)} {submission : Submission Rule}
    (giveInstances : GiveInstances (later ++ submission :: earlier)) :
    submission.declaration.GivesInstances (replay earlier) := by
  induction later with
  | nil => exact giveInstances.1
  | cons latest later inductionHypothesis => exact inductionHypothesis giveInstances.2

end Submission

theorem Catalog.Records.eq_replay
    {catalog : Catalog Rule} {accepted : List (Submission Rule)}
    (records : catalog.Records accepted) :
    catalog = Submission.replay accepted := by
  induction records with
  | empty => rfl
  | accepted records acceptance inductionHypothesis =>
      rw [Submission.replay, ← inductionHypothesis]
  | refused records refusal inductionHypothesis =>
      rw [register_eq_error refusal, inductionHypothesis]

/-- Every earlier part of the accepted declarations was recorded in its time. -/
theorem Catalog.Records.records_replay
    {catalog : Catalog Rule} {later earlier : List (Submission Rule)}
    (records : catalog.Records (later ++ earlier)) :
    (Submission.replay earlier).Records earlier := by
  generalize whole : later ++ earlier = accepted at records
  induction records generalizing later with
  | empty =>
      obtain ⟨_, rfl⟩ := List.append_eq_nil_iff.mp whole
      exact .empty
  | refused records refusal inductionHypothesis => exact inductionHypothesis whole
  | accepted records acceptance inductionHypothesis =>
      cases later with
      | nil =>
          obtain rfl : earlier = _ :: _ := whole
          rw [Submission.replay, ← records.eq_replay]
          exact .accepted records acceptance
      | cons latest later => exact inductionHypothesis (List.cons.inj whole).2

namespace Catalog

/-- A value type of a registry has a stored member of a struct type. -/
def HasStructField (catalog : Catalog Rule) (label name fieldType : String) : Prop :=
  ∃ layout placed, catalog.layout? ⟨label, name⟩ = some layout ∧ layout.semantics = .value ∧
    placed ∈ layout.members ∧ placed.member.kind = .field ∧ placed.type = .struct fieldType

/-- The struct types of fields are registered before the fields that use them. -/
structure StructFieldsKnown (catalog : Catalog Rule) (accepted : List (Submission Rule))
    (label : String) : Prop where
  known : ∀ name layout placed fieldType, catalog.layout? ⟨label, name⟩ = some layout →
    placed ∈ layout.members → placed.member.kind = .field → placed.type = .struct fieldType →
      catalog.HasValueType ⟨label, fieldType⟩ ∧
        Submission.KnewValueType accepted ⟨label, placed.declaredBy⟩ ⟨label, fieldType⟩
  acyclic : ∀ name, ¬ Relation.TransGen (catalog.HasStructField label) name name

end Catalog

/-! ## Where a member comes from -/

/-- A member of a complete layout was there at the start, or it is one of those that were added. -/
theorem Layout.Adds.mem_members
    {catalog : Catalog Rule} {label : String} {layout complete : Layout Rule}
    {members : List (Member Rule)} {placed : PlacedMember Rule}
    (adds : Adds catalog label layout members complete) (present : placed ∈ complete.members) :
    placed ∈ layout.members ∨
      placed.declaredBy = layout.name ∧ placed.member ∈ members ∧
        ∃ defaults, Draft.addedDefaults catalog label layout.name placed.member = .ok defaults := by
  induction adds with
  | nil layout => exact .inl present
  | @cons layout complete member members defaults added rest inductionHypothesis =>
      rcases inductionHypothesis present with before | ⟨declaredBy, listed, found⟩
      · simp only [addMember, List.mem_append, List.mem_singleton] at before
        rcases before with old | rfl
        · exact .inl old
        · exact .inr ⟨rfl, List.mem_cons_self, defaults, added⟩
      · exact .inr ⟨declaredBy, List.mem_cons_of_mem member listed, found⟩

/-- A member belongs to an accepted declaration. What it adds to a field buffer was found in the
catalog that this declaration was submitted to. -/
structure PlacedMember.Origin (catalog : Catalog Rule) (accepted : List (Submission Rule))
    (label : String) (placed : PlacedMember Rule) (later earlier : List (Submission Rule))
    (declaration : TypeDecl Rule) : Prop where
  split : accepted = later ++ ⟨label, declaration⟩ :: earlier
  name_eq : declaration.name = placed.declaredBy
  declared : placed.member ∈ declaration.members
  includes : catalog.Includes (Submission.replay earlier)
  added : ∃ defaults, Draft.addedDefaults (Submission.replay earlier) label placed.declaredBy
    placed.member = .ok defaults

namespace Catalog.Records

variable {catalog : Catalog Rule} {accepted : List (Submission Rule)}

/-- Every member of a registered layout, inherited or not, has an origin. -/
theorem exists_origin
    (records : catalog.Records accepted) {type : TypeId} {layout : Layout Rule}
    {placed : PlacedMember Rule} (registered : catalog.layout? type = some layout)
    (present : placed ∈ layout.members) :
    ∃ later earlier declaration,
      placed.Origin catalog accepted type.registry later earlier declaration := by
  induction records generalizing type layout with
  | empty => simp at registered
  | refused records refusal inductionHypothesis =>
      rw [register_eq_error refusal] at registered ⊢
      exact inductionHypothesis registered present
  | @accepted catalog earlier label declaration newLayout records acceptance inductionHypothesis =>
      obtain ⟨fresh, made, _⟩ := register_eq_ok acceptance
      obtain ⟨_, _, ⟨foundation, founded, adds⟩, grown⟩ := register_eq_addLayout acceptance
      have includes : (catalog.addLayout label newLayout).Includes catalog :=
        includes_addLayout (by rw [made.name_eq]; exact fresh)
      have fromEarlier : ∀ {known : TypeId} {old : Layout Rule},
          catalog.layout? known = some old → placed ∈ old.members →
            ∃ front back declared,
              placed.Origin (catalog.addLayout label newLayout) (⟨label, declaration⟩ :: earlier)
                known.registry front back declared := by
        intro known old oldRegistered oldPresent
        obtain ⟨front, back, declared, origin⟩ := inductionHypothesis oldRegistered oldPresent
        refine ⟨⟨label, declaration⟩ :: front, back, declared, ?_⟩
        exact
          { origin with
            split := by rw [origin.split, List.cons_append]
            includes := fun _ _ found => includes _ _ (origin.includes _ _ found) }
      rw [grown] at registered ⊢
      rw [layout?_addLayout] at registered
      split at registered
      · next latest =>
          cases registered
          subst latest
          have foundationName : foundation.name = declaration.name := by
            rw [← adds.head_eq.1, made.name_eq]
          rcases adds.mem_members present with inherited | ⟨declaredBy, listed, added⟩
          · rcases foundation_eq_ok founded with ⟨_, rfl⟩ | ⟨baseName, base, _, known, _, _, rfl⟩
            · simp [Layout.bare] at inherited
            · have inBase := fromEarlier known inherited
              exact inBase
          · refine ⟨[], earlier, declaration, ?_⟩
            exact
              { split := rfl
                name_eq := by rw [declaredBy, foundationName]
                declared := listed
                includes := records.eq_replay ▸ includes
                added := by rwa [declaredBy, ← records.eq_replay] }
      · exact fromEarlier registered present

/-! ## The order of registrations -/

/-- Registered types are those of accepted declarations. -/
theorem mem_types_iff (records : catalog.Records accepted) {type : TypeId} :
    type ∈ accepted.map Submission.type ↔ ∃ layout, catalog.layout? type = some layout := by
  induction records with
  | empty => simp
  | refused records refusal inductionHypothesis =>
      rwa [register_eq_error refusal]
  | @accepted catalog earlier label declaration newLayout records acceptance inductionHypothesis =>
      obtain ⟨_, made, grown⟩ := register_eq_ok acceptance
      rw [grown, layout?_addLayout, made.name_eq, List.map_cons, List.mem_cons,
        inductionHypothesis, Submission.type]
      by_cases latest : type = ⟨label, declaration.name⟩
      · simp [latest]
      · simp [latest]

/-- No type is accepted twice. -/
theorem nodup_types (records : catalog.Records accepted) :
    (accepted.map Submission.type).Nodup := by
  induction records with
  | empty => exact List.nodup_nil
  | refused records refusal inductionHypothesis => exact inductionHypothesis
  | @accepted catalog earlier label declaration newLayout records acceptance inductionHypothesis =>
      refine List.nodup_cons.mpr ⟨fun again => ?_, inductionHypothesis⟩
      obtain ⟨layout, taken⟩ := records.mem_types_iff.mp again
      have free := layout?_eq_none_of_not_contains (register_eq_ok acceptance).1
      rw [Submission.type, free] at taken
      cases taken

/-- What was registered before a type stands further back among the accepted declarations. -/
theorem idxOf_lt_of_knewValueType
    (records : catalog.Records accepted) {type known : TypeId}
    (knew : Submission.KnewValueType accepted type known) :
    (accepted.map Submission.type).idxOf type < (accepted.map Submission.type).idxOf known := by
  obtain ⟨later, earlier, declaration, rfl, name_eq, layout, registered, _⟩ := knew
  have distinct := records.nodup_types
  have here : (⟨type.registry, declaration⟩ : Submission Rule).type = type := by
    rw [Submission.type, name_eq]
  have earlierRecords : (Submission.replay earlier).Records earlier := by
    rw [List.append_cons] at records
    exact records.records_replay
  have behind : known ∈ earlier.map Submission.type :=
    earlierRecords.mem_types_iff.mpr ⟨layout, registered⟩
  rw [List.map_append, List.map_cons, here] at distinct ⊢
  obtain ⟨_, tailDistinct, apart⟩ := List.nodup_append.mp distinct
  have typeNotLater : type ∉ later.map Submission.type :=
    fun again => apart type again type List.mem_cons_self rfl
  have knownNotLater : known ∉ later.map Submission.type :=
    fun again => apart known again known (List.mem_cons_of_mem _ behind) rfl
  have different : type ≠ known := by
    rintro rfl
    exact (List.nodup_cons.mp tailDistinct).1 behind
  rw [List.idxOf_append_of_notMem typeNotLater, List.idxOf_append_of_notMem knownNotLater,
    List.idxOf_cons_self, List.idxOf_cons_ne _ different]
  omega

end Catalog.Records

/-! ## The struct type of a field -/

/-- A struct field starts with the contents of a value type of its registry, or with an explicit
struct of an equally named type. -/
theorem Draft.hasValueType_of_addedDefaults
    {catalog : Catalog Rule} {label typeName fieldType : String} {member : Member Rule}
    {defaults : List Value} (stored : member.kind = .field)
    (struct : member.type = .struct fieldType)
    (added : addedDefaults catalog label typeName member = .ok defaults) :
    catalog.HasValueType ⟨label, fieldType⟩ ∨
      ∃ origin fields, member.initial? = some (.struct ⟨origin, fieldType⟩ fields) := by
  have field : member.isField = true := by rw [Member.isField, stored]
  rw [addedDefaults, if_pos field] at added
  cases started : catalog.initialValue label typeName member with
  | error error => simp [started, Except.map] at added
  | ok value =>
      unfold Catalog.initialValue at started
      cases declared : member.initial? with
      | none =>
          simp only [declared, Catalog.plainDefault, struct] at started
          cases registered : (catalog.registry label).get? fieldType with
          | none => simp [registered] at started
          | some layout =>
              cases semantics : layout.semantics with
              | reference => simp [registered, semantics] at started
              | value => exact .inl ⟨layout, registered, semantics⟩
      | some explicit =>
          simp only [declared, struct] at started
          split at started
          · cases started
          · next accepted =>
              cases explicit with
              | struct type fields =>
                  obtain rfl : type.name = fieldType := by simpa [SlotType.accepts] using accepted
                  exact .inr ⟨type.registry, fields, rfl⟩
              | _ => simp [SlotType.accepts] at accepted

namespace Catalog.Records

variable {catalog : Catalog Rule} {accepted : List (Submission Rule)}

/-- Every struct field names a value type that was registered before its declaring type: in its own
registry, or in the one that its explicit initial value comes from. -/
theorem exists_knewValueType
    (records : catalog.Records accepted) (giveInstances : Submission.GiveInstances accepted)
    {type : TypeId} {layout : Layout Rule} {placed : PlacedMember Rule} {fieldType : String}
    (registered : catalog.layout? type = some layout) (present : placed ∈ layout.members)
    (stored : placed.member.kind = .field) (struct : placed.type = .struct fieldType) :
    ∃ origin, catalog.HasValueType ⟨origin, fieldType⟩ ∧
      Submission.KnewValueType accepted ⟨type.registry, placed.declaredBy⟩ ⟨origin, fieldType⟩ ∧
      (origin = type.registry ∨ ∃ submission ∈ accepted, submission.label = type.registry ∧
        placed.member ∈ submission.declaration.members ∧
        ∃ fields, placed.member.initial? = some (.struct ⟨origin, fieldType⟩ fields)) := by
  obtain ⟨later, earlier, declaration, origin⟩ := records.exists_origin registered present
  obtain ⟨defaults, added⟩ := origin.added
  have lasts : ∀ {known : TypeId}, (Submission.replay earlier).HasValueType known →
      catalog.HasValueType known := by
    rintro known ⟨old, oldRegistered, semantics⟩
    exact ⟨old, origin.includes _ _ oldRegistered, semantics⟩
  have knew : ∀ {known : TypeId}, (Submission.replay earlier).HasValueType known →
      Submission.KnewValueType accepted ⟨type.registry, placed.declaredBy⟩ known := fun had =>
    ⟨later, earlier, declaration, origin.split, origin.name_eq, had⟩
  rcases Draft.hasValueType_of_addedDefaults stored struct added with own | ⟨source, fields, given⟩
  · exact ⟨type.registry, lasts own, knew own, .inl rfl⟩
  · rw [origin.split] at giveInstances
    have had := Submission.givesInstances_of_split giveInstances placed.member origin.declared _
      fields given
    refine ⟨source, lasts had, knew had, .inr ⟨⟨type.registry, declaration⟩, ?_, rfl, ?_⟩⟩
    · rw [origin.split]
      exact List.mem_append_right later List.mem_cons_self
    · exact ⟨origin.declared, fields, given⟩

/-- A value type takes part in no inheritance, so that it declares all its members itself. -/
theorem declaredBy_of_value
    (records : catalog.Records accepted) {type : TypeId} {layout : Layout Rule}
    {placed : PlacedMember Rule} (registered : catalog.layout? type = some layout)
    (semantics : layout.semantics = .value) (present : placed ∈ layout.members) :
    placed.declaredBy = type.name := by
  obtain ⟨declaration, own, _, _, _, ownedByType, built⟩ := records.exists_builtOn registered
  unfold Layout.BuiltOn at built
  split at built
  · rw [built.2] at present
    exact ownedByType placed present
  · obtain ⟨_, _, reference, _⟩ := built
    rw [semantics] at reference
    cases reference

/-- Where value types know the struct types of their fields beforehand, they do not hold each other
in a circle. -/
theorem acyclic_hasStructField
    (records : catalog.Records accepted) {label : String}
    (knew : ∀ first second, catalog.HasStructField label first second →
      Submission.KnewValueType accepted ⟨label, first⟩ ⟨label, second⟩) (name : String) :
    ¬ Relation.TransGen (catalog.HasStructField label) name name := by
  intro circle
  have descends := circle.lift (fun name => (accepted.map Submission.type).idxOf ⟨label, name⟩)
    fun first second related => records.idxOf_lt_of_knewValueType (knew first second related)
  rw [Relation.transGen_eq_self] at descends
  exact lt_irrefl _ descends

/-- Every struct field names a value type that some registry had before. Where the struct fields of
a registry all start with values of its own, this is the registry itself, and its value types do not
hold each other in a circle. -/
theorem structFields_known
    (records : catalog.Records accepted) (giveInstances : Submission.GiveInstances accepted) :
    (∀ type layout placed fieldType, catalog.layout? type = some layout →
      placed ∈ layout.members → placed.member.kind = .field → placed.type = .struct fieldType →
        ∃ origin, catalog.HasValueType ⟨origin, fieldType⟩ ∧
          Submission.KnewValueType accepted ⟨type.registry, placed.declaredBy⟩ ⟨origin, fieldType⟩ ∧
          (origin = type.registry ∨
            ∃ fields, placed.member.initial? = some (.struct ⟨origin, fieldType⟩ fields))) ∧
      ∀ label, (∀ submission ∈ accepted, submission.label = label →
        submission.declaration.GivesOwn label) → catalog.StructFieldsKnown accepted label := by
  constructor
  · intro type layout placed fieldType registered present stored struct
    obtain ⟨origin, had, knew, source⟩ :=
      records.exists_knewValueType giveInstances registered present stored struct
    refine ⟨origin, had, knew, source.imp_right ?_⟩
    rintro ⟨_, _, _, _, given⟩
    exact given
  · intro label givesOwn
    have known : ∀ name layout placed fieldType, catalog.layout? ⟨label, name⟩ = some layout →
        placed ∈ layout.members → placed.member.kind = .field → placed.type = .struct fieldType →
          catalog.HasValueType ⟨label, fieldType⟩ ∧
            Submission.KnewValueType accepted ⟨label, placed.declaredBy⟩ ⟨label, fieldType⟩ := by
      intro name layout placed fieldType registered present stored struct
      obtain ⟨origin, had, knew, source⟩ :=
        records.exists_knewValueType giveInstances registered present stored struct
      have own : origin = label := by
        rcases source with own | ⟨submission, listed, sameLabel, declared, fields, given⟩
        · exact own
        · exact givesOwn submission listed sameLabel placed.member declared fieldType _ fields
            struct given
      subst own
      exact ⟨had, knew⟩
    refine ⟨known, records.acyclic_hasStructField fun first second related => ?_⟩
    obtain ⟨layout, placed, registered, semantics, present, stored, struct⟩ := related
    have knew := (known first layout placed second registered present stored struct).2
    rwa [records.declaredBy_of_value registered semantics present] at knew

end Catalog.Records

/-! ## Two registries -/

namespace Mirror

/-- A point of the first registry. -/
def point : TypeDecl PropertyRule where
  name := "Point"
  semantics := .value
  base? := none
  members := [⟨"x", .int, .field, .everyone, none⟩]

/-- A sheet of the first registry starts with a point of its own registry. -/
def sheet : TypeDecl PropertyRule where
  name := "Sheet"
  semantics := .value
  base? := none
  members :=
    [⟨"corner", .struct "Point", .field, .everyone, some (.struct ⟨"first", "Point"⟩ [.int 5])⟩]

/-- A frame of the second registry starts with a point of the first one. -/
def frame : TypeDecl PropertyRule where
  name := "Frame"
  semantics := .value
  base? := none
  members :=
    [⟨"corner", .struct "Point", .field, .everyone, some (.struct ⟨"first", "Point"⟩ [.int 0])⟩]

/-- A point of the second registry holds a frame. -/
def framedPoint : TypeDecl PropertyRule where
  name := "Point"
  semantics := .value
  base? := none
  members := [⟨"frame", .struct "Frame", .field, .everyone, none⟩]

def early : List (Submission PropertyRule) :=
  [⟨"second", frame⟩, ⟨"first", sheet⟩, ⟨"first", point⟩]

def accepted : List (Submission PropertyRule) :=
  ⟨"second", framedPoint⟩ :: early

def catalog : Catalog PropertyRule :=
  Submission.replay accepted

theorem records : catalog.Records accepted :=
  .accepted (.accepted (.accepted (.accepted .empty rfl) rfl) rfl) rfl

theorem giveInstances : Submission.GiveInstances accepted := by
  have known : ∀ (catalog : Catalog PropertyRule),
      catalog.HasValueType ⟨"first", "Point"⟩ → ∀ name member number,
        TypeDecl.GivesInstances catalog ⟨name, .value, none,
          [⟨member, .struct "Point", .field, .everyone,
            some (.struct ⟨"first", "Point"⟩ [.int number])⟩]⟩ := by
    intro catalog had name member number listed present type fields given
    rw [List.mem_singleton.mp present] at given
    cases given
    exact had
  have plain : ∀ (catalog : Catalog PropertyRule) name member type,
      TypeDecl.GivesInstances catalog ⟨name, .value, none,
        [⟨member, type, .field, .everyone, none⟩]⟩ := by
    intro catalog name member type listed present structType fields given
    rw [List.mem_singleton.mp present] at given
    cases given
  refine ⟨plain _ _ _ _, known _ ?_ _ _ _, known _ ?_ _ _ _, plain _ _ _ _, trivial⟩
  · exact ⟨_, rfl, rfl⟩
  · exact ⟨_, rfl, rfl⟩

theorem givesOwn_first :
    ∀ submission ∈ accepted, submission.label = "first" →
      submission.declaration.GivesOwn "first" := by
  intro submission present sameLabel member declared name type fields _ given
  simp only [accepted, early, List.mem_cons, List.not_mem_nil, or_false] at present
  rcases present with rfl | rfl | rfl | rfl
  · simp at sameLabel
  · simp at sameLabel
  · rw [List.mem_singleton.mp declared] at given
    cases given
    rfl
  · rw [List.mem_singleton.mp declared] at given
    cases given

theorem hasStructField_sheet : catalog.HasStructField "first" "Sheet" "Point" :=
  ⟨_, _, rfl, rfl, List.mem_cons_self, rfl, rfl⟩

theorem hasStructField_frame : catalog.HasStructField "second" "Frame" "Point" :=
  ⟨_, _, rfl, rfl, List.mem_cons_self, rfl, rfl⟩

theorem hasStructField_framedPoint : catalog.HasStructField "second" "Point" "Frame" :=
  ⟨_, _, rfl, rfl, List.mem_cons_self, rfl, rfl⟩

end Mirror

/-- The point that a sheet of the first registry holds was known before. -/
theorem Catalog.Records.structFields_known_mirror :
    Mirror.catalog.Records Mirror.accepted ∧ Submission.GiveInstances Mirror.accepted ∧
      (∀ submission ∈ Mirror.accepted, submission.label = "first" →
        submission.declaration.GivesOwn "first") ∧
      Mirror.catalog.HasStructField "first" "Sheet" "Point" ∧
      Mirror.catalog.StructFieldsKnown Mirror.accepted "first" :=
  ⟨Mirror.records, Mirror.giveInstances, Mirror.givesOwn_first, Mirror.hasStructField_sheet,
    (structFields_known Mirror.records Mirror.giveInstances).2 "first" Mirror.givesOwn_first⟩

/-- A new point of the first registry does as the initial value of a field in the second one. So a
frame is registered there with a field of the struct type of points, when no such type is registered
there. Then a type of this name is registered, and it holds a frame. -/
theorem Catalog.structFields_unknown_mirror :
    Mirror.catalog.Records Mirror.accepted ∧ Submission.GiveInstances Mirror.accepted ∧
      (Submission.replay Mirror.early).instantiate? ⟨"first", "Point"⟩ .empty =
        .ok (.struct ⟨"first", "Point"⟩ [.int 0], .empty) ∧
      (Submission.replay Mirror.early).HasStructField "second" "Frame" "Point" ∧
      (Submission.replay Mirror.early).layout? ⟨"second", "Point"⟩ = none ∧
      Relation.TransGen (Mirror.catalog.HasStructField "second") "Point" "Point" ∧
      ¬ Mirror.catalog.StructFieldsKnown Mirror.accepted "second" := by
  have circle : Relation.TransGen (Mirror.catalog.HasStructField "second") "Point" "Point" :=
    .tail (.single Mirror.hasStructField_framedPoint) Mirror.hasStructField_frame
  refine ⟨Mirror.records, Mirror.giveInstances, rfl, ?_, rfl, circle, fun known => ?_⟩
  · exact ⟨_, _, rfl, rfl, List.mem_cons_self, rfl, rfl⟩
  · exact known.acyclic "Point" circle

end ObjectGraph
