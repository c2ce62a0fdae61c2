import ObjectGraph.Examples.Ring
import ObjectGraph.Proofs.ReferenceFree
import ObjectGraph.Proofs.StructFields

/-!
# What a registration accepts

A declaration is accepted exactly when all of its conditions hold, and refused for the first one
that does not hold. They come in a fixed order: first the name and the base, and then the members
one by one as they were declared. A refused declaration leaves no trace. An accepted one adds its
own layout and nothing else, so that instances of the types registered before are made as before.
-/

namespace ObjectGraph

variable {Rule : Type}

/-! ## Conditions -/

/-- The field has something to start with: an explicit value that fits and shares nothing, or else
the value of its type. Of the types only those of structs have to be registered. -/
def Member.Startable (catalog : Catalog Rule) (label : String) (member : Member Rule) : Prop :=
  match member.initial? with
  | some value => member.type.accepts catalog value = true ∧ value.ReferenceFree
  | none => ∀ name, member.type = .struct name → catalog.HasValueType ⟨label, name⟩

/-- The base, if there is one, is registered, and both types are reference types. -/
def TypeDecl.Derivable (catalog : Catalog Rule) (label : String) (declaration : TypeDecl Rule) :
    Prop :=
  ∀ baseName, declaration.base? = some baseName →
    ∃ base, catalog.layout? ⟨label, baseName⟩ = some base ∧
      base.semantics = .reference ∧ declaration.semantics = .reference

/-- The members can be declared behind members of these names. -/
structure Member.Declarable (catalog : Catalog Rule) (label : String) (declared : List String)
    (members : List (Member Rule)) : Prop where
  apart : ∀ member ∈ members, member.name ∉ declared
  distinct : (members.map Member.name).Nodup
  startable : ∀ member ∈ members, member.isField = true → member.Startable catalog label

/-- All conditions that a declaration has to meet. -/
structure TypeDecl.Acceptable (catalog : Catalog Rule) (label : String)
    (declaration : TypeDecl Rule) : Prop where
  fresh : catalog.layout? ⟨label, declaration.name⟩ = none
  derivable : declaration.Derivable catalog label
  distinct : (declaration.members.map Member.name).Nodup
  startable : ∀ member ∈ declaration.members, member.isField = true →
    member.Startable catalog label

inductive Member.Unstartable (catalog : Catalog Rule) (label typeName : String)
    (member : Member Rule) : RegistrationError → Prop
  | misfit {value : Value} (explicit : member.initial? = some value)
      (refused : member.type.accepts catalog value = false) :
      Unstartable catalog label typeName member
        (.invalidDefault typeName member.name member.type)
  | shared {value : Value} (explicit : member.initial? = some value)
      (accepted : member.type.accepts catalog value = true) (shares : ¬ value.ReferenceFree) :
      Unstartable catalog label typeName member (.sharedDefault typeName member.name)
  | unknown {name : String} (plain : member.initial? = none) (isStruct : member.type = .struct name)
      (missing : catalog.layout? ⟨label, name⟩ = none) :
      Unstartable catalog label typeName member (.unknownType name)
  | reference {name : String} {layout : Layout Rule} (plain : member.initial? = none)
      (isStruct : member.type = .struct name)
      (known : catalog.layout? ⟨label, name⟩ = some layout)
      (semantics : layout.semantics = .reference) :
      Unstartable catalog label typeName member (.expectedValueType typeName member.name name)

/-- Why a member cannot be declared behind members of these names. -/
inductive Member.Violates (catalog : Catalog Rule) (label typeName : String)
    (declared : List String) (member : Member Rule) : RegistrationError → Prop
  | repeated (again : member.name ∈ declared) :
      Violates catalog label typeName declared member (.duplicateMember typeName member.name)
  | unstartable {error : RegistrationError} (fresh : member.name ∉ declared)
      (field : member.isField = true)
      (unstartable : member.Unstartable catalog label typeName error) :
      Violates catalog label typeName declared member error

/-- Why a declaration has no base to build on. -/
inductive TypeDecl.Baseless (catalog : Catalog Rule) (label : String)
    (declaration : TypeDecl Rule) : RegistrationError → Prop
  | unknown {baseName : String} (named : declaration.base? = some baseName)
      (missing : catalog.layout? ⟨label, baseName⟩ = none) :
      Baseless catalog label declaration (.unknownType baseName)
  | invalid {baseName : String} {base : Layout Rule} (named : declaration.base? = some baseName)
      (known : catalog.layout? ⟨label, baseName⟩ = some base)
      (copied : declaration.semantics = .value ∨ base.semantics = .value) :
      Baseless catalog label declaration (.invalidBase declaration.name baseName)

/-- The first condition that a declaration violates, with all conditions before it met. -/
inductive TypeDecl.FirstViolation (catalog : Catalog Rule) (label : String)
    (declaration : TypeDecl Rule) : RegistrationError → Prop
  | duplicate {layout : Layout Rule}
      (known : catalog.layout? ⟨label, declaration.name⟩ = some layout) :
      FirstViolation catalog label declaration (.duplicateType declaration.name)
  | base {error : RegistrationError}
      (fresh : catalog.layout? ⟨label, declaration.name⟩ = none)
      (baseless : declaration.Baseless catalog label error) :
      FirstViolation catalog label declaration error
  | member {error : RegistrationError} {before after : List (Member Rule)} {member : Member Rule}
      (fresh : catalog.layout? ⟨label, declaration.name⟩ = none)
      (derivable : declaration.Derivable catalog label)
      (split : declaration.members = before ++ member :: after)
      (declarable : Member.Declarable catalog label [] before)
      (violated : member.Violates catalog label declaration.name (before.map Member.name) error) :
      FirstViolation catalog label declaration error

/-- Two instances of one type, made in two heaps, that differ in the identity of a new object at
most. -/
inductive Value.MadeAlike (heap other : Heap) : Value × Heap → Value × Heap → Prop
  | struct (composite : Composite) :
      MadeAlike heap other (composite.toValue, heap) (composite.toValue, other)
  | object (composite : Composite) :
      MadeAlike heap other (heap.newObject composite) (other.newObject composite)

/-- What a registration does to a catalog. -/
structure Catalog.RegistersExactly (catalog : Catalog Rule) (label : String)
    (declaration : TypeDecl Rule) : Prop where
  accepted_iff : (∃ layout, (catalog.register label declaration).outcome = .ok layout) ↔
    declaration.Acceptable catalog label
  refused_iff : ∀ error, (catalog.register label declaration).outcome = .error error ↔
    declaration.FirstViolation catalog label error
  unchanged : ∀ error, (catalog.register label declaration).outcome = .error error →
    (catalog.register label declaration).catalog = catalog
  layout?_eq : ∀ layout, (catalog.register label declaration).outcome = .ok layout →
    ∀ type, (catalog.register label declaration).catalog.layout? type =
      if type = ⟨label, declaration.name⟩ then some layout else catalog.layout? type
  madeAlike : ∀ layout, (catalog.register label declaration).outcome = .ok layout →
    ∀ type, catalog.layout? type ≠ none → ∀ heap other, ∃ made remade,
      catalog.instantiate? type heap = .ok made ∧
        (catalog.register label declaration).catalog.instantiate? type other = .ok remade ∧
        Value.MadeAlike heap other made remade

/-! ## What a field starts with -/

section Start

variable {catalog : Catalog Rule} {label typeName : String} {member : Member Rule}
  {error : RegistrationError}

theorem Catalog.initialValue_eq_error_iff :
    catalog.initialValue label typeName member = .error error ↔
      member.Unstartable catalog label typeName error := by
  constructor
  · intro failed
    cases explicit : member.initial? with
    | some value =>
        simp only [initialValue, explicit] at failed
        cases fits : member.type.accepts catalog value with
        | false =>
            simp only [fits, Bool.not_false, if_true, Except.error.injEq] at failed
            subst failed
            exact .misfit explicit fits
        | true =>
            cases holds : value.holdsReference with
            | false => simp [fits, holds] at failed
            | true =>
                simp only [fits, holds, Bool.not_true, Bool.false_eq_true, if_false, if_true,
                  Except.error.injEq] at failed
                subst failed
                refine .shared explicit fits ?_
                simp [← Value.holdsReference_eq_false_iff, holds]
    | none =>
        simp only [initialValue, plainDefault, explicit] at failed
        cases declared : member.type with
        | struct name =>
            simp only [declared] at failed
            cases known : (catalog.registry label).get? name with
            | none =>
                simp only [known, Except.error.injEq] at failed
                subst failed
                exact .unknown explicit declared known
            | some layout =>
                cases semantics : layout.semantics with
                | value => simp [known, semantics] at failed
                | reference =>
                    simp only [known, semantics, Except.error.injEq] at failed
                    subst failed
                    exact .reference explicit declared known semantics
        | _ => simp [declared] at failed
  · intro unstartable
    cases unstartable with
    | misfit explicit refused => simp [initialValue, explicit, refused]
    | shared explicit accepted shares =>
        rw [← Value.holdsReference_eq_false_iff, Bool.not_eq_false] at shares
        simp [initialValue, explicit, accepted, shares]
    | unknown plain isStruct missing =>
        have absent : (catalog.registry label).get? _ = none := missing
        simp [initialValue, plainDefault, plain, isStruct, absent]
    | reference plain isStruct known semantics =>
        have present : (catalog.registry label).get? _ = some _ := known
        simp [initialValue, plainDefault, plain, isStruct, present, semantics]

theorem Member.startable_iff (typeName : String) :
    member.Startable catalog label ↔
      ∀ error, ¬ member.Unstartable catalog label typeName error := by
  constructor
  · intro startable error unstartable
    unfold Startable at startable
    cases unstartable with
    | misfit explicit refused => simp [explicit, refused] at startable
    | shared explicit accepted shares =>
        simp only [explicit] at startable
        exact shares startable.2
    | unknown plain isStruct missing =>
        simp only [plain] at startable
        obtain ⟨layout, known, _⟩ := startable _ isStruct
        rw [missing] at known
        cases known
    | reference plain isStruct known semantics =>
        simp only [plain] at startable
        obtain ⟨layout, knownAgain, copied⟩ := startable _ isStruct
        rw [known] at knownAgain
        cases knownAgain
        rw [semantics] at copied
        cases copied
  · intro faultless
    unfold Startable
    cases explicit : member.initial? with
    | some value =>
        have fits : member.type.accepts catalog value = true := by
          by_contra misfit
          exact faultless _ (.misfit explicit (by simpa using misfit))
        refine ⟨fits, ?_⟩
        by_contra shares
        exact faultless _ (.shared explicit fits shares)
    | none =>
        intro name isStruct
        cases known : catalog.layout? ⟨label, name⟩ with
        | none => exact absurd (.unknown explicit isStruct known) (faultless _)
        | some layout =>
            refine ⟨layout, known, ?_⟩
            cases semantics : layout.semantics with
            | value => rfl
            | reference => exact absurd (.reference explicit isStruct known semantics) (faultless _)

end Start

/-! ## Members in order -/

section Members

variable {catalog : Catalog Rule} {label typeName : String} {member : Member Rule}
  {error : RegistrationError}

def Member.Admissible (catalog : Catalog Rule) (label : String) (declared : List String)
    (member : Member Rule) : Prop :=
  member.name ∉ declared ∧ (member.isField = true → member.Startable catalog label)

theorem Draft.addedDefaults_eq_error_iff :
    addedDefaults catalog label typeName member = .error error ↔
      member.isField = true ∧ member.Unstartable catalog label typeName error := by
  unfold addedDefaults
  by_cases field : member.isField = true
  · rw [if_pos field, ← Catalog.initialValue_eq_error_iff]
    cases catalog.initialValue label typeName member <;> simp [Except.map, field]
  · simp [field]

theorem Member.Admissible.not_violates
    {declared : List String} (admissible : member.Admissible catalog label declared) :
    ¬ member.Violates catalog label typeName declared error := by
  intro violated
  cases violated with
  | repeated again => exact admissible.1 again
  | unstartable fresh field unstartable =>
      exact (Member.startable_iff typeName).mp (admissible.2 field) _ unstartable

theorem Member.Violates.unique
    {declared : List String} {other : RegistrationError}
    (violated : member.Violates catalog label typeName declared error)
    (again : member.Violates catalog label typeName declared other) :
    error = other := by
  cases violated with
  | repeated known =>
      cases again with
      | repeated _ => rfl
      | unstartable fresh _ _ => exact absurd known fresh
  | unstartable fresh _ unstartable =>
      cases again with
      | repeated known => exact absurd known fresh
      | unstartable _ _ unstartableAgain =>
          have failed := Catalog.initialValue_eq_error_iff.mpr unstartable
          rw [Catalog.initialValue_eq_error_iff.mpr unstartableAgain] at failed
          exact (Except.error.inj failed).symm

/-- Taking one member checks its name and then what it starts with. -/
theorem Draft.addMember_eq
    (catalog : Catalog Rule) (label : String) (draft : Draft Rule) (member : Member Rule) :
    (∃ error, draft.addMember catalog label member = .error error ∧
        member.Violates catalog label draft.layout.name draft.declared error) ∨
      ∃ extended, draft.addMember catalog label member = .ok extended ∧
        member.Admissible catalog label draft.declared ∧
        extended.layout.name = draft.layout.name ∧
        extended.declared = draft.declared ++ [member.name] := by
  by_cases again : member.name ∈ draft.declared
  · refine .inl ⟨_, ?_, .repeated again⟩
    simp [addMember, again, throw, throwThe, MonadExceptOf.throw, bind, Except.bind]
  · cases added : addedDefaults catalog label draft.layout.name member with
    | error error =>
        obtain ⟨field, unstartable⟩ := addedDefaults_eq_error_iff.mp added
        refine .inl ⟨error, ?_, .unstartable again field unstartable⟩
        simp [addMember, again, added, bind, Except.bind]
    | ok defaults =>
        have admissible : member.Admissible catalog label draft.declared := by
          refine ⟨again, fun field => ?_⟩
          refine (Member.startable_iff draft.layout.name).mpr fun error unstartable => ?_
          have failed := addedDefaults_eq_error_iff.mpr ⟨field, unstartable⟩
          rw [added] at failed
          cases failed
        cases taken : draft.addMember catalog label member with
        | error error =>
            simp [addMember, again, added, bind, Except.bind, pure, Except.pure] at taken
        | ok extended =>
            simp only [addMember, again, added, List.contains_iff_mem, if_false, bind, Except.bind,
              pure, Except.pure, Except.ok.injEq] at taken
            subst taken
            exact .inr ⟨_, rfl, admissible, rfl, rfl⟩

theorem Member.declarable_cons_iff
    {declared : List String} {members : List (Member Rule)} :
    Member.Declarable catalog label declared (member :: members) ↔
      member.Admissible catalog label declared ∧
        Member.Declarable catalog label (declared ++ [member.name]) members := by
  constructor
  · rintro ⟨apart, distinct, startable⟩
    obtain ⟨fresh, othersApart⟩ := List.forall_mem_cons.mp apart
    obtain ⟨new, othersDistinct⟩ := List.nodup_cons.mp distinct
    obtain ⟨memberStartable, othersStartable⟩ := List.forall_mem_cons.mp startable
    refine ⟨⟨fresh, memberStartable⟩, fun other present => ?_, othersDistinct, othersStartable⟩
    rw [List.mem_append, List.mem_singleton, not_or]
    exact ⟨othersApart other present, fun same => new (same ▸ List.mem_map_of_mem present)⟩
  · rintro ⟨⟨fresh, memberStartable⟩, apart, distinct, startable⟩
    simp only [List.mem_append, List.mem_singleton, not_or] at apart
    refine ⟨?_, ?_, List.forall_mem_cons.mpr ⟨memberStartable, startable⟩⟩
    · exact List.forall_mem_cons.mpr ⟨fresh, fun other present => (apart other present).1⟩
    · refine List.nodup_cons.mpr ⟨fun again => ?_, distinct⟩
      obtain ⟨other, present, same⟩ := List.mem_map.mp again
      exact (apart other present).2 same

/-- All members are taken when each of them can be declared behind those before it. -/
theorem Draft.addMembers_eq_none_iff (draft : Draft Rule) (members : List (Member Rule)) :
    (addMembers catalog label draft members).2 = none ↔
      Member.Declarable catalog label draft.declared members := by
  induction members generalizing draft with
  | nil => simpa [addMembers] using ⟨by simp, .nil, by simp⟩
  | cons member members inductionHypothesis =>
      rw [Member.declarable_cons_iff, addMembers]
      rcases draft.addMember_eq catalog label member with
        ⟨error, taken, violated⟩ | ⟨extended, taken, admissible, _, declared⟩
      · simp only [taken, reduceCtorEq, false_iff, not_and]
        exact fun admissible => absurd violated admissible.not_violates
      · simp only [taken, inductionHypothesis, declared, admissible, true_and]

/-- Otherwise the first member that cannot be declared decides. -/
theorem Draft.addMembers_eq_some_iff (draft : Draft Rule) (members : List (Member Rule)) :
    (addMembers catalog label draft members).2 = some error ↔
      ∃ before member after, members = before ++ member :: after ∧
        Member.Declarable catalog label draft.declared before ∧
        member.Violates catalog label draft.layout.name
          (draft.declared ++ before.map Member.name) error := by
  induction members generalizing draft with
  | nil => simp [addMembers]
  | cons member members inductionHypothesis =>
      rw [addMembers]
      rcases draft.addMember_eq catalog label member with
        ⟨found, taken, violated⟩ | ⟨extended, taken, admissible, name, declared⟩
      · simp only [taken, Option.some.injEq]
        constructor
        · rintro rfl
          exact ⟨[], member, members, rfl, ⟨by simp, .nil, by simp⟩, by simpa using violated⟩
        · rintro ⟨before, first, after, split, declarable, violatedFirst⟩
          cases before with
          | nil =>
              cases split
              exact violated.unique (by simpa using violatedFirst)
          | cons earlier before =>
              cases split
              have admissible := (Member.declarable_cons_iff.mp declarable).1
              exact absurd violated admissible.not_violates
      · simp only [taken, inductionHypothesis, name, declared]
        constructor
        · rintro ⟨before, first, after, rfl, declarable, violated⟩
          refine ⟨member :: before, first, after, rfl,
            Member.declarable_cons_iff.mpr ⟨admissible, declarable⟩, ?_⟩
          simpa using violated
        · rintro ⟨before, first, after, split, declarable, violated⟩
          cases before with
          | nil =>
              cases split
              rw [List.map_nil, List.append_nil] at violated
              exact absurd violated admissible.not_violates
          | cons earlier before =>
              cases split
              refine ⟨before, first, after, rfl, (Member.declarable_cons_iff.mp declarable).2, ?_⟩
              simpa using violated

end Members

/-! ## The base -/

section Base

variable {catalog : Catalog Rule} {label : String} {declaration : TypeDecl Rule}
  {error : RegistrationError}

theorem Catalog.foundation_eq_error_iff :
    catalog.foundation label declaration = .error error ↔
      declaration.Baseless catalog label error := by
  constructor
  · intro failed
    unfold foundation at failed
    cases named : declaration.base? with
    | none => simp [named] at failed
    | some baseName =>
        simp only [named] at failed
        cases known : (catalog.registry label).get? baseName with
        | none =>
            simp only [known, Except.error.injEq] at failed
            subst failed
            exact .unknown named known
        | some base =>
            simp only [known] at failed
            split_ifs at failed with copied
            cases failed
            exact .invalid named known copied
  · intro baseless
    cases baseless with
    | unknown named missing =>
        have absent : (catalog.registry label).get? _ = none := missing
        simp [foundation, named, absent]
    | invalid named known copied =>
        have present : (catalog.registry label).get? _ = some _ := known
        simp [foundation, named, present, copied]

theorem TypeDecl.Derivable.not_baseless
    (derivable : declaration.Derivable catalog label) :
    ¬ declaration.Baseless catalog label error := by
  intro baseless
  cases baseless with
  | unknown named missing =>
      obtain ⟨base, known, _⟩ := derivable _ named
      rw [missing] at known
      cases known
  | invalid named known copied =>
      obtain ⟨base, knownAgain, baseShared, shared⟩ := derivable _ named
      rw [known] at knownAgain
      cases knownAgain
      simp [baseShared, shared] at copied

/-- A declaration finds its base, and keeps its own name on top of it. -/
theorem Catalog.foundation_eq
    (catalog : Catalog Rule) (label : String) (declaration : TypeDecl Rule) :
    (∃ error, catalog.foundation label declaration = .error error ∧
        declaration.Baseless catalog label error) ∨
      ∃ foundation, catalog.foundation label declaration = .ok foundation ∧
        declaration.Derivable catalog label ∧ foundation.name = declaration.name := by
  cases founded : catalog.foundation label declaration with
  | error error => exact .inl ⟨error, rfl, foundation_eq_error_iff.mp founded⟩
  | ok foundation =>
      refine .inr ⟨foundation, rfl, ?_⟩
      rcases foundation_eq_ok founded with
        ⟨noBase, rfl⟩ | ⟨baseName, base, named, known, shared, baseShared, rfl⟩
      · refine ⟨fun baseName named => ?_, rfl⟩
        rw [noBase] at named
        cases named
      · refine ⟨fun other namedOther => ?_, rfl⟩
        rw [named] at namedOther
        cases namedOther
        exact ⟨base, known, baseShared, shared⟩

end Base

/-! ## The whole declaration -/

section Register

variable {catalog : Catalog Rule} {label : String} {declaration : TypeDecl Rule}

theorem TypeDecl.acceptable_iff :
    declaration.Acceptable catalog label ↔
      catalog.layout? ⟨label, declaration.name⟩ = none ∧ declaration.Derivable catalog label ∧
        Member.Declarable catalog label [] declaration.members := by
  constructor
  · rintro ⟨fresh, derivable, distinct, startable⟩
    exact ⟨fresh, derivable, by simp, distinct, startable⟩
  · rintro ⟨fresh, derivable, _, distinct, startable⟩
    exact ⟨fresh, derivable, distinct, startable⟩

/-- A name that is taken ends the registration at once. -/
theorem Catalog.register_of_known
    {layout : Layout Rule} (known : catalog.layout? ⟨label, declaration.name⟩ = some layout) :
    catalog.register label declaration =
      ⟨.error (.duplicateType declaration.name), [], catalog⟩ := by
  have contained : (catalog.registry label).contains declaration.name = true := by
    rw [contains_iff_layout?, known]
    simp
  rw [register, if_pos contained]

theorem Catalog.outcome_of_known
    {layout : Layout Rule} (known : catalog.layout? ⟨label, declaration.name⟩ = some layout) :
    (catalog.register label declaration).outcome = .error (.duplicateType declaration.name) := by
  rw [register_of_known known]

/-- A free name leaves the registration to the base and the members. -/
theorem Catalog.register_of_fresh
    (fresh : catalog.layout? ⟨label, declaration.name⟩ = none) :
    catalog.register label declaration =
      match catalog.foundation label declaration with
      | .error error => ⟨.error error, [], catalog⟩
      | .ok foundation =>
          match Draft.addMembers catalog label ⟨foundation, [], []⟩ declaration.members with
          | (draft, some error) => ⟨.error error, draft.log, catalog⟩
          | (draft, none) =>
              ⟨.ok draft.layout,
                draft.log ++
                  [.registered draft.layout.name draft.layout.semantics
                    draft.layout.members.length draft.layout.fieldCount],
                catalog.addLayout label draft.layout⟩ := by
  have absent : ¬ (catalog.registry label).contains declaration.name = true := by
    rw [contains_iff_layout?, not_not]
    exact fresh
  unfold register
  exact if_neg absent

theorem Catalog.outcome_of_fresh (fresh : catalog.layout? ⟨label, declaration.name⟩ = none) :
    (catalog.register label declaration).outcome =
      match catalog.foundation label declaration with
      | .error error => .error error
      | .ok foundation =>
          let taken := Draft.addMembers catalog label ⟨foundation, [], []⟩ declaration.members
          match taken.2 with
          | none => .ok taken.1.layout
          | some error => .error error := by
  rw [register_of_fresh fresh]
  cases catalog.foundation label declaration with
  | error error => rfl
  | ok foundation =>
      simp only
      rcases Draft.addMembers catalog label ⟨foundation, [], []⟩ declaration.members with
        ⟨draft, none | error⟩
      · rfl
      · rfl

theorem TypeDecl.Acceptable.exists_outcome
    (acceptable : declaration.Acceptable catalog label) :
    ∃ layout, (catalog.register label declaration).outcome = .ok layout := by
  obtain ⟨fresh, derivable, declarable⟩ := acceptable_iff.mp acceptable
  rw [Catalog.outcome_of_fresh fresh]
  rcases catalog.foundation_eq label declaration with
    ⟨error, _, baseless⟩ | ⟨foundation, founded, _, _⟩
  · exact absurd baseless derivable.not_baseless
  · have taken := (Draft.addMembers_eq_none_iff ⟨foundation, [], []⟩ _).mpr declarable
    simp only [founded, taken]
    exact ⟨_, rfl⟩

theorem TypeDecl.FirstViolation.outcome
    {error : RegistrationError} (violation : declaration.FirstViolation catalog label error) :
    (catalog.register label declaration).outcome = .error error := by
  cases violation with
  | duplicate known => exact Catalog.outcome_of_known known
  | base fresh baseless =>
      rw [Catalog.outcome_of_fresh fresh, Catalog.foundation_eq_error_iff.mpr baseless]
  | @member _ before after member fresh derivable split declarable violated =>
      rw [Catalog.outcome_of_fresh fresh]
      rcases catalog.foundation_eq label declaration with
        ⟨error, _, baseless⟩ | ⟨foundation, founded, _, name⟩
      · exact absurd baseless derivable.not_baseless
      · rw [← name] at violated
        have taken := (Draft.addMembers_eq_some_iff ⟨foundation, [], []⟩ _).mpr
          ⟨before, member, after, split, declarable, violated⟩
        simp only [founded, taken]

/-- A registration either meets all conditions or violates a first one. -/
theorem Catalog.register_cases
    (catalog : Catalog Rule) (label : String) (declaration : TypeDecl Rule) :
    declaration.Acceptable catalog label ∨
      ∃ error, declaration.FirstViolation catalog label error := by
  cases known : catalog.layout? ⟨label, declaration.name⟩ with
  | some layout => exact .inr ⟨_, .duplicate known⟩
  | none =>
      rcases catalog.foundation_eq label declaration with
        ⟨error, _, baseless⟩ | ⟨foundation, _, derivable, name⟩
      · exact .inr ⟨error, .base known baseless⟩
      · cases taken :
            (Draft.addMembers catalog label ⟨foundation, [], []⟩ declaration.members).2 with
        | none =>
            have declarable := (Draft.addMembers_eq_none_iff _ _).mp taken
            exact .inl (TypeDecl.acceptable_iff.mpr ⟨known, derivable, declarable⟩)
        | some error =>
            obtain ⟨before, member, after, split, declarable, violated⟩ :=
              (Draft.addMembers_eq_some_iff _ _).mp taken
            rw [name] at violated
            exact .inr ⟨error, .member known derivable split declarable violated⟩

end Register

/-! ## What a registration leaves -/

theorem Catalog.instantiate?_of_layout?
    {catalog : Catalog Rule} {type : TypeId} {layout : Layout Rule}
    (registered : catalog.layout? type = some layout) (heap : Heap) :
    catalog.instantiate? type heap = .ok (catalog.instantiate type heap) := by
  rw [instantiate?, registered]

/-- Instances are made from the layout alone. -/
theorem Catalog.madeAlike_of_layout?
    {catalog later : Catalog Rule} {type : TypeId} {layout : Layout Rule}
    (registered : catalog.layout? type = some layout)
    (registeredLater : later.layout? type = some layout) (heap other : Heap) :
    Value.MadeAlike heap other (catalog.instantiate type heap) (later.instantiate type other) := by
  rw [instantiate_of_layout? registered, instantiate_of_layout? registeredLater]
  cases layout.semantics with
  | value => exact .struct ⟨type, layout.defaults⟩
  | reference => exact .object ⟨type, layout.defaults⟩

theorem Catalog.layout?_register
    {catalog : Catalog Rule} {label : String} {declaration : TypeDecl Rule} {layout : Layout Rule}
    (acceptance : (catalog.register label declaration).outcome = .ok layout) (type : TypeId) :
    (catalog.register label declaration).catalog.layout? type =
      if type = ⟨label, declaration.name⟩ then some layout else catalog.layout? type := by
  obtain ⟨_, made, grown⟩ := register_eq_ok acceptance
  rw [grown, layout?_addLayout, made.name_eq]

/-- A registration succeeds exactly when the declaration meets all conditions, fails for the first
one that it violates, and touches no type but the new one. -/
theorem Catalog.registersExactly
    (catalog : Catalog Rule) (label : String) (declaration : TypeDecl Rule) :
    catalog.RegistersExactly label declaration := by
  constructor
  case accepted_iff =>
    refine ⟨?_, TypeDecl.Acceptable.exists_outcome⟩
    rintro ⟨layout, accepted⟩
    rcases catalog.register_cases label declaration with acceptable | ⟨error, violation⟩
    · exact acceptable
    · rw [violation.outcome] at accepted
      cases accepted
  case refused_iff =>
    intro error
    refine ⟨fun refused => ?_, TypeDecl.FirstViolation.outcome⟩
    rcases catalog.register_cases label declaration with acceptable | ⟨first, violation⟩
    · obtain ⟨layout, accepted⟩ := acceptable.exists_outcome
      rw [accepted] at refused
      cases refused
    · have failed := violation.outcome
      rw [refused] at failed
      cases failed
      exact violation
  case unchanged => exact fun error => register_eq_error
  case layout?_eq => exact fun layout => layout?_register
  case madeAlike =>
    intro layout acceptance type registered heap other
    have fresh := layout?_eq_none_of_not_contains (register_eq_ok acceptance).1
    obtain ⟨known, knownType⟩ := Option.ne_none_iff_exists'.mp registered
    have later : (catalog.register label declaration).catalog.layout? type = some known := by
      rw [layout?_register acceptance, if_neg, knownType]
      rintro rfl
      rw [fresh] at knownType
      cases knownType
    exact ⟨_, _, instantiate?_of_layout? knownType heap, instantiate?_of_layout? later other,
      madeAlike_of_layout? knownType later heap other⟩

namespace Ring

/-- A declaration with a pair that is fine, a number that starts with a text, and a second member of
the first name. -/
def faulty : TypeDecl PropertyRule where
  name := "Faulty"
  semantics := .reference
  base? := some "Node"
  members :=
    [⟨"extra", .struct "Pair", .field, .everyone, none⟩,
      ⟨"count", .int, .field, .everyone, some (.text "none")⟩,
      ⟨"extra", .int, .field, .everyone, none⟩]

def mended : TypeDecl PropertyRule :=
  { faulty with members := faulty.members.take 1 }

end Ring

/-- The text is found before the repeated name. Without both members the declaration is accepted,
and nodes are made as before. -/
theorem Catalog.registersExactly_ring :
    Ring.faulty.FirstViolation Ring.catalog "main" (.invalidDefault "Faulty" "count" .int) ∧
      ¬ Ring.faulty.Acceptable Ring.catalog "main" ∧
      Ring.mended.Acceptable Ring.catalog "main" ∧
      ∃ made remade, Ring.catalog.instantiate? ⟨"main", "Node"⟩ Ring.heap = .ok made ∧
        (Ring.catalog.register "main" Ring.mended).catalog.instantiate? ⟨"main", "Node"⟩
          Heap.empty = .ok remade ∧
        Value.MadeAlike Ring.heap Heap.empty made remade := by
  have refused : (Ring.catalog.register "main" Ring.faulty).outcome =
      .error (.invalidDefault "Faulty" "count" .int) := by
    rfl
  obtain ⟨layout, accepted⟩ :
      ∃ layout, (Ring.catalog.register "main" Ring.mended).outcome = .ok layout :=
    ⟨_, rfl⟩
  have known : (Ring.catalog.layout? ⟨"main", "Node"⟩).isSome := rfl
  have faulty := registersExactly Ring.catalog "main" Ring.faulty
  have mended := registersExactly Ring.catalog "main" Ring.mended
  refine ⟨(faulty.refused_iff _).mp refused, ?_, mended.accepted_iff.mp ⟨layout, accepted⟩,
    mended.madeAlike layout accepted _ (Option.isSome_iff_ne_none.mp known) _ _⟩
  intro acceptable
  obtain ⟨other, otherAccepted⟩ := faulty.accepted_iff.mpr acceptable
  rw [refused] at otherAccepted
  cases otherAccepted

end ObjectGraph
