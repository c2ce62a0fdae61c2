import ObjectGraph.Proofs.TypedRegistration

/-!
# Registered declarations

A catalog is reached by submitting declarations one after the other, and those that are accepted are
recorded. This module says once what becomes of an accepted declaration:

* its name was free, and its own members have distinct names;
* its layout starts as the layout of its base, or bare, and gets the members one by one;
* it stays registered, whatever is submitted later.

What holds of every layout follows by induction: it holds of bare layouts, passes to derived ones
and is kept by every new member.
-/

namespace ObjectGraph

variable {Rule : Type}

/-! ## Declarations and their records -/

def TypeDecl.member? (declaration : TypeDecl Rule) (name : String) : Option (Member Rule) :=
  declaration.members.find? fun member => member.name == name

/-- A declaration with the label of the registry that it is for. -/
structure Submission (Rule : Type) where
  label : String
  declaration : TypeDecl Rule

namespace Submission

def type (submission : Submission Rule) : TypeId :=
  ⟨submission.label, submission.declaration.name⟩

def declaration? (type : TypeId) : List (Submission Rule) → Option (TypeDecl Rule)
  | [] => none
  | submission :: earlier =>
      if submission.type = type then some submission.declaration else declaration? type earlier

/-- The member of a name that a type itself declares, according to recorded declarations. -/
def member? (accepted : List (Submission Rule)) (type : TypeId) (name : String) :
    Option (Member Rule) :=
  (declaration? type accepted).bind fun declaration => declaration.member? name

end Submission

/-- The catalogs that submitting declarations leads to, with the declarations that were accepted,
latest first. -/
inductive Catalog.Records : Catalog Rule → List (Submission Rule) → Prop
  | empty : Records .empty []
  | accepted {catalog : Catalog Rule} {earlier : List (Submission Rule)} {label : String}
      {declaration : TypeDecl Rule} {layout : Layout Rule} (records : Records catalog earlier)
      (acceptance : (catalog.register label declaration).outcome = .ok layout) :
      Records (catalog.register label declaration).catalog (⟨label, declaration⟩ :: earlier)
  | refused {catalog : Catalog Rule} {earlier : List (Submission Rule)} {label : String}
      {declaration : TypeDecl Rule} {error : RegistrationError} (records : Records catalog earlier)
      (refusal : (catalog.register label declaration).outcome = .error error) :
      Records (catalog.register label declaration).catalog earlier

/-! ## What an accepted declaration becomes -/

/-- Members are added to a layout one by one, each with what it adds to the field buffer. -/
inductive Layout.Adds (catalog : Catalog Rule) (label : String) :
    Layout Rule → List (Member Rule) → Layout Rule → Prop
  | nil (layout : Layout Rule) : Adds catalog label layout [] layout
  | cons {layout complete : Layout Rule} {member : Member Rule} {members : List (Member Rule)}
      {defaults : List Value}
      (added : Draft.addedDefaults catalog label layout.name member = .ok defaults)
      (rest : Adds catalog label (layout.addMember member defaults) members complete) :
      Adds catalog label layout (member :: members) complete

theorem Draft.adds_of_addMembers
    {catalog : Catalog Rule} {label : String} {draft complete : Draft Rule}
    {members : List (Member Rule)}
    (taken : addMembers catalog label draft members = (complete, none)) :
    Layout.Adds catalog label draft.layout members complete.layout ∧
      (members.map Member.name).Nodup ∧
      ∀ name ∈ draft.declared, name ∉ members.map Member.name := by
  induction members generalizing draft with
  | nil =>
      cases taken
      exact ⟨.nil _, .nil, by simp⟩
  | cons member members inductionHypothesis =>
      rw [addMembers] at taken
      split at taken
      · cases taken
      · next extended taking =>
          simp only [addMember, bind, Except.bind, pure, Except.pure] at taking
          split at taking
          · cases taking
          · next fresh =>
              split at taking
              · cases taking
              · next defaults added =>
                  cases taking
                  obtain ⟨adds, distinct, apart⟩ := inductionHypothesis taken
                  simp only [List.mem_append, List.mem_singleton] at apart
                  refine ⟨.cons added adds, ?_, fun name declared => ?_⟩
                  · exact List.nodup_cons.mpr ⟨apart _ (.inr rfl), distinct⟩
                  · rw [List.map_cons, List.mem_cons, not_or]
                    refine ⟨?_, apart name (.inl declared)⟩
                    rintro rfl
                    exact fresh (by simpa using declared)

/-- A declaration is laid out on nothing, or on a reference type of the same registry. -/
theorem Catalog.foundation_eq_ok
    {catalog : Catalog Rule} {label : String} {declaration : TypeDecl Rule}
    {foundation : Layout Rule} (founded : catalog.foundation label declaration = .ok foundation) :
    (declaration.base? = none ∧ foundation = .bare declaration.name declaration.semantics) ∨
      ∃ baseName base, declaration.base? = some baseName ∧
        catalog.layout? ⟨label, baseName⟩ = some base ∧
        declaration.semantics = .reference ∧ base.semantics = .reference ∧
        foundation = base.derive declaration.name declaration.semantics := by
  unfold Catalog.foundation at founded
  cases declared : declaration.base? with
  | none =>
      simp only [declared, Except.ok.injEq] at founded
      exact .inl ⟨rfl, founded.symm⟩
  | some baseName =>
      simp only [declared] at founded
      cases registered : (catalog.registry label).get? baseName with
      | none => simp [registered] at founded
      | some base =>
          simp only [registered] at founded
          split at founded
          · cases founded
          · next derivable =>
              cases founded
              simp only [not_or] at derivable
              refine .inr ⟨baseName, base, rfl, registered, ?_, ?_, rfl⟩
              · cases semantics : declaration.semantics with
                | reference => rfl
                | value => exact absurd semantics derivable.1
              · cases semantics : base.semantics with
                | reference => rfl
                | value => exact absurd semantics derivable.2

/-- A layout is what a declaration has been made into, when some part of a catalog was registered.
-/
structure Layout.MadeFrom (catalog : Catalog Rule) (label : String) (declaration : TypeDecl Rule)
    (layout : Layout Rule) : Prop where
  distinct : (declaration.members.map Member.name).Nodup
  built : ∃ earlier foundation, catalog.Includes earlier ∧
    earlier.foundation label declaration = .ok foundation ∧
    Layout.Adds earlier label foundation declaration.members layout

namespace Layout

variable {catalog : Catalog Rule} {label : String}

/-- New members leave the name, the semantics and the ancestors of a layout as they are. -/
theorem Adds.head_eq
    {layout complete : Layout Rule} {members : List (Member Rule)}
    (adds : Adds catalog label layout members complete) :
    complete.name = layout.name ∧ complete.semantics = layout.semantics ∧
      complete.ancestors = layout.ancestors := by
  induction adds with
  | nil layout => exact ⟨rfl, rfl, rfl⟩
  | cons added rest inductionHypothesis => exact inductionHypothesis

theorem MadeFrom.name_eq
    {declaration : TypeDecl Rule} {layout : Layout Rule}
    (made : layout.MadeFrom catalog label declaration) :
    layout.name = declaration.name := by
  obtain ⟨earlier, foundation, _, founded, adds⟩ := made.built
  rw [adds.head_eq.1]
  rcases Catalog.foundation_eq_ok founded with ⟨_, rfl⟩ | ⟨_, _, _, _, _, _, rfl⟩
  · rfl
  · rfl

theorem MadeFrom.of_includes
    {later : Catalog Rule} {declaration : TypeDecl Rule} {layout : Layout Rule}
    (made : layout.MadeFrom catalog label declaration) (includes : later.Includes catalog) :
    layout.MadeFrom later label declaration := by
  obtain ⟨earlier, foundation, included, built⟩ := made.built
  exact ⟨made.distinct, earlier, foundation,
    fun type known registered => includes type known (included type known registered), built⟩

end Layout

namespace Catalog

variable {catalog : Catalog Rule} {label : String} {declaration : TypeDecl Rule}

/-- An accepted declaration had a free name and distinct members. It was laid out in the catalog
that it was submitted to, and the catalog grew by its layout. -/
theorem register_eq_addLayout
    {layout : Layout Rule}
    (acceptance : (catalog.register label declaration).outcome = .ok layout) :
    (catalog.registry label).contains declaration.name = false ∧
      (declaration.members.map Member.name).Nodup ∧
      (∃ foundation, catalog.foundation label declaration = .ok foundation ∧
        Layout.Adds catalog label foundation declaration.members layout) ∧
      (catalog.register label declaration).catalog = catalog.addLayout label layout := by
  unfold register at acceptance ⊢
  split at acceptance
  · cases acceptance
  · next fresh =>
      cases founded : catalog.foundation label declaration with
      | error error => simp [founded] at acceptance
      | ok foundation =>
          simp only [founded] at acceptance ⊢
          cases taken : Draft.addMembers catalog label ⟨foundation, [], []⟩ declaration.members with
          | mk draft refusal? =>
              cases refusal? with
              | some error => simp [taken] at acceptance
              | none =>
                  simp only [taken, Except.ok.injEq] at acceptance
                  subst acceptance
                  obtain ⟨adds, distinct, _⟩ := Draft.adds_of_addMembers taken
                  simp only [Bool.not_eq_true] at fresh
                  exact ⟨fresh, distinct, ⟨foundation, rfl, adds⟩, by simp [fresh]⟩

theorem register_eq_ok
    {layout : Layout Rule}
    (acceptance : (catalog.register label declaration).outcome = .ok layout) :
    (catalog.registry label).contains declaration.name = false ∧
      layout.MadeFrom catalog label declaration ∧
      (catalog.register label declaration).catalog = catalog.addLayout label layout := by
  obtain ⟨fresh, distinct, ⟨foundation, founded, adds⟩, grown⟩ := register_eq_addLayout acceptance
  exact ⟨fresh, ⟨distinct, catalog, foundation, .refl catalog, founded, adds⟩, grown⟩

theorem register_eq_error
    {error : RegistrationError}
    (refusal : (catalog.register label declaration).outcome = .error error) :
    (catalog.register label declaration).catalog = catalog := by
  unfold register at refusal ⊢
  split
  · rfl
  · split
    · rfl
    · split
      · rfl
      · next fresh _ foundation founded _ draft taken =>
          simp [fresh, founded, taken] at refusal

end Catalog

/-! ## What holds of every registered type -/

namespace Catalog.Records

variable {catalog : Catalog Rule} {accepted : List (Submission Rule)}

/-- Every registered layout has been made from the declaration that is recorded for it. -/
theorem exists_declaration
    (records : catalog.Records accepted) {type : TypeId} {layout : Layout Rule}
    (registered : catalog.layout? type = some layout) :
    ∃ declaration, Submission.declaration? type accepted = some declaration ∧
      declaration.name = type.name ∧ layout.MadeFrom catalog type.registry declaration := by
  induction records generalizing type layout with
  | empty => simp at registered
  | refused records refusal inductionHypothesis =>
      rw [register_eq_error refusal] at registered ⊢
      exact inductionHypothesis registered
  | @accepted catalog earlier label declaration newLayout records acceptance inductionHypothesis =>
      obtain ⟨fresh, made, grown⟩ := register_eq_ok acceptance
      have name : newLayout.name = declaration.name := made.name_eq
      have includes : (catalog.addLayout label newLayout).Includes catalog :=
        includes_addLayout (by rw [name]; exact fresh)
      rw [grown] at registered ⊢
      rw [layout?_addLayout, name] at registered
      rw [Submission.declaration?]
      by_cases latest : (⟨label, declaration⟩ : Submission Rule).type = type
      · subst latest
        rw [Submission.type, if_pos rfl] at registered
        cases registered
        exact ⟨declaration, if_pos rfl, rfl, made.of_includes includes⟩
      · rw [if_neg latest]
        rw [if_neg fun same => latest same.symm] at registered
        obtain ⟨declared, recorded, sameName, madeEarlier⟩ := inductionHypothesis registered
        exact ⟨declared, recorded, sameName, madeEarlier.of_includes includes⟩

theorem name_eq
    (records : catalog.Records accepted) {type : TypeId} {layout : Layout Rule}
    (registered : catalog.layout? type = some layout) :
    layout.name = type.name := by
  obtain ⟨declaration, _, sameName, made⟩ := records.exists_declaration registered
  rw [made.name_eq, sameName]

/-- A property of layouts holds of every registered one if it holds of bare layouts, passes from a
base to what derives from it, and is kept by every member that is added. What a member adds may be
taken from the layouts that are registered already. -/
theorem layout_induction
    {motive : Layout Rule → Prop}
    (bare : ∀ name semantics, motive (.bare name semantics))
    (derive : ∀ base name semantics, motive base → motive (base.derive name semantics))
    (addMember : ∀ (known : Catalog Rule) label layout member defaults,
      (∀ type other, known.layout? type = some other → motive other) → motive layout →
      Draft.addedDefaults known label layout.name member = .ok defaults →
        motive (layout.addMember member defaults))
    (records : catalog.Records accepted) {type : TypeId} {layout : Layout Rule}
    (registered : catalog.layout? type = some layout) :
    motive layout := by
  have adding : ∀ {known : Catalog Rule} {label : String} {layout complete : Layout Rule}
      {members : List (Member Rule)},
      (∀ type other, known.layout? type = some other → motive other) →
      Layout.Adds known label layout members complete → motive layout → motive complete := by
    intro known label layout complete members holds adds
    induction adds with
    | nil layout => exact id
    | cons added rest inductionHypothesis =>
        exact fun start => inductionHypothesis (addMember _ _ _ _ _ holds start added)
  induction records generalizing type layout with
  | empty => simp at registered
  | refused records refusal inductionHypothesis =>
      rw [register_eq_error refusal] at registered
      exact inductionHypothesis registered
  | @accepted catalog earlier label declaration newLayout records acceptance inductionHypothesis =>
      obtain ⟨_, made, grown⟩ := register_eq_ok acceptance
      rw [grown, layout?_addLayout] at registered
      split at registered
      · cases registered
        obtain ⟨known, foundation, included, founded, adds⟩ := made.built
        have holds : ∀ type other, known.layout? type = some other → motive other :=
          fun type other present => inductionHypothesis (included type other present)
        refine adding holds adds ?_
        rcases foundation_eq_ok founded with ⟨_, rfl⟩ | ⟨baseName, base, _, present, _, _, rfl⟩
        · exact bare _ _
        · exact derive _ _ _ (holds _ _ present)
      · exact inductionHypothesis registered

end Catalog.Records

end ObjectGraph
