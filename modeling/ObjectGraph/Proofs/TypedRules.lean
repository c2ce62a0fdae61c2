import ObjectGraph.Examples.Ring
import ObjectGraph.Proofs.TypedAccess
import ObjectGraph.Proofs.TypedRegistration

/-!
# Rules keep types

Rules for reading computed members answer fields, numbers, texts and new instances, and so
well-typed values, unless the rule is a constant that is not well typed itself. A rule that stores a
value into backing fields keeps the owner well typed when each of these fields accepts it.
-/

namespace ObjectGraph

section Rules

variable {Rule : Type} {catalog : Catalog Rule} {heap : Heap} {owner : Composite}

/-! ## Reading -/

theorem Composite.wellTyped_field?
    {name : String} {value : Value} (typed : owner.toValue.WellTyped catalog heap)
    (found : owner.field? catalog name = some value) :
    value.WellTyped catalog heap := by
  obtain ⟨index, _, present⟩ := Option.bind_eq_some_iff.mp found
  exact (wellTyped_toValue_iff.mp typed).2 value (List.mem_of_getElem? present)

namespace ReadRule

theorem wellTyped_nestedField?
    {names : List String} {value : Value} (heapTyped : heap.WellTyped catalog)
    (typed : owner.toValue.WellTyped catalog heap)
    (found : nestedField? catalog heap names owner = some value) :
    value.WellTyped catalog heap := by
  induction names generalizing owner with
  | nil => cases found
  | cons name names inductionHypothesis =>
      cases names with
      | nil => exact owner.wellTyped_field? typed found
      | cons next names =>
          obtain ⟨middle, reached, rest⟩ := Option.bind_eq_some_iff.mp found
          obtain ⟨inner, opened, deeper⟩ := Option.bind_eq_some_iff.mp rest
          have middleTyped := owner.wellTyped_field? typed reached
          have innerTyped : inner.toValue.WellTyped catalog heap := by
            unfold ownerOf? at opened
            split at opened
            · next container =>
                cases opened
                exact heapTyped.container? middleTyped container
            · cases opened
          exact inductionHypothesis innerTyped deeper

/-- Reading by a rule keeps types. -/
theorem keepsTypes
    {rule : ReadRule} (wellFormed : catalog.WellFormed)
    (constant : ∀ value, rule = .constant value → value.WellTyped catalog Heap.empty)
    (heapTyped : heap.WellTyped catalog) (typed : owner.toValue.WellTyped catalog heap) :
    heap.Evolves catalog (rule.run catalog owner heap).2 ∧
      (rule.run catalog owner heap).1.WellTyped catalog (rule.run catalog owner heap).2 := by
  have unchanged := Heap.Evolves.refl heapTyped
  cases rule with
  | field name =>
      refine ⟨unchanged, ?_⟩
      cases found : owner.field? catalog name with
      | none =>
          simp only [run, found]
          exact .null
      | some value =>
          simp only [run, found]
          exact owner.wellTyped_field? typed found
  | constant value => exact ⟨unchanged, (constant value rfl).of_grows heap.grows_empty⟩
  | nested names =>
      refine ⟨unchanged, ?_⟩
      cases found : nestedField? catalog heap names owner with
      | none =>
          simp only [run, found]
          exact .null
      | some value =>
          simp only [run, found]
          exact wellTyped_nestedField? heapTyped typed found
  | fresh =>
      obtain ⟨layout, fits⟩ := (Composite.wellTyped_toValue_iff.mp typed).1
      exact wellFormed.instantiate heapTyped fits.registered
  | scaledInt name factor => exact ⟨unchanged, .int _⟩
  | scaledFloat name factor => exact ⟨unchanged, .float _⟩
  | typeName => exact ⟨unchanged, .text _⟩
  | length name => exact ⟨unchanged, .int _⟩

end ReadRule

/-! ## Writing -/

namespace Composite

/-- A field takes a value that its member accepts, and the type of the owner stays. -/
theorem keepsTypes_setField?
    {name : String} {value : Value} {updated : Composite} (wellFormed : catalog.WellFormed)
    (typed : owner.toValue.WellTyped catalog heap) (valueTyped : value.WellTyped catalog heap)
    (accepted : ∀ placed, (catalog.layout owner.type).member? name = some placed →
      placed.type.accepts catalog value = true)
    (stored : owner.setField? catalog name value = some updated) :
    updated.type = owner.type ∧ updated.toValue.WellTyped catalog heap := by
  obtain ⟨index, slot, rest⟩ := Option.bind_eq_some_iff.mp stored
  obtain ⟨placed, reached, place⟩ := Option.bind_eq_some_iff.mp slot
  obtain ⟨position, _, present⟩ := Option.bind_eq_some_iff.mp reached
  simp only [Option.ite_none_right_eq_some, Option.some.injEq] at rest
  obtain ⟨_, rfl⟩ := rest
  exact ⟨rfl, wellTyped_setSlot wellFormed typed (List.mem_of_getElem? present) place
    (accepted placed reached) valueTyped⟩

end Composite

/-- Storing into backing fields that accept the value keeps types. -/
theorem WriteRule.keepsTypes_fields
    {names : List String} {value : Value} (wellFormed : catalog.WellFormed)
    (typed : owner.toValue.WellTyped catalog heap) (valueTyped : value.WellTyped catalog heap)
    (accepted : ∀ name ∈ names, ∀ placed, (catalog.layout owner.type).member? name = some placed →
      placed.type.accepts catalog value = true) :
    ((WriteRule.fields names).run catalog owner value).type = owner.type ∧
      ((WriteRule.fields names).run catalog owner value).toValue.WellTyped catalog heap := by
  simp only [run]
  induction names generalizing owner with
  | nil => exact ⟨rfl, typed⟩
  | cons name names inductionHypothesis =>
      have first : (store catalog owner name value).type = owner.type ∧
          (store catalog owner name value).toValue.WellTyped catalog heap := by
        unfold store
        cases stored : owner.setField? catalog name value with
        | none => exact ⟨rfl, typed⟩
        | some updated =>
            exact owner.keepsTypes_setField? wellFormed typed valueTyped
              (accepted name List.mem_cons_self) stored
      obtain ⟨sameType, storedTyped⟩ := first
      obtain ⟨finalType, finalTyped⟩ := inductionHypothesis storedTyped
        (fun later present placed => by
          rw [sameType]
          exact accepted later (List.mem_cons_of_mem _ present) placed)
      exact ⟨finalType.trans sameType, finalTyped⟩

end Rules

/-! ## Catalogs of rules -/

/-- The constants among the computed members hold no struct and nothing shared, and a computed
member that can be written stores into fields of its own type. -/
structure Layout.RulesFit (layout : Layout PropertyRule) : Prop where
  constant : ∀ placed ∈ layout.members, ∀ rule, placed.member.kind = .property rule →
    ∀ value, rule.read = .constant value →
      value.WellTyped (Catalog.empty : Catalog PropertyRule) Heap.empty
  backing : ∀ placed ∈ layout.members, ∀ rule, placed.member.kind = .property rule →
    ∀ write, rule.write? = some write → ∃ names, write = .fields names ∧
      ∀ name ∈ names, ∀ backing, layout.member? name = some backing → backing.type = placed.type

def Catalog.RulesFit (catalog : Catalog PropertyRule) : Prop :=
  ∀ type, (catalog.layout type).RulesFit

namespace Catalog.RulesFit

variable {catalog : Catalog PropertyRule}

theorem empty : (Catalog.empty : Catalog PropertyRule).RulesFit := by
  intro type
  constructor <;> (intro placed member; cases member)

theorem addLayout
    {layout : Layout PropertyRule} (rulesFit : catalog.RulesFit) (fits : layout.RulesFit)
    (label : String) :
    (catalog.addLayout label layout).RulesFit := by
  intro type
  rw [layout_addLayout]
  split
  · exact fits
  · exact rulesFit type

theorem accessorsKeepTypes (rulesFit : catalog.RulesFit) (wellFormed : catalog.WellFormed) :
    catalog.AccessorsKeepTypes where
  read owner placed rule heap member kind heapTyped typed := by
    refine ReadRule.keepsTypes wellFormed (fun value constant => ?_) heapTyped typed
    have bare := (rulesFit owner.type).constant placed member rule kind value constant
    exact bare.of_includes (fun _ _ known => by cases known) wellFormed.named
  write owner placed rule heap run value member kind writer heapTyped typed valueTyped accepted :=
    by
    obtain ⟨write, declared, rfl⟩ := Option.map_eq_some_iff.mp writer
    obtain ⟨names, rfl, sameType⟩ :=
      (rulesFit owner.type).backing placed member rule kind write declared
    refine ⟨.refl heapTyped, WriteRule.keepsTypes_fields wellFormed typed valueTyped ?_⟩
    intro name present backing reached
    rwa [sameType name present backing reached]

end Catalog.RulesFit

/-! ## The rules of the ring -/

namespace Ring

def pairCatalog : Catalog PropertyRule :=
  (Catalog.empty.register "main" pair).catalog

def pairLayout : Layout PropertyRule :=
  pairCatalog.layout ⟨"main", "Pair"⟩

def nodeLayout : Layout PropertyRule :=
  catalog.layout ⟨"main", "Node"⟩

theorem pairCatalog_eq_addLayout :
    pairCatalog = Catalog.empty.addLayout "main" pairLayout :=
  rfl

theorem catalog_eq_addLayout :
    catalog = pairCatalog.addLayout "main" nodeLayout :=
  rfl

/-- The computed member of a pair views one of its numbers and writes both. -/
theorem computed_pairLayout
    {placed : PlacedMember PropertyRule} {rule : PropertyRule}
    (present : placed ∈ pairLayout.members) (kind : placed.member.kind = .property rule) :
    placed.type = .int ∧ rule = ⟨.field "x", some (.fields ["x", "y"])⟩ := by
  have members : pairLayout.members =
      [⟨⟨"x", .int, .field, .everyone, none⟩, "Pair", 0⟩,
        ⟨⟨"y", .int, .field, .everyone, none⟩, "Pair", 1⟩,
        ⟨⟨"both", .int, .property ⟨.field "x", some (.fields ["x", "y"])⟩, .everyone, none⟩,
          "Pair", 2⟩] :=
    rfl
  simp only [members, List.mem_cons, List.not_mem_nil, or_false] at present
  rcases present with rfl | rfl | rfl
  · cases kind
  · cases kind
  · cases kind
    exact ⟨rfl, rfl⟩

theorem rulesFit_pairLayout : pairLayout.RulesFit where
  constant placed present rule kind value constant := by
    obtain ⟨_, rfl⟩ := computed_pairLayout present kind
    cases constant
  backing placed present rule kind write declared := by
    obtain ⟨type, rfl⟩ := computed_pairLayout present kind
    cases declared
    refine ⟨["x", "y"], rfl, fun name named backing reached => ?_⟩
    have found : (pairLayout.member? name).map PlacedMember.type = some .int := by
      simp only [List.mem_cons, List.not_mem_nil, or_false] at named
      rcases named with rfl | rfl <;> rfl
    rw [reached] at found
    rw [type]
    exact Option.some.inj found

/-- Both computed members of a node are read-only, and neither is a constant. -/
theorem computed_nodeLayout
    {placed : PlacedMember PropertyRule} {rule : PropertyRule}
    (present : placed ∈ nodeLayout.members) (kind : placed.member.kind = .property rule) :
    rule.write? = none ∧ ∀ value, rule.read ≠ .constant value := by
  have members : nodeLayout.members =
      [⟨⟨"pair", .struct "Pair", .field, .everyone, none⟩, "Node", 0⟩,
        ⟨⟨"next", .object "Node", .field, .everyone, none⟩, "Node", 1⟩,
        ⟨⟨"copy", .struct "Pair", .property ⟨.field "pair", none⟩, .everyone, none⟩, "Node", 2⟩,
        ⟨⟨"spare", .object "Node", .property ⟨.fresh, none⟩, .everyone, none⟩, "Node", 2⟩] :=
    rfl
  simp only [members, List.mem_cons, List.not_mem_nil, or_false] at present
  rcases present with rfl | rfl | rfl | rfl
  · cases kind
  · cases kind
  · cases kind
    exact ⟨rfl, fun value => nofun⟩
  · cases kind
    exact ⟨rfl, fun value => nofun⟩

theorem rulesFit_nodeLayout : nodeLayout.RulesFit where
  constant placed present rule kind value constant :=
    absurd constant ((computed_nodeLayout present kind).2 value)
  backing placed present rule kind write declared := by
    rw [(computed_nodeLayout present kind).1] at declared
    cases declared

theorem rulesFit_pairCatalog : pairCatalog.RulesFit := by
  rw [pairCatalog_eq_addLayout]
  exact Catalog.RulesFit.empty.addLayout rulesFit_pairLayout "main"

theorem rulesFit_catalog : catalog.RulesFit := by
  rw [catalog_eq_addLayout]
  exact rulesFit_pairCatalog.addLayout rulesFit_nodeLayout "main"

end Ring

end ObjectGraph
