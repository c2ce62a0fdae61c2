import Mathlib
import ObjectGraph.Proofs.Lists
import ObjectGraph.Proofs.Typing

/-!
# Equality of values

Values are compared by what they hold in place: two of them are equal when they have the same shape
and agree, position by position, in their scalars, in the names of their structs and in the cells
that they share. So equality is as good as equality of floating point numbers lets it be: symmetric
and transitive, and reflexive except where a NaN is held in place. The contents of cells play no
part.

That floating point equality is symmetric and transitive is known to the whole library only, so this
module imports all of it.
-/

namespace ObjectGraph

namespace Value

/-- Whether two values are equal when the fields of structs are left out of account. -/
def Alike : Value → Value → Prop
  | null, null => True
  | bool left, bool right => left = right
  | int left, int right => left = right
  | float left, float right => (left == right) = true
  | text left, text right => left = right
  | struct leftType _, struct rightType _ => leftType.name = rightType.name
  | shared left, shared right => left = right
  | _, _ => False

theorem Alike.symm {left right : Value} (alike : left.Alike right) :
    right.Alike left := by
  cases left <;> cases right <;> simp only [Alike] at alike ⊢
  case float.float => exact BEq.symm alike
  all_goals exact alike.symm

theorem Alike.trans
    {left middle right : Value} (first : left.Alike middle) (second : middle.Alike right) :
    left.Alike right := by
  cases left <;> cases middle <;> simp only [Alike] at first <;>
    cases right <;> simp only [Alike] at second ⊢
  case float.float.float => exact BEq.trans first second
  all_goals exact first.trans second

theorem sameAll_iff_forall₂ {lefts rights : List Value} :
    sameAll lefts rights = true ↔
      List.Forall₂ (fun left right => (left == right) = true) lefts rights := by
  induction lefts generalizing rights with
  | nil => cases rights <;> simp [sameAll]
  | cons left lefts inductionHypothesis =>
      cases rights with
      | nil => simp [sameAll]
      | cons right rights =>
          rw [sameAll, Bool.and_eq_true, inductionHypothesis, List.forall₂_cons]
          rfl

/-- Values are equal when they are alike and have equal fields. -/
theorem beq_iff_alike_and_fields {left right : Value} :
    (left == right) = true ↔ left.Alike right ∧
      List.Forall₂ (fun left right => (left == right) = true) left.fields right.fields := by
  have unfolded : (left == right) = left.same right := rfl
  rw [unfolded]
  cases left <;> cases right <;> simp [same, Alike, fields, sameAll_iff_forall₂]

/-- A property of values holds of all of them when it holds of a value as soon as it holds of the
fields of that value. -/
theorem inductionOnFields
    {motive : Value → Prop}
    (step : ∀ value : Value, (∀ field ∈ value.fields, motive field) → motive value)
    (value : Value) :
    motive value := by
  apply step
  intro field present
  cases value with
  | struct type fields =>
      have : sizeOf field < sizeOf fields := List.sizeOf_lt_of_mem present
      exact inductionOnFields step field
  | _ => cases present
termination_by value
decreasing_by
  simp only [struct.sizeOf_spec]
  omega

/-- Two values have the same positions, and at each of them they hold values that are alike. -/
def AlikeThroughout (left right : Value) : Prop :=
  ∀ indices, Option.Rel Alike (left.part? indices) (right.part? indices)

theorem alikeThroughout_iff {left right : Value} :
    left.AlikeThroughout right ↔ left.Alike right ∧
      ∀ index : Nat, Option.Rel AlikeThroughout left.fields[index]? right.fields[index]? := by
  constructor
  · intro alikeParts
    constructor
    · have atRoot := alikeParts []
      rw [part?_nil, part?_nil] at atRoot
      cases atRoot with
      | some alike => exact alike
    · intro index
      have behind (indices : List Nat) := alikeParts (index :: indices)
      simp only [part?_cons] at behind
      generalize left.fields[index]? = field?, right.fields[index]? = other? at behind ⊢
      cases field? with
      | none =>
          cases other? with
          | none => exact .none
          | some other => nomatch part?_nil other ▸ behind []
      | some field =>
          cases other? with
          | none => nomatch part?_nil field ▸ behind []
          | some other => exact .some behind
  · rintro ⟨alike, alikeFields⟩ indices
    cases indices with
    | nil =>
        rw [part?_nil, part?_nil]
        exact .some alike
    | cons index indices =>
        rw [part?_cons, part?_cons]
        have related := alikeFields index
        generalize left.fields[index]? = field?, right.fields[index]? = other? at related ⊢
        cases related with
        | none => exact .none
        | some alikeParts => exact alikeParts indices

/-- Equality is decided position by position. -/
theorem beq_iff_alikeThroughout {left right : Value} :
    (left == right) = true ↔ left.AlikeThroughout right := by
  induction left using inductionOnFields generalizing right with
  | step left inductionHypothesis =>
      rw [beq_iff_alike_and_fields, alikeThroughout_iff, forall₂_iff_getElem?]
      refine and_congr_right fun _ => forall_congr' fun index => ?_
      have sameVerdict (field other : Value) (held : left.fields[index]? = some field) :=
        @inductionHypothesis field (List.mem_of_getElem? held) other
      generalize left.fields[index]? = field? at sameVerdict
      generalize right.fields[index]? = other?
      cases field? <;> cases other? <;> simp [sameVerdict]

/-! ## What equality is like -/

theorem AlikeThroughout.symm {left right : Value} (alike : left.AlikeThroughout right) :
    right.AlikeThroughout left := by
  intro indices
  have related := alike indices
  generalize left.part? indices = part?, right.part? indices = other? at related ⊢
  cases related with
  | none => exact .none
  | some alikeParts => exact .some alikeParts.symm

theorem AlikeThroughout.trans
    {left middle right : Value} (first : left.AlikeThroughout middle)
    (second : middle.AlikeThroughout right) :
    left.AlikeThroughout right := by
  intro indices
  have firstRelated := first indices
  have secondRelated := second indices
  generalize left.part? indices = part?, middle.part? indices = between?,
    right.part? indices = other? at firstRelated secondRelated ⊢
  cases firstRelated with
  | none => exact secondRelated
  | some alikeFirst =>
      cases secondRelated with
      | some alikeSecond => exact .some (alikeFirst.trans alikeSecond)

/-- A NaN is held in place: not in a cell, but at any depth of nested structs, in any field. -/
def HoldsNaN (value : Value) : Prop :=
  ∃ indices number, value.part? indices = some (.float number) ∧ number.isNaN = true

theorem alike_self_iff {value : Value} :
    value.Alike value ↔ ∀ number, value = .float number → number.isNaN = false := by
  cases value <;> simp [Alike]

theorem alikeThroughout_self_iff {value : Value} :
    value.AlikeThroughout value ↔ ¬ value.HoldsNaN := by
  constructor
  · rintro alike ⟨indices, number, held, isNaN⟩
    have alikePart := alike indices
    rw [held] at alikePart
    cases alikePart with
    | some alikeNumber =>
        rw [alike_self_iff.mp alikeNumber number rfl] at isNaN
        cases isNaN
  · intro sound indices
    cases held : value.part? indices with
    | none => exact .none
    | some part =>
        refine .some (alike_self_iff.mpr ?_)
        rintro number rfl
        rw [← Bool.not_eq_true]
        exact fun isNaN => sound ⟨indices, number, held, isNaN⟩

/-- Two values that are alike have the same type at run time, and slots do not tell them apart. -/
theorem Alike.typeName_eq {left right : Value} (alike : left.Alike right) :
    left.typeName = right.typeName := by
  cases left <;> cases right <;> simp_all [Alike, typeName]

theorem Alike.accepts_eq
    {Rule : Type} {left right : Value} (alike : left.Alike right) (catalog : Catalog Rule)
    (slot : SlotType) :
    slot.accepts catalog left = slot.accepts catalog right := by
  cases left <;> cases right <;> simp only [Alike] at alike
  case float.float => cases slot <;> rfl
  case struct.struct => cases slot <;> simp [SlotType.accepts, alike]
  case null.null => rfl
  all_goals rw [alike]

/-! ## Shared values -/

mutual

/-- The value with other handles in place of its own. -/
def withHandles (rename : Handle → Handle) : Value → Value
  | struct type fields => struct type (allWithHandles rename fields)
  | shared handle => shared (rename handle)
  | value => value

def allWithHandles (rename : Handle → Handle) : List Value → List Value
  | [] => []
  | value :: values => withHandles rename value :: allWithHandles rename values

end

theorem allWithHandles_eq_map (rename : Handle → Handle) (values : List Value) :
    allWithHandles rename values = values.map (withHandles rename) := by
  induction values with
  | nil => rfl
  | cons value values inductionHypothesis =>
      rw [allWithHandles, inductionHypothesis, List.map_cons]

theorem fields_withHandles (rename : Handle → Handle) (value : Value) :
    (value.withHandles rename).fields = value.fields.map (withHandles rename) := by
  cases value <;> simp [withHandles, fields, allWithHandles_eq_map]

theorem part?_withHandles (rename : Handle → Handle) (value : Value) (indices : List Nat) :
    (value.withHandles rename).part? indices =
      (value.part? indices).map (withHandles rename) := by
  induction indices generalizing value with
  | nil => simp
  | cons index indices inductionHypothesis =>
      rw [part?_cons, part?_cons, fields_withHandles, List.getElem?_map]
      cases value.fields[index]? with
      | none => rfl
      | some field => exact inductionHypothesis field

theorem alike_withHandles_iff
    {rename : Handle → Handle} (injective : Function.Injective rename) {left right : Value} :
    (left.withHandles rename).Alike (right.withHandles rename) ↔ left.Alike right := by
  cases left <;> cases right <;> simp [withHandles, Alike, injective.eq_iff]

/-- Equality only looks at which shared values are the same. -/
theorem beq_withHandles
    {rename : Handle → Handle} (injective : Function.Injective rename) (left right : Value) :
    (left.withHandles rename == right.withHandles rename) = (left == right) := by
  rw [Bool.eq_iff_iff, beq_iff_alikeThroughout, beq_iff_alikeThroughout]
  refine forall_congr' fun indices => ?_
  rw [part?_withHandles, part?_withHandles]
  cases left.part? indices <;> cases right.part? indices <;>
    simp [alike_withHandles_iff injective]

/-- Handles that agree with the cells of a heap are the same when they point at the same cell. -/
theorem beq_shared_iff
    {heap : Heap} {first second : Handle} (firstBacked : heap.Backs first)
    (secondBacked : heap.Backs second) :
    (shared first == shared second) = true ↔ first.cell = second.cell := by
  have unfolded : (shared first == shared second) = (first == second) := rfl
  rw [unfolded, beq_iff_eq]
  exact ⟨congrArg Handle.cell, Heap.handle_eq_of_backs firstBacked secondBacked⟩

/-! ## The laws of equality -/

/-- What equality of values can be relied on for. -/
structure EqualityLaws (Rule : Type) : Prop where
  symmetric : ∀ left right : Value, (left == right) = (right == left)
  transitive : ∀ left middle right : Value,
    (left == middle) = true → (middle == right) = true → (left == right) = true
  reflexive : ∀ value : Value, (value == value) = true ↔ ¬ value.HoldsNaN
  identity : ∀ (heap : Heap) (first second : Handle),
    heap.Backs first → heap.Backs second →
      ((shared first == shared second) = true ↔ first.cell = second.cell)
  /-- The answer stays the same when all shared parts are exchanged for others, with any contents,
  as long as different ones stay different. -/
  contents : ∀ (rename : Handle → Handle), Function.Injective rename → ∀ left right : Value,
    (left.withHandles rename == right.withHandles rename) = (left == right)
  typeName : ∀ left right : Value, (left == right) = true → left.typeName = right.typeName
  accepted : ∀ left right : Value, (left == right) = true →
    ∀ (catalog : Catalog Rule) (slot : SlotType),
      slot.accepts catalog left = slot.accepts catalog right

/-- Equality of values is a partial equivalence that agrees with types, and only a NaN that is held
in place keeps a value from being equal to itself. -/
theorem equalityLaws (Rule : Type) : EqualityLaws Rule where
  symmetric left right := by
    rw [Bool.eq_iff_iff, beq_iff_alikeThroughout, beq_iff_alikeThroughout]
    exact ⟨AlikeThroughout.symm, AlikeThroughout.symm⟩
  transitive left middle right first second := by
    rw [beq_iff_alikeThroughout] at first second ⊢
    exact first.trans second
  reflexive value := by
    rw [beq_iff_alikeThroughout]
    exact alikeThroughout_self_iff
  identity heap first second firstBacked secondBacked := beq_shared_iff firstBacked secondBacked
  contents rename injective left right := beq_withHandles injective left right
  typeName left right equal := (beq_iff_alike_and_fields.mp equal).1.typeName_eq
  accepted left right equal catalog slot :=
    (beq_iff_alike_and_fields.mp equal).1.accepts_eq catalog slot

/-- Instances of types of one name, declared in two registries, are equal when their buffers are. A
NaN in any field makes an instance differ from itself. -/
example :
    (struct ⟨"first", "Point"⟩ [int 1, float 0.0] ==
        struct ⟨"second", "Point"⟩ [int 1, float (-0.0)]) = true ∧
      (struct ⟨"first", "Point"⟩ [int 1] ==
        struct ⟨"second", "Point"⟩ [int 1, null]) = false ∧
      (struct ⟨"first", "Point"⟩ [int 1, float (0.0 / 0.0)] ==
        struct ⟨"first", "Point"⟩ [int 1, float (0.0 / 0.0)]) = false := by
  decide

end Value

end ObjectGraph
