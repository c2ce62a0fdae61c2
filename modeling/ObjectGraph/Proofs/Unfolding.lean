import Mathlib.Logic.Relation
import ObjectGraph.Examples.Ring
import ObjectGraph.Proofs.Lists
import ObjectGraph.Proofs.ShownFields
import ObjectGraph.Tree

/-!
# Unfolding is exact and bounded

A value unfolds into a tree unless containers are nested in it too deeply. Containers are looked at
from left to right, each before what it holds, so that an address, which tells for every level which
of the values there to go on with, says when a container is met: addresses of equal length are met
in lexicographic order.

* If no container is met at the greatest depth, the result is the tree that the value unfolds to.
* Otherwise the first of them is reported, and the nested containers on the way form a chain.
* A cycle has chains of every length.
-/

namespace ObjectGraph

variable {Rule : Type}

/-! ## Chains and trees -/

/-- One container holds a value, in a visible stored field or as an element. -/
inductive Heap.Holds (catalog : Catalog Rule) (heap : Heap) (outer : Value) : Value → Prop where
  | field {owner : Composite} {position : Nat} {name : String} {value : Value}
      (opened : heap.container? outer = some (.composite owner))
      (shown : owner.ShowsAt catalog position (name, value)) :
      Holds catalog heap outer value
  | element {elements : Sequence} {item : Value}
      (opened : heap.container? outer = some (.sequence elements))
      (listed : item ∈ elements.items) :
      Holds catalog heap outer item

/-- Containers, each of which holds the next one. -/
structure Heap.IsNesting (catalog : Catalog Rule) (heap : Heap) (chain : List Value) : Prop where
  containers : ∀ value ∈ chain, (heap.container? value).isSome
  linked : chain.IsChain (heap.Holds catalog)

/-- That many containers are nested, each in the one before it, and the first one is the value. -/
def Heap.Nests (catalog : Catalog Rule) (heap : Heap) (root : Value) (count : Nat) : Prop :=
  ∃ chain, chain.length = count ∧ chain.head? = some root ∧ heap.IsNesting catalog chain

/-- The tree of a scalar or of a missing value. -/
def Value.leaf? : Value → Option Tree
  | null => some .unit
  | bool value => some (.bool value)
  | int value => some (.int value)
  | float value => some (.float value)
  | text value => some (.text value)
  | struct _ _ => none
  | shared _ => none

/-- The tree that a value unfolds to. Scalars stand for themselves; a struct or an object is a map
with one entry for each visible stored field, in the order of the layout; a list is a sequence with
one entry for each element. -/
inductive Value.UnfoldsTo (catalog : Catalog Rule) (heap : Heap) : Value → Tree → Prop where
  | leaf {value : Value} {tree : Tree} (scalar : value.leaf? = some tree) :
      UnfoldsTo catalog heap value tree
  | composite {value : Value} {owner : Composite} {fields : List (String × Value)}
      {trees : List Tree} (opened : heap.container? value = some (.composite owner))
      (listed : owner.Lists catalog fields)
      (inner : List.Forall₂ (UnfoldsTo catalog heap) (fields.map Prod.snd) trees) :
      UnfoldsTo catalog heap value (.map ((fields.map Prod.fst).zip trees))
  | sequence {value : Value} {elements : Sequence} {trees : List Tree}
      (opened : heap.container? value = some (.sequence elements))
      (inner : List.Forall₂ (UnfoldsTo catalog heap) elements.items trees) :
      UnfoldsTo catalog heap value (.sequence trees)

/-! ## What a container shows -/

namespace Container

/-- The values of the visible stored fields, in the order of the layout, or the elements. -/
def shown (catalog : Catalog Rule) : Container → List Value
  | composite owner => (owner.namedFields catalog).map Prod.snd
  | sequence elements => elements.items

/-- The tree of a container in which the values that it shows are replaced by their trees. -/
def assemble (catalog : Catalog Rule) (container : Container) (trees : List Tree) : Tree :=
  match container with
  | composite owner => .map (((owner.namedFields catalog).map Prod.fst).zip trees)
  | sequence _ => .sequence trees

end Container

theorem Heap.holds_iff_mem_shown
    {catalog : Catalog Rule} {heap : Heap} {outer value : Value} {container : Container}
    (opened : heap.container? outer = some container) :
    heap.Holds catalog outer value ↔ value ∈ container.shown catalog := by
  constructor
  · rintro (⟨openedAgain, shown⟩ | ⟨openedAgain, listed⟩)
    · rw [opened, Option.some.injEq] at openedAgain
      subst openedAgain
      exact List.mem_map.mpr ⟨_, Composite.mem_namedFields_iff.mpr ⟨_, shown⟩, rfl⟩
    · rw [opened, Option.some.injEq] at openedAgain
      subst openedAgain
      exact listed
  · intro held
    cases container with
    | sequence elements => exact .element opened held
    | composite owner =>
        obtain ⟨⟨name, _⟩, listed, rfl⟩ := List.mem_map.mp held
        obtain ⟨position, shown⟩ := Composite.mem_namedFields_iff.mp listed
        exact .field opened shown

theorem Heap.Holds.isSome_container?
    {catalog : Catalog Rule} {heap : Heap} {outer value : Value}
    (holds : heap.Holds catalog outer value) :
    (heap.container? outer).isSome := by
  cases holds with
  | field opened shown => rw [opened]; rfl
  | element opened listed => rw [opened]; rfl

/-! ## Unfolding item by item -/

theorem Container.unfoldWith_eq
    (catalog : Catalog Rule) (unfold : Value → Except DepthExceeded Tree) (container : Container) :
    container.unfoldWith catalog unfold =
      container.assemble catalog <$> (container.shown catalog).mapM unfold := by
  cases container with
  | sequence elements => rfl
  | composite owner =>
      rw [unfoldWith, mapM_named, shown]
      cases ((owner.namedFields catalog).map Prod.snd).mapM unfold <;> rfl

namespace Value

section Unfold

variable {catalog : Catalog Rule} {heap : Heap} {value : Value} {container : Container}

theorem unfold_zero_of_container? (opened : heap.container? value = some container) :
    value.unfold catalog heap 0 = .error ⟨container.typeName⟩ := by
  cases value with
  | struct type fields => cases opened; rw [unfold]; rfl
  | shared handle => cases opened; rw [unfold]
  | _ => cases opened

theorem unfold_succ_of_container?
    (opened : heap.container? value = some container) (depth : Nat) :
    value.unfold catalog heap (depth + 1) =
      container.assemble catalog <$>
        (container.shown catalog).mapM (unfold catalog heap depth) := by
  rw [← Container.unfoldWith_eq]
  cases value with
  | struct type fields => cases opened; rw [unfold]
  | shared handle => cases opened; rw [unfold]
  | _ => cases opened

theorem unfold_of_leaf?
    {leaf : Tree} (scalar : value.leaf? = some leaf) (depth : Nat) :
    value.unfold catalog heap depth = .ok leaf := by
  cases value <;> cases scalar <;> rw [unfold]

theorem container?_eq_none_of_leaf? {leaf : Tree} (scalar : value.leaf? = some leaf) :
    heap.container? value = none := by
  cases value with
  | struct type fields => cases scalar
  | shared handle => cases scalar
  | _ => rfl

theorem exists_leaf?_of_container?_eq_none (closed : heap.container? value = none) :
    ∃ leaf, value.leaf? = some leaf := by
  cases value with
  | struct type fields => cases closed
  | shared handle => cases closed
  | _ => exact ⟨_, rfl⟩

end Unfold

end Value

/-! ## Addresses -/

/-- The container at an address. Each number selects among the values that a container shows. -/
def Heap.containerAlong? (catalog : Catalog Rule) (heap : Heap) :
    List Nat → Value → Option Container
  | [], value => heap.container? value
  | index :: address, value =>
      (heap.container? value).bind fun container =>
        (container.shown catalog)[index]?.bind (containerAlong? catalog heap address)

/-- No container is met at this depth below the value. -/
def Heap.EndsAbove (catalog : Catalog Rule) (heap : Heap) (depth : Nat) (value : Value) : Prop :=
  ∀ address, address.length = depth → heap.containerAlong? catalog address value = none

/-- Of all containers at this depth below a value the one at the address is met first. -/
structure Heap.MeetsFirst (catalog : Catalog Rule) (heap : Heap) (root : Value) (depth : Nat)
    (address : List Nat) (container : Container) : Prop where
  length_eq : address.length = depth
  met : heap.containerAlong? catalog address root = some container
  first : ∀ other, other.length = depth → other < address →
    heap.containerAlong? catalog other root = none

namespace Heap

variable {catalog : Catalog Rule} {heap : Heap} {value : Value} {container : Container}

theorem containerAlong?_cons
    (opened : heap.container? value = some container) (index : Nat) (address : List Nat) :
    heap.containerAlong? catalog (index :: address) value =
      (container.shown catalog)[index]?.bind (heap.containerAlong? catalog address) := by
  rw [containerAlong?, opened, Option.bind_some]

theorem containerAlong?_of_container?_eq_none
    (closed : heap.container? value = none) (address : List Nat) :
    heap.containerAlong? catalog address value = none := by
  cases address with
  | nil => exact closed
  | cons index address => rw [containerAlong?, closed, Option.bind_none]

theorem endsAbove_of_container?_eq_none
    (closed : heap.container? value = none) (depth : Nat) :
    heap.EndsAbove catalog depth value :=
  fun address _ => containerAlong?_of_container?_eq_none closed address

theorem endsAbove_zero_iff :
    heap.EndsAbove catalog 0 value ↔ heap.container? value = none := by
  constructor
  · exact fun ends => ends [] rfl
  · exact fun closed => endsAbove_of_container?_eq_none closed 0

theorem endsAbove_succ_iff {depth : Nat} :
    heap.EndsAbove catalog (depth + 1) value ↔
      ∀ inner, heap.Holds catalog value inner → heap.EndsAbove catalog depth inner := by
  constructor
  · intro ends inner holds address sameLength
    obtain ⟨container, opened⟩ := Option.isSome_iff_exists.mp holds.isSome_container?
    have shown := (holds_iff_mem_shown opened).mp holds
    obtain ⟨index, present⟩ := List.mem_iff_getElem?.mp shown
    have nothing := ends (index :: address) (by rw [List.length_cons, sameLength])
    rwa [containerAlong?_cons opened, present, Option.bind_some] at nothing
  · intro ends address sameLength
    cases address with
    | nil => cases sameLength
    | cons index address =>
        cases opened : heap.container? value with
        | none => exact containerAlong?_of_container?_eq_none opened _
        | some container =>
            rw [containerAlong?_cons opened]
            cases present : (container.shown catalog)[index]? with
            | none => rfl
            | some inner =>
                have holds := (holds_iff_mem_shown opened).mpr (List.mem_of_getElem? present)
                exact ends inner holds address (Nat.succ.inj sameLength)

theorem MeetsFirst.here (opened : heap.container? value = some container) :
    heap.MeetsFirst catalog value 0 [] container := by
  refine ⟨rfl, opened, fun other sameLength before => ?_⟩
  rw [List.length_eq_zero_iff.mp sameLength] at before
  exact absurd before (List.lt_irrefl [])

/-- A container is met first if it is met first below one of the values that are shown and nothing
is met below those to the left. -/
theorem MeetsFirst.below
    {index depth : Nat} {address : List Nat} {inner : Value} {found : Container}
    (opened : heap.container? value = some container)
    (present : (container.shown catalog)[index]? = some inner)
    (leftward : ∀ (position : Nat) (sibling : Value), position < index →
      (container.shown catalog)[position]? = some sibling →
        heap.EndsAbove catalog depth sibling)
    (meets : heap.MeetsFirst catalog inner depth address found) :
    heap.MeetsFirst catalog value (depth + 1) (index :: address) found := by
  constructor
  case length_eq => rw [List.length_cons, meets.length_eq]
  case met => rw [containerAlong?_cons opened, present, Option.bind_some, meets.met]
  case first =>
    intro other sameLength before
    cases other with
    | nil => cases sameLength
    | cons position other =>
        rw [containerAlong?_cons opened]
        cases listed : (container.shown catalog)[position]? with
        | none => rfl
        | some sibling =>
            have shorter : other.length = depth := Nat.succ.inj sameLength
            rcases List.cons_lt_cons_iff.mp before with left | ⟨rfl, further⟩
            · exact leftward position sibling left listed other shorter
            · obtain rfl : inner = sibling := Option.some.inj (present.symm.trans listed)
              exact meets.first other shorter further

theorem MeetsFirst.not_endsAbove
    {root : Value} {depth : Nat} {address : List Nat}
    (meets : heap.MeetsFirst catalog root depth address container) :
    ¬ heap.EndsAbove catalog depth root := by
  intro ends
  have nothing := ends address meets.length_eq
  rw [meets.met] at nothing
  cases nothing

theorem MeetsFirst.unique
    {root : Value} {depth : Nat} {address other : List Nat} {found : Container}
    (meets : heap.MeetsFirst catalog root depth address container)
    (meetsOther : heap.MeetsFirst catalog root depth other found) :
    found = container := by
  have notAfter : ¬ other < address := by
    intro before
    have nothing := meets.first other meetsOther.length_eq before
    rw [meetsOther.met] at nothing
    cases nothing
  have notBefore : ¬ address < other := by
    intro before
    have nothing := meetsOther.first address meets.length_eq before
    rw [meets.met] at nothing
    cases nothing
  obtain rfl : address = other := List.le_antisymm notAfter notBefore
  have same := meets.met.symm.trans meetsOther.met
  exact (Option.some.inj same).symm

end Heap

/-! ## Unfolding to a depth -/

namespace Value

variable {catalog : Catalog Rule} {heap : Heap} {value : Value} {container : Container}

theorem unfoldsTo_iff_of_leaf?
    {leaf tree : Tree} (scalar : value.leaf? = some leaf) :
    value.UnfoldsTo catalog heap tree ↔ leaf = tree := by
  have closed : heap.container? value = none := container?_eq_none_of_leaf? scalar
  constructor
  · intro unfolded
    cases unfolded with
    | leaf scalarAgain => exact Option.some.inj (scalar.symm.trans scalarAgain)
    | composite opened listed inner => simp [closed] at opened
    | sequence opened inner => simp [closed] at opened
  · rintro rfl
    exact .leaf scalar

theorem unfoldsTo_iff_of_container?
    {tree : Tree} (opened : heap.container? value = some container) :
    value.UnfoldsTo catalog heap tree ↔
      ∃ trees, List.Forall₂ (UnfoldsTo catalog heap) (container.shown catalog) trees ∧
        container.assemble catalog trees = tree := by
  constructor
  · intro unfolded
    cases unfolded with
    | leaf scalar => simp [container?_eq_none_of_leaf? scalar] at opened
    | composite openedAgain listed inner =>
        rw [opened, Option.some.injEq] at openedAgain
        subst openedAgain
        obtain rfl := Composite.lists_iff.mp listed
        exact ⟨_, inner, rfl⟩
    | sequence openedAgain inner =>
        rw [opened, Option.some.injEq] at openedAgain
        subst openedAgain
        exact ⟨_, inner, rfl⟩
  · rintro ⟨trees, inner, rfl⟩
    cases container with
    | composite owner => exact .composite opened (owner.lists_namedFields catalog) inner
    | sequence elements => exact .sequence opened inner

theorem unfold_eq_ok_iff_of_container?_eq_none
    {depth : Nat} {tree : Tree} (closed : heap.container? value = none) :
    value.unfold catalog heap depth = .ok tree ↔
      heap.EndsAbove catalog depth value ∧ value.UnfoldsTo catalog heap tree := by
  obtain ⟨leaf, scalar⟩ := exists_leaf?_of_container?_eq_none closed
  rw [unfold_of_leaf? scalar, Except.ok.injEq, unfoldsTo_iff_of_leaf? scalar]
  exact (and_iff_right (Heap.endsAbove_of_container?_eq_none closed depth)).symm

/-- Where unfolding succeeds no container is met at the depth, and the tree is that of the value. -/
theorem unfold_eq_ok_iff {depth : Nat} {tree : Tree} :
    value.unfold catalog heap depth = .ok tree ↔
      heap.EndsAbove catalog depth value ∧ value.UnfoldsTo catalog heap tree := by
  induction depth generalizing value tree with
  | zero =>
      cases opened : heap.container? value with
      | none => exact unfold_eq_ok_iff_of_container?_eq_none opened
      | some container =>
          rw [unfold_zero_of_container? opened, Heap.endsAbove_zero_iff, opened]
          simp
  | succ depth inductionHypothesis =>
      cases opened : heap.container? value with
      | none => exact unfold_eq_ok_iff_of_container?_eq_none opened
      | some container =>
          have below : heap.EndsAbove catalog (depth + 1) value ↔
              ∀ inner ∈ container.shown catalog, heap.EndsAbove catalog depth inner := by
            simp only [Heap.endsAbove_succ_iff, Heap.holds_iff_mem_shown opened]
          have unfolded : ∀ trees,
              (container.shown catalog).mapM (unfold catalog heap depth) = .ok trees ↔
                (∀ inner ∈ container.shown catalog, heap.EndsAbove catalog depth inner) ∧
                  List.Forall₂ (UnfoldsTo catalog heap) (container.shown catalog) trees := by
            intro trees
            simp only [mapM_eq_ok_iff, inductionHypothesis]
            exact List.forall₂_and_left _ _
          rw [unfold_succ_of_container? opened, map_eq_ok_iff, below,
            unfoldsTo_iff_of_container? opened]
          simp only [unfolded, and_assoc, exists_and_left]

theorem exists_container?_of_unfold_eq_error
    {depth : Nat} {failure : DepthExceeded}
    (failed : value.unfold catalog heap depth = .error failure) :
    ∃ container, heap.container? value = some container := by
  cases opened : heap.container? value with
  | some container => exact ⟨container, rfl⟩
  | none =>
      obtain ⟨leaf, scalar⟩ := exists_leaf?_of_container?_eq_none opened
      simp [unfold_of_leaf? scalar] at failed

/-- Where unfolding fails the first container that is met at the depth is reported. -/
theorem exists_meetsFirst_of_unfold_eq_error
    {depth : Nat} {failure : DepthExceeded}
    (failed : value.unfold catalog heap depth = .error failure) :
    ∃ address container, heap.MeetsFirst catalog value depth address container ∧
      failure = ⟨container.typeName⟩ := by
  induction depth generalizing value with
  | zero =>
      obtain ⟨container, opened⟩ := exists_container?_of_unfold_eq_error failed
      rw [unfold_zero_of_container? opened, Except.error.injEq] at failed
      exact ⟨[], container, .here opened, failed.symm⟩
  | succ depth inductionHypothesis =>
      obtain ⟨container, opened⟩ := exists_container?_of_unfold_eq_error failed
      rw [unfold_succ_of_container? opened, map_eq_error_iff] at failed
      obtain ⟨index, inner, present, fails, done⟩ := exists_first_of_mapM_eq_error failed
      obtain ⟨address, found, meets, named⟩ := inductionHypothesis fails
      refine ⟨index :: address, found, .below opened present ?_ meets, named⟩
      intro position sibling left listed
      obtain ⟨tree, unfolded⟩ := done position sibling left listed
      exact (unfold_eq_ok_iff.mp unfolded).1

theorem unfold_eq_error_iff {depth : Nat} {failure : DepthExceeded} :
    value.unfold catalog heap depth = .error failure ↔
      ∃ address container, heap.MeetsFirst catalog value depth address container ∧
        failure = ⟨container.typeName⟩ := by
  constructor
  · exact exists_meetsFirst_of_unfold_eq_error
  · rintro ⟨address, container, meets, rfl⟩
    cases unfolded : value.unfold catalog heap depth with
    | ok tree => exact absurd (unfold_eq_ok_iff.mp unfolded).1 meets.not_endsAbove
    | error reported =>
        obtain ⟨other, found, meetsOther, rfl⟩ := exists_meetsFirst_of_unfold_eq_error unfolded
        rw [meets.unique meetsOther]

end Value

/-! ## Chains of containers -/

namespace Heap

variable {catalog : Catalog Rule} {heap : Heap} {value : Value}

theorem nests_one_iff :
    heap.Nests catalog value 1 ↔ (heap.container? value).isSome := by
  constructor
  · rintro ⟨chain, sameLength, starts, nesting⟩
    exact nesting.containers value (List.mem_of_head? starts)
  · intro opened
    exact ⟨[value], rfl, rfl, by simpa using opened, .singleton value⟩

theorem nests_succ_iff {count : Nat} :
    heap.Nests catalog value (count + 2) ↔
      ∃ inner, heap.Holds catalog value inner ∧ heap.Nests catalog inner (count + 1) := by
  constructor
  · rintro ⟨chain, sameLength, starts, containers, linked⟩
    match chain with
    | first :: inner :: further =>
        cases starts
        obtain ⟨holds, linkedFurther⟩ := List.isChain_cons_cons.mp linked
        refine ⟨inner, holds, inner :: further, Nat.succ.inj sameLength, rfl, ?_, linkedFurther⟩
        exact fun value present => containers value (List.mem_cons_of_mem _ present)
  · rintro ⟨inner, holds, chain, sameLength, starts, containers, linked⟩
    refine ⟨value :: chain, by rw [List.length_cons, sameLength], rfl, ?_, ?_⟩
    · exact List.forall_mem_cons.mpr ⟨holds.isSome_container?, containers⟩
    · cases chain with
      | nil => cases sameLength
      | cons first further =>
          cases starts
          exact .cons_cons holds linked

/-- A container at some depth ends a chain with one more link, and the other way round. -/
theorem endsAbove_iff_not_nests {depth : Nat} :
    heap.EndsAbove catalog depth value ↔ ¬ heap.Nests catalog value (depth + 1) := by
  induction depth generalizing value with
  | zero => rw [endsAbove_zero_iff, nests_one_iff, Option.not_isSome_iff_eq_none]
  | succ depth inductionHypothesis =>
      simp only [endsAbove_succ_iff, nests_succ_iff, inductionHypothesis, not_exists, not_and]

theorem exists_holds_of_cycle
    {last : Value} (leads : Relation.ReflTransGen (heap.Holds catalog) value last)
    (cycle : Relation.TransGen (heap.Holds catalog) last last) :
    ∃ inner, heap.Holds catalog value inner ∧
      Relation.ReflTransGen (heap.Holds catalog) inner last := by
  rcases leads.cases_head with rfl | further
  · exact Relation.TransGen.head'_iff.mp cycle
  · exact further

/-- From a value that leads into a cycle chains of every length start. -/
theorem nests_of_cycle
    {last : Value} (leads : Relation.ReflTransGen (heap.Holds catalog) value last)
    (cycle : Relation.TransGen (heap.Holds catalog) last last) (count : Nat) :
    heap.Nests catalog value (count + 1) := by
  induction count generalizing value with
  | zero =>
      obtain ⟨inner, holds, _⟩ := exists_holds_of_cycle leads cycle
      exact nests_one_iff.mpr holds.isSome_container?
  | succ count inductionHypothesis =>
      obtain ⟨inner, holds, further⟩ := exists_holds_of_cycle leads cycle
      exact nests_succ_iff.mpr ⟨inner, holds, inductionHypothesis further⟩

end Heap

/-! ## Trees of values -/

/-- Unfolding is exact: it succeeds if and only if no 65 containers are nested, starting from the
value, and then the result is the tree of the value; otherwise the container is reported that is met
first 64 levels below the value. A value that leads into a cycle is always refused. -/
theorem Value.tree_exact (catalog : Catalog Rule) (heap : Heap) (root : Value) :
    ((∃ tree, root.tree catalog heap = .ok tree) ↔ ¬ heap.Nests catalog root 65) ∧
      (∀ tree, root.tree catalog heap = .ok tree ↔
        ¬ heap.Nests catalog root 65 ∧ root.UnfoldsTo catalog heap tree) ∧
      (∀ failure, root.tree catalog heap = .error failure ↔
        ∃ address container, heap.MeetsFirst catalog root 64 address container ∧
          failure = ⟨container.typeName⟩) ∧
      ∀ value, Relation.ReflTransGen (heap.Holds catalog) root value →
        Relation.TransGen (heap.Holds catalog) value value →
          ∃ failure, root.tree catalog heap = .error failure := by
  have unfolds (tree : Tree) : root.tree catalog heap = .ok tree ↔
      ¬ heap.Nests catalog root 65 ∧ root.UnfoldsTo catalog heap tree := by
    rw [Value.tree, unfold_eq_ok_iff, Heap.endsAbove_iff_not_nests, Tree.maxDepth]
  have refused (failure : DepthExceeded) : root.tree catalog heap = .error failure ↔
      ∃ address container, heap.MeetsFirst catalog root 64 address container ∧
        failure = ⟨container.typeName⟩ :=
    unfold_eq_error_iff
  have failed : (∃ failure, root.tree catalog heap = .error failure) ↔
      heap.Nests catalog root 65 := by
    constructor
    · rintro ⟨failure, reported⟩
      obtain ⟨address, container, meets, _⟩ := (refused failure).mp reported
      by_contra shallow
      exact meets.not_endsAbove (Heap.endsAbove_iff_not_nests.mpr shallow)
    · intro nests
      cases unfolded : root.tree catalog heap with
      | error failure => exact ⟨failure, rfl⟩
      | ok tree => exact absurd nests ((unfolds tree).mp unfolded).1
  refine ⟨?_, unfolds, refused, fun value leads cycle => ?_⟩
  · rw [← failed]
    cases root.tree catalog heap <;> simp
  · exact failed.mpr (Heap.nests_of_cycle leads cycle 64)

/-- The node of the ring leads to itself and is refused. The pair in it has a tree. -/
theorem Value.tree_exact_ring :
    let pair : Value := .struct ⟨"main", "Pair"⟩ [.int 1, .int 2]
    Relation.TransGen (Ring.heap.Holds Ring.catalog) Ring.root Ring.root ∧
      (∃ failure, Ring.root.tree Ring.catalog Ring.heap = .error failure) ∧
      pair.tree Ring.catalog Ring.heap = .ok (.map [("x", .int 1), ("y", .int 2)]) ∧
      ¬ Ring.heap.Nests Ring.catalog pair 65 := by
  intro pair
  have cycle : Relation.TransGen (Ring.heap.Holds Ring.catalog) Ring.root Ring.root :=
    .single ((Heap.holds_iff_mem_shown rfl).mpr (.tail _ (.head _)))
  have unfolded :
      pair.tree Ring.catalog Ring.heap = .ok (.map [("x", .int 1), ("y", .int 2)]) := by
    rfl
  obtain ⟨_, _, _, cyclic⟩ := tree_exact Ring.catalog Ring.heap Ring.root
  obtain ⟨succeeds, _⟩ := tree_exact Ring.catalog Ring.heap pair
  exact ⟨cycle, cyclic Ring.root .refl cycle, unfolded, succeeds.mp ⟨_, unfolded⟩⟩

end ObjectGraph
