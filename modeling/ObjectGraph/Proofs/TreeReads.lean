import ObjectGraph.Examples.Tools
import ObjectGraph.Proofs.Lists
import ObjectGraph.Proofs.NearestMember
import ObjectGraph.Proofs.ReadAfterWrite
import ObjectGraph.Proofs.Unfolding

/-!
# Trees and reads agree

A path leads through the tree of a value as well as through the value itself: its names are keys of
maps and its numbers are positions in sequences. Unfolding lists the visible stored fields of a
composite, and reading looks up one name, but both arrive at the same slot:

* a path that leads to a node of the tree reads a value whose tree is this node;
* a path along stored slots leads to a node of the tree;
* a map has one entry for each visible stored field, so that its keys are distinct and neither
  hidden fields nor computed members show up in it.
-/

namespace ObjectGraph

variable {Rule : Type}

/-- Steps that lead from a tree to one of its nodes. A name is the key of an entry of a map, and a
number is a position in a sequence. -/
inductive Tree.Leads : Tree → List Step → Tree → Prop
  | here (node : Tree) : Leads node [] node
  | entry {entries : List (String × Tree)} {key : String} {inner node : Tree} {steps : List Step}
      (present : (key, inner) ∈ entries) (further : Leads inner steps node) :
      Leads (.map entries) (.member key :: steps) node
  | item {items : List Tree} {index : Nat} {inner node : Tree} {steps : List Step}
      (present : items[index]? = some inner) (further : Leads inner steps node) :
      Leads (.sequence items) (.element index :: steps) node

/-- An entry of a map stands for a field: it has its name, and the tree of its value. -/
structure Tree.Shows (catalog : Catalog Rule) (heap : Heap) (field : String × Value)
    (entry : String × Tree) : Prop where
  name_eq : field.1 = entry.1
  unfolded : field.2.tree catalog heap = .ok entry.2

/-- Reading from a value and looking into a tree agree. -/
structure Value.MirroredBy [Accessors Rule] (catalog : Catalog Rule) (heap : Heap) (root : Value)
    (tree : Tree) : Prop where
  reads : ∀ (path : Path) (node : Tree), tree.Leads path.steps node →
    ∃ value, root.read catalog path heap = .ok value heap ∧ value.tree catalog heap = .ok node
  reached : ∀ (path : Path) (earlier : List (Option Place)) (target? : Option Place),
    Trail catalog heap none root path.steps earlier target? →
      ∃ node, tree.Leads path.steps node
  distinct : ∀ (steps : List Step) (entries : List (String × Tree)),
    tree.Leads steps (.map entries) → (entries.map Prod.fst).Nodup
  visible : ∀ (steps : List Step) (entries : List (String × Tree)),
    tree.Leads steps (.map entries) →
      ∃ value owner fields, root.follow catalog steps none heap = .ok value heap ∧
        heap.container? value = some (.composite owner) ∧ owner.Lists catalog fields ∧
        List.Forall₂ (Tree.Shows catalog heap) fields entries

/-! ## Trees of what a container shows -/

section Shown

variable {catalog : Catalog Rule} {heap : Heap} {value : Value}

theorem Heap.EndsAbove.succ
    {depth : Nat} (ends : heap.EndsAbove catalog depth value) :
    heap.EndsAbove catalog (depth + 1) value := by
  induction depth generalizing value with
  | zero =>
      apply endsAbove_of_container?_eq_none
      exact endsAbove_zero_iff.mp ends
  | succ depth inductionHypothesis =>
      rw [endsAbove_succ_iff] at ends ⊢
      intro inner holds
      exact inductionHypothesis (ends inner holds)

/-- A value that unfolds within some depth unfolds to the same tree within a greater one. -/
theorem Value.unfold_succ
    {depth : Nat} {tree : Tree} (unfolded : value.unfold catalog heap depth = .ok tree) :
    value.unfold catalog heap (depth + 1) = .ok tree := by
  rcases unfold_eq_ok_iff.mp unfolded with ⟨ends, unfolds⟩
  exact unfold_eq_ok_iff.mpr ⟨ends.succ, unfolds⟩

private theorem forall₂_shows
    {fields : List (String × Value)} {trees : List Tree}
    (unfolded : List.Forall₂ (fun inner node => inner.tree catalog heap = .ok node)
      (fields.map Prod.snd) trees) :
    List.Forall₂ (Tree.Shows catalog heap) fields ((fields.map Prod.fst).zip trees) := by
  induction fields generalizing trees with
  | nil =>
      cases unfolded
      exact .nil
  | cons field fields inductionHypothesis =>
      cases unfolded with
      | cons first others => exact .cons ⟨rfl, first⟩ (inductionHypothesis others)

/-- The tree of a container is put together from the trees of the values that it shows. -/
theorem Value.trees_of_container?
    {container : Container} {tree : Tree} (opened : heap.container? value = some container)
    (unfolded : value.tree catalog heap = .ok tree) :
    ∃ trees, tree = container.assemble catalog trees ∧
      List.Forall₂ (fun inner node => inner.tree catalog heap = .ok node)
        (container.shown catalog) trees := by
  rw [Value.tree, Tree.maxDepth, unfold_succ_of_container? opened, map_eq_ok_iff] at unfolded
  rcases unfolded with ⟨trees, inside, assembled⟩
  have each := mapM_eq_ok_iff.mp inside
  exact ⟨trees, assembled.symm, each.imp fun _ _ done => unfold_succ done⟩

/-- The tree of a composite is a map with one entry for each visible stored field. -/
theorem Value.tree_of_composite
    {owner : Composite} {tree : Tree} (opened : heap.container? value = some (.composite owner))
    (unfolded : value.tree catalog heap = .ok tree) :
    ∃ entries, tree = .map entries ∧
      List.Forall₂ (Tree.Shows catalog heap) (owner.namedFields catalog) entries := by
  rcases trees_of_container? opened unfolded with ⟨trees, rfl, inside⟩
  exact ⟨_, rfl, forall₂_shows inside⟩

/-- The tree of a list is a sequence with one tree for each element. -/
theorem Value.tree_of_sequence
    {elements : Sequence} {tree : Tree}
    (opened : heap.container? value = some (.sequence elements))
    (unfolded : value.tree catalog heap = .ok tree) :
    ∃ items, tree = .sequence items ∧
      List.Forall₂ (fun inner node => inner.tree catalog heap = .ok node) elements.items items := by
  rcases trees_of_container? opened unfolded with ⟨trees, rfl, inside⟩
  exact ⟨trees, rfl, inside⟩

/-- A tree that is a map or a sequence is that of a container. -/
theorem Value.exists_container?_of_tree
    {tree : Tree} (unfolded : value.tree catalog heap = .ok tree)
    (inner : ∀ other : Value, other.leaf? ≠ some tree) :
    ∃ container, heap.container? value = some container := by
  cases opened : heap.container? value with
  | some container => exact ⟨container, rfl⟩
  | none =>
      rcases exists_leaf?_of_container?_eq_none opened with ⟨leaf, scalar⟩
      rw [Value.tree, unfold_of_leaf? scalar, Except.ok.injEq] at unfolded
      rw [unfolded] at scalar
      exact absurd scalar (inner value)

/-- Only a composite has a map for its tree. -/
theorem Value.exists_composite_of_tree
    {entries : List (String × Tree)} (unfolded : value.tree catalog heap = .ok (.map entries)) :
    ∃ owner, heap.container? value = some (.composite owner) ∧
      List.Forall₂ (Tree.Shows catalog heap) (owner.namedFields catalog) entries := by
  have noLeaf : ∀ other : Value, other.leaf? ≠ some (.map entries) := by
    intro other
    cases other <;> simp [leaf?]
  rcases exists_container?_of_tree unfolded noLeaf with ⟨container, opened⟩
  cases container with
  | composite owner =>
      rcases tree_of_composite opened unfolded with ⟨listed, same, shown⟩
      cases same
      exact ⟨owner, opened, shown⟩
  | sequence elements =>
      rcases tree_of_sequence opened unfolded with ⟨items, same, _⟩
      cases same

/-- Only a list has a sequence for its tree. -/
theorem Value.exists_sequence_of_tree
    {items : List Tree} (unfolded : value.tree catalog heap = .ok (.sequence items)) :
    ∃ elements, heap.container? value = some (.sequence elements) ∧
      List.Forall₂ (fun inner node => inner.tree catalog heap = .ok node) elements.items items := by
  have noLeaf : ∀ other : Value, other.leaf? ≠ some (.sequence items) := by
    intro other
    cases other <;> simp [leaf?]
  rcases exists_container?_of_tree unfolded noLeaf with ⟨container, opened⟩
  cases container with
  | composite owner =>
      rcases tree_of_composite opened unfolded with ⟨entries, same, _⟩
      cases same
  | sequence elements =>
      rcases tree_of_sequence opened unfolded with ⟨listed, same, shown⟩
      cases same
      exact ⟨elements, opened, shown⟩

end Shown

/-! ## Names of visible stored fields -/

namespace Composite

variable {catalog : Catalog Rule} {owner : Composite}

/-- The name of a visible stored field selects its slot. -/
theorem ShowsAt.storage
    {position : Nat} {name : String} {slot : Value}
    (shown : owner.ShowsAt catalog position (name, slot)) :
    ∃ index, owner.storage catalog (.member name) = .ok index ∧
      owner.fields[index]? = some slot := by
  cases shown with
  | @intro index placed _ listed reached stored present =>
      have found : (catalog.layout owner.type).member? placed.name = some placed := by
        rw [Layout.member?, reached]
        exact listed
      have selected : owner.select catalog (.member placed.name) = .ok placed :=
        select_eq_ok_iff.mpr ⟨placed.name, rfl, found⟩
      have kept := PlacedMember.stored?_eq_some_iff.mp stored
      exact ⟨index, storage_eq_ok_iff.mpr ⟨placed, selected, kept⟩, present⟩

/-- A stored slot that a name selects belongs to a visible stored field of this name. -/
theorem exists_showsAt_of_storage
    {name : String} {index : Nat} {slot : Value}
    (indexed : (catalog.layout owner.type).Indexed)
    (stored : owner.storage catalog (.member name) = .ok index)
    (present : owner.fields[index]? = some slot) :
    ∃ position, owner.ShowsAt catalog position (name, slot) := by
  rcases storage_eq_ok_iff.mp stored with ⟨placed, selected, kept⟩
  rcases select_eq_ok_iff.mp selected with ⟨other, same, found⟩
  cases same
  rcases Option.bind_eq_some_iff.mp found with ⟨position, reached, listed⟩
  have named : placed.name = name := by
    rcases indexed name position reached with ⟨own, ownListed, sameName⟩
    rw [listed, Option.some.injEq] at ownListed
    rwa [ownListed]
  subst named
  have storedAt := PlacedMember.stored?_eq_some_iff.mpr kept
  exact ⟨position, .intro listed reached storedAt present⟩

/-- No two visible stored fields have the same name. -/
theorem nodup_namedFields (catalog : Catalog Rule) (owner : Composite) :
    ((owner.namedFields catalog).map Prod.fst).Nodup := by
  rcases owner.lists_namedFields catalog with ⟨positions, increasing, complete, shown⟩
  have distinct : positions.Nodup := increasing.imp fun before => Nat.ne_of_lt before
  have positionOf :
      ((owner.namedFields catalog).map Prod.fst).map (catalog.layout owner.type).index.get? =
        positions.map some := by
    generalize owner.namedFields catalog = fields at shown
    clear increasing complete distinct
    induction shown with
    | nil => rfl
    | cons first _ inductionHypothesis =>
        cases first with
        | intro listed reached stored present =>
            simp only [List.map_cons, reached, inductionHypothesis]
  have distinctImages : (positions.map some).Nodup := distinct.map (Option.some_injective Nat)
  rw [← positionOf] at distinctImages
  exact distinctImages.of_map

end Composite

/-! ## One step -/

section Step

variable {catalog : Catalog Rule} {heap : Heap} {value : Value}

/-- Behind a step to a stored slot, the tree of a value goes on with the tree of the slot. -/
theorem Value.exists_leads_of_storage
    {container : Container} {step : Step} {index : Nat} {slot : Value} {tree : Tree}
    (indexed : ∀ type, (catalog.layout type).Indexed)
    (unfolded : value.tree catalog heap = .ok tree)
    (opened : heap.container? value = some container)
    (stored : container.storage catalog step = .ok index)
    (present : container.slots[index]? = some slot) :
    ∃ inner, slot.tree catalog heap = .ok inner ∧
      ∀ steps node, inner.Leads steps node → tree.Leads (step :: steps) node := by
  cases container with
  | sequence elements =>
      rcases tree_of_sequence opened unfolded with ⟨items, rfl, shown⟩
      rcases Sequence.select_eq_ok_iff.mp stored with ⟨rfl, _⟩
      rcases exists_getElem?_of_forall₂ shown present with ⟨inner, listed, innerUnfolded⟩
      exact ⟨inner, innerUnfolded, fun steps node further => .item listed further⟩
  | composite owner =>
      rcases tree_of_composite opened unfolded with ⟨entries, rfl, shown⟩
      rcases Composite.storage_eq_ok_iff.mp stored with ⟨placed, selected, _⟩
      rcases Composite.select_eq_ok_iff.mp selected with ⟨name, rfl, _⟩
      have visible := Composite.exists_showsAt_of_storage (indexed owner.type) stored present
      have listed : (name, slot) ∈ owner.namedFields catalog :=
        Composite.mem_namedFields_iff.mpr visible
      rcases List.mem_iff_getElem?.mp listed with ⟨position, listedAt⟩
      rcases exists_getElem?_of_forall₂ shown listedAt with ⟨⟨key, inner⟩, entryAt, shows⟩
      have same : name = key := shows.name_eq
      subst same
      have entry := List.mem_of_getElem? entryAt
      exact ⟨inner, shows.unfolded, fun steps node further => .entry entry further⟩

variable [Accessors Rule]

/-- An entry of the tree of a value is the tree of what its key reads. -/
theorem Value.exists_fetch_of_entry
    {entries : List (String × Tree)} {key : String} {inner : Tree}
    (unfolded : value.tree catalog heap = .ok (.map entries)) (present : (key, inner) ∈ entries)
    (reachedBy? : Option Step) :
    ∃ slot, value.fetch catalog reachedBy? (.member key) heap = .ok ⟨slot, .stored⟩ heap ∧
      slot.tree catalog heap = .ok inner := by
  rcases exists_composite_of_tree unfolded with ⟨owner, opened, shown⟩
  rcases List.mem_iff_getElem?.mp present with ⟨position, entryAt⟩
  rcases exists_getElem?_of_forall₂ shown.flip entryAt with ⟨⟨name, slot⟩, listedAt, shows⟩
  have same : name = key := shows.name_eq
  subst same
  rcases Composite.mem_namedFields_iff.mp (List.mem_of_getElem? listedAt) with ⟨_, visible⟩
  rcases visible.storage with ⟨index, stored, inside⟩
  have selected : (Container.composite owner).storage catalog (.member name) = .ok index := stored
  have fetched := fetch_of_storage opened selected inside reachedBy?
  exact ⟨slot, fetched, shows.unfolded⟩

/-- An item of the tree of a value is the tree of what its position reads. -/
theorem Value.exists_fetch_of_item
    {items : List Tree} {index : Nat} {inner : Tree}
    (unfolded : value.tree catalog heap = .ok (.sequence items))
    (present : items[index]? = some inner) (reachedBy? : Option Step) :
    ∃ slot, value.fetch catalog reachedBy? (.element index) heap = .ok ⟨slot, .stored⟩ heap ∧
      slot.tree catalog heap = .ok inner := by
  rcases exists_sequence_of_tree unfolded with ⟨elements, opened, shown⟩
  rcases exists_getElem?_of_forall₂ shown.flip present with ⟨slot, inside, slotUnfolded⟩
  have within : index < elements.items.length := (List.getElem?_eq_some_iff.mp inside).1
  have selected : (Container.sequence elements).storage catalog (.element index) = .ok index :=
    Sequence.select_eq_ok_iff.mpr ⟨rfl, within⟩
  have fetched := fetch_of_storage opened selected inside reachedBy?
  exact ⟨slot, fetched, slotUnfolded⟩

end Step

/-! ## Whole paths -/

section Paths

variable {catalog : Catalog Rule} {heap : Heap} {value : Value} {tree : Tree} {steps : List Step}

/-- What steps lead to in the tree of a value is the tree of what they read. -/
theorem Value.exists_follow_of_leads
    [Accessors Rule] {node : Tree} (unfolded : value.tree catalog heap = .ok tree)
    (leads : tree.Leads steps node) (reachedBy? : Option Step) :
    ∃ final, value.follow catalog steps reachedBy? heap = .ok final heap ∧
      final.tree catalog heap = .ok node := by
  induction leads generalizing value reachedBy? with
  | here node => exact ⟨value, rfl, unfolded⟩
  | @entry entries key inner node steps present further inductionHypothesis =>
      rcases exists_fetch_of_entry unfolded present reachedBy? with ⟨slot, fetched, inside⟩
      rcases inductionHypothesis inside (some (.member key)) with ⟨final, followed, finalUnfolded⟩
      refine ⟨final, ?_, finalUnfolded⟩
      rw [follow, Access.bind_apply, fetched]
      exact followed
  | @item items index inner node steps present further inductionHypothesis =>
      rcases exists_fetch_of_item unfolded present reachedBy? with ⟨slot, fetched, inside⟩
      rcases inductionHypothesis inside (some (.element index)) with
        ⟨final, followed, finalUnfolded⟩
      refine ⟨final, ?_, finalUnfolded⟩
      rw [follow, Access.bind_apply, fetched]
      exact followed

/-- Steps to stored slots lead to a node of the tree. -/
theorem Trail.exists_leads
    {held? target? : Option Place} {earlier : List (Option Place)}
    (indexed : ∀ type, (catalog.layout type).Indexed)
    (trail : Trail catalog heap held? value steps earlier target?)
    (unfolded : value.tree catalog heap = .ok tree) :
    ∃ node, tree.Leads steps node := by
  induction trail generalizing tree with
  | last opened stored present =>
      rcases Value.exists_leads_of_storage indexed unfolded opened stored present with
        ⟨inner, _, prolong⟩
      exact ⟨inner, prolong [] inner (.here inner)⟩
  | cons opened stored present rest inductionHypothesis =>
      rcases Value.exists_leads_of_storage indexed unfolded opened stored present with
        ⟨inner, inside, prolong⟩
      rcases inductionHypothesis inside with ⟨node, further⟩
      exact ⟨node, prolong _ node further⟩

end Paths

/-! ## Agreement -/

theorem Catalog.Records.indexed_layout
    {catalog : Catalog Rule} {accepted : List (Submission Rule)}
    (records : catalog.Records accepted) (type : TypeId) :
    (catalog.layout type).Indexed := by
  rw [layout]
  cases registered : catalog.layout? type with
  | none => exact Layout.indexed_bare _ _
  | some layout => exact records.indexed registered

/-- Entries that stand for fields with distinct names have distinct keys. -/
theorem Tree.nodup_keys_of_shows
    {catalog : Catalog Rule} {heap : Heap} {fields : List (String × Value)}
    {entries : List (String × Tree)}
    (shown : List.Forall₂ (Tree.Shows catalog heap) fields entries)
    (distinct : (fields.map Prod.fst).Nodup) :
    (entries.map Prod.fst).Nodup := by
  have sameNames : fields.map Prod.fst = entries.map Prod.fst := by
    rw [← List.forall₂_eq_eq_eq, List.forall₂_map_left_iff, List.forall₂_map_right_iff]
    exact shown.imp fun _ _ shows => shows.name_eq
  rwa [← sameNames]

/-- Wherever a value has a tree, reading from the value and looking into the tree agree, over all
graphs of instances of registered types. -/
theorem Value.mirroredBy_of_tree
    [Accessors Rule] {catalog : Catalog Rule} {accepted : List (Submission Rule)}
    (records : catalog.Records accepted) {heap : Heap} {root : Value} {tree : Tree}
    (unfolded : root.tree catalog heap = .ok tree) :
    root.MirroredBy catalog heap tree := by
  have mapped : ∀ steps entries, tree.Leads steps (.map entries) →
      ∃ value owner, root.follow catalog steps none heap = .ok value heap ∧
        heap.container? value = some (.composite owner) ∧
        List.Forall₂ (Tree.Shows catalog heap) (owner.namedFields catalog) entries := by
    intro steps entries leads
    rcases exists_follow_of_leads unfolded leads none with ⟨value, followed, valueUnfolded⟩
    rcases exists_composite_of_tree valueUnfolded with ⟨owner, opened, shown⟩
    exact ⟨value, owner, followed, opened, shown⟩
  constructor
  case reads => exact fun path node leads => exists_follow_of_leads unfolded leads none
  case reached =>
    exact fun path earlier target? trail => trail.exists_leads records.indexed_layout unfolded
  case distinct =>
    intro steps entries leads
    rcases mapped steps entries leads with ⟨value, owner, _, _, shown⟩
    exact Tree.nodup_keys_of_shows shown (owner.nodup_namedFields catalog)
  case visible =>
    intro steps entries leads
    rcases mapped steps entries leads with ⟨value, owner, followed, opened, shown⟩
    exact ⟨value, owner, _, followed, opened, owner.lists_namedFields catalog, shown⟩

/-- Of the three members called label in the layout of a saw, a text, a computed number and a stored
number, the last one shows up in the tree, and it is the one that is read. -/
theorem Value.mirroredBy_saw :
    let accepted := [⟨"main", Tools.saw⟩, ⟨"main", Tools.tool⟩, ⟨"main", Tools.thing⟩]
    let heap : Heap := ⟨#[.composite ⟨Tools.sawType, [.int 7, .text "hidden", .int 3]⟩]⟩
    let root : Value := .shared (.object Tools.sawType 0)
    let tree : Tree := .map [("id", .int 7), ("label", .int 3)]
    Tools.catalog.Records accepted ∧ root.tree Tools.catalog heap = .ok tree ∧
      root.MirroredBy Tools.catalog heap tree ∧
      root.read Tools.catalog ⟨[.member "label"], by simp⟩ heap = .ok (.int 3) heap := by
  intro accepted heap root tree
  have records : Tools.catalog.Records accepted :=
    .accepted (.accepted (.accepted .empty rfl) rfl) rfl
  have unfolded : root.tree Tools.catalog heap = .ok tree := by
    rfl
  exact ⟨records, unfolded, mirroredBy_of_tree records unfolded, rfl⟩

end ObjectGraph
