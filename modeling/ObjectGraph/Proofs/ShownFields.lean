import Mathlib.Data.List.Forall2
import Mathlib.Data.List.Sort
import ObjectGraph.Catalog
import ObjectGraph.Proofs.Lists

/-!
# The fields that an instance shows

An instance shows its visible stored fields: the stored members of its layout that their own names
reach. They are listed by name and value in the order of the layout, each of them once.
-/

namespace ObjectGraph

variable {Rule : Type}

/-- The member at a position of the layout is a visible stored field, and this is its name with the
value in its slot. -/
inductive Composite.ShowsAt (catalog : Catalog Rule) (owner : Composite) (position : Nat) :
    String × Value → Prop where
  | intro {index : Nat} {placed : PlacedMember Rule} {value : Value}
      (listed : (catalog.layout owner.type).members[position]? = some placed)
      (reached : (catalog.layout owner.type).index.get? placed.name = some position)
      (stored : placed.stored? = some index) (present : owner.fields[index]? = some value) :
      ShowsAt catalog owner position (placed.name, value)

/-- One entry for each visible stored field, in the order of the layout. -/
def Composite.Lists (catalog : Catalog Rule) (owner : Composite) (entries : List (String × Value)) :
    Prop :=
  ∃ positions : List Nat, positions.Pairwise (· < ·) ∧
    (∀ position, position ∈ positions ↔ ∃ entry, owner.ShowsAt catalog position entry) ∧
    List.Forall₂ (owner.ShowsAt catalog) positions entries

namespace Composite

variable {catalog : Catalog Rule} {owner : Composite}

theorem ShowsAt.exists_listed
    {position : Nat} {entry : String × Value} (shown : owner.ShowsAt catalog position entry) :
    ∃ placed, (catalog.layout owner.type).members[position]? = some placed := by
  obtain ⟨listed, _⟩ := shown
  exact ⟨_, listed⟩

theorem ShowsAt.unique
    {position : Nat} {first second : String × Value}
    (shown : owner.ShowsAt catalog position first)
    (shownAgain : owner.ShowsAt catalog position second) :
    first = second := by
  obtain ⟨listed, _, stored, present⟩ := shown
  obtain ⟨listedAgain, _, storedAgain, presentAgain⟩ := shownAgain
  rw [listed, Option.some.injEq] at listedAgain
  subst listedAgain
  rw [stored, Option.some.injEq] at storedAgain
  subst storedAgain
  rw [present, Option.some.injEq] at presentAgain
  rw [presentAgain]

def shown? (catalog : Catalog Rule) (owner : Composite) (item : PlacedMember Rule × Nat) :
    Option (String × Value) :=
  if (catalog.layout owner.type).index.get? item.1.name == some item.2 then do
    let index ← item.1.stored?
    let value ← owner.fields[index]?
    some (item.1.name, value)
  else
    none

theorem namedFields_eq_filterMap (catalog : Catalog Rule) (owner : Composite) :
    owner.namedFields catalog =
      (catalog.layout owner.type).members.zipIdx.filterMap (owner.shown? catalog) := by
  rw [namedFields, Layout.visible, List.filterMap_map, List.filterMap_filter]
  rfl

theorem shown?_eq_some_iff
    {position : Nat} {placed : PlacedMember Rule} {entry : String × Value}
    (listed : (catalog.layout owner.type).members[position]? = some placed) :
    owner.shown? catalog (placed, position) = some entry ↔
      owner.ShowsAt catalog position entry := by
  simp only [shown?, beq_iff_eq]
  constructor
  · intro chosen
    split at chosen
    · next reached =>
        simp only [bind, Option.bind_eq_some_iff, Option.some.injEq] at chosen
        obtain ⟨index, stored, value, present, rfl⟩ := chosen
        exact .intro listed reached stored present
    · cases chosen
  · rintro ⟨listedAgain, reached, stored, present⟩
    rw [listed, Option.some.injEq] at listedAgain
    subst listedAgain
    simp [reached, stored, present]

/-- The listing is right and complete. -/
theorem lists_namedFields (catalog : Catalog Rule) (owner : Composite) :
    owner.Lists catalog (owner.namedFields catalog) := by
  rw [namedFields_eq_filterMap]
  let shown (item : PlacedMember Rule × Nat) : Bool := (owner.shown? catalog item).isSome
  refine ⟨((catalog.layout owner.type).members.zipIdx.filter shown).map Prod.snd, ?_, ?_, ?_⟩
  · have increasing :
        ((catalog.layout owner.type).members.zipIdx.map Prod.snd).Pairwise (· < ·) := by
      rw [List.zipIdx_map_snd]
      exact List.pairwise_lt_range'
    exact increasing.sublist (List.filter_sublist.map Prod.snd)
  · intro position
    constructor
    · intro present
      obtain ⟨⟨placed, _⟩, selected, rfl⟩ := List.mem_map.mp present
      obtain ⟨indexed, chosen⟩ := List.mem_filter.mp selected
      obtain ⟨entry, chosen⟩ := Option.isSome_iff_exists.mp chosen
      exact ⟨entry, (shown?_eq_some_iff (List.mem_zipIdx_iff_getElem?.mp indexed)).mp chosen⟩
    · rintro ⟨entry, shows⟩
      obtain ⟨placed, listed⟩ := shows.exists_listed
      have chosen := (shown?_eq_some_iff listed).mpr shows
      refine List.mem_map.mpr ⟨(placed, position), List.mem_filter.mpr ⟨?_, ?_⟩, rfl⟩
      · exact List.mem_zipIdx_iff_getElem?.mpr listed
      · exact Option.isSome_iff_exists.mpr ⟨entry, chosen⟩
  · apply forall₂_filterMap
    rintro ⟨placed, position⟩ present entry chosen
    exact (shown?_eq_some_iff (List.mem_zipIdx_iff_getElem?.mp present)).mp chosen

theorem Lists.unique
    {first second : List (String × Value)} (lists : owner.Lists catalog first)
    (listsAgain : owner.Lists catalog second) :
    first = second := by
  obtain ⟨positions, increasing, complete, shown⟩ := lists
  obtain ⟨others, othersIncreasing, othersComplete, othersShown⟩ := listsAgain
  obtain rfl : positions = others :=
    increasing.eq_of_mem_iff othersIncreasing fun position => by rw [complete, othersComplete]
  exact List.right_unique_forall₂' (fun _ _ _ shows => shows.unique) shown othersShown

theorem lists_iff {entries : List (String × Value)} :
    owner.Lists catalog entries ↔ entries = owner.namedFields catalog := by
  constructor
  · exact fun lists => lists.unique (owner.lists_namedFields catalog)
  · rintro rfl
    exact owner.lists_namedFields catalog

theorem mem_namedFields_iff {entry : String × Value} :
    entry ∈ owner.namedFields catalog ↔ ∃ position, owner.ShowsAt catalog position entry := by
  rw [namedFields_eq_filterMap, List.mem_filterMap]
  constructor
  · rintro ⟨⟨placed, position⟩, present, chosen⟩
    have listed := List.mem_zipIdx_iff_getElem?.mp present
    exact ⟨position, (shown?_eq_some_iff listed).mp chosen⟩
  · rintro ⟨position, shows⟩
    obtain ⟨placed, listed⟩ := shows.exists_listed
    exact ⟨(placed, position), List.mem_zipIdx_iff_getElem?.mpr listed,
      (shown?_eq_some_iff listed).mpr shows⟩

end Composite

end ObjectGraph
