/-!
# Maps keyed by names

The operations of a hash map whose keys are names, and what its documentation promises about them.
A map holds its entries in an order of its own. Lists of named entries are the plainest map.
-/

namespace ObjectGraph

/-- The place of a name in a map. Filling a vacant place gives the map with the new entry. -/
inductive MapPlace (Map : Type → Type) (Entry : Type) where
  | vacant (fill : Entry → Map Entry)
  | occupied

/-- A map with names as keys. -/
class KeyedMap (Map : Type → Type) where
  new {Entry : Type} : Map Entry
  insert {Entry : Type} (map : Map Entry) (name : String) (entry : Entry) :
    Option Entry × Map Entry
  place {Entry : Type} (map : Map Entry) (name : String) : MapPlace Map Entry
  get? {Entry : Type} (map : Map Entry) (name : String) : Option Entry
  containsKey {Entry : Type} (map : Map Entry) (name : String) : Bool
  len {Entry : Type} (map : Map Entry) : Nat
  isEmpty {Entry : Type} (map : Map Entry) : Bool
  iter {Entry : Type} (map : Map Entry) : List (String × Entry)
  clone {Entry : Type} (map : Map Entry) : Map Entry

/-- What is documented of the operations of a map. Inserting overwrites and hands back what was
there, and each key is visited once. -/
class KeyedMap.Lawful (Map : Type → Type) [KeyedMap Map] : Prop where
  get?_new {Entry : Type} (name : String) : get? (new : Map Entry) name = none
  fst_insert {Entry : Type} (map : Map Entry) (name : String) (entry : Entry) :
    (insert map name entry).1 = get? map name
  get?_insert {Entry : Type} (map : Map Entry) (name other : String) (entry : Entry) :
    get? (insert map name entry).2 other = if other = name then some entry else get? map other
  place_eq_occupied_iff {Entry : Type} (map : Map Entry) (name : String) :
    place map name = .occupied ↔ (get? map name).isSome = true
  get?_fill {Entry : Type} {map : Map Entry} {name : String} {fill : Entry → Map Entry}
    (vacant : place map name = .vacant fill) (other : String) (entry : Entry) :
    get? (fill entry) other = if other = name then some entry else get? map other
  containsKey_eq {Entry : Type} (map : Map Entry) (name : String) :
    containsKey map name = (get? map name).isSome
  nodup_iter {Entry : Type} (map : Map Entry) : ((iter map).map Prod.fst).Nodup
  mem_iter_iff {Entry : Type} (map : Map Entry) (name : String) (entry : Entry) :
    (name, entry) ∈ iter map ↔ get? map name = some entry
  len_eq {Entry : Type} (map : Map Entry) : len map = (iter map).length
  isEmpty_eq {Entry : Type} (map : Map Entry) : isEmpty map = (len map == 0)
  get?_clone {Entry : Type} (map : Map Entry) (name : String) :
    get? (clone map) name = get? map name

/-! ## Lists as maps -/

/-- Named entries in the order in which their names first came in. No name occurs twice. -/
structure EntryList (Entry : Type) where
  entries : List (String × Entry)
  distinct : (entries.map Prod.fst).Nodup

namespace EntryList

variable {Entry : Type}

def empty : EntryList Entry :=
  ⟨[], by simp⟩

def find? (name : String) : List (String × Entry) → Option Entry
  | [] => none
  | (key, entry) :: entries => if key = name then some entry else find? name entries

/-- Overwrites the entry of a name in place, or adds the name at the end. -/
def store (name : String) (entry : Entry) : List (String × Entry) → List (String × Entry)
  | [] => [(name, entry)]
  | (key, old) :: entries =>
      if key = name then (key, entry) :: entries else (key, old) :: store name entry entries

theorem mem_names_store
    {name other : String} {entry : Entry} {entries : List (String × Entry)} :
    other ∈ (store name entry entries).map Prod.fst ↔
      other = name ∨ other ∈ entries.map Prod.fst := by
  induction entries with
  | nil => simp [store]
  | cons first entries inductionHypothesis =>
      obtain ⟨key, old⟩ := first
      by_cases same : key = name
      · subst same
        simp [store]
      · simp only [store, same, if_false, List.map_cons, List.mem_cons, inductionHypothesis]
        constructor
        · rintro (here | here | here) <;> simp [here]
        · rintro (here | here | here) <;> simp [here]

theorem nodup_store
    {name : String} {entry : Entry} {entries : List (String × Entry)}
    (distinct : (entries.map Prod.fst).Nodup) :
    ((store name entry entries).map Prod.fst).Nodup := by
  induction entries with
  | nil => simp [store]
  | cons first entries inductionHypothesis =>
      obtain ⟨key, old⟩ := first
      simp only [List.map_cons, List.nodup_cons] at distinct
      by_cases same : key = name
      · simpa [store, same] using distinct
      · simp only [store, same, if_false, List.map_cons, List.nodup_cons]
        refine ⟨fun present => ?_, inductionHypothesis distinct.2⟩
        rcases mem_names_store.mp present with here | here
        · exact same here
        · exact distinct.1 here

theorem find?_store
    {name other : String} {entry : Entry} {entries : List (String × Entry)} :
    find? other (store name entry entries) =
      if other = name then some entry else find? other entries := by
  induction entries with
  | nil =>
      by_cases same : other = name
      · simp [store, find?, same]
      · simp [store, find?, same, Ne.symm same]
  | cons first entries inductionHypothesis =>
      obtain ⟨key, old⟩ := first
      by_cases overwritten : key = name
      · subst overwritten
        by_cases same : other = key
        · simp [store, find?, same]
        · simp [store, find?, same, Ne.symm same]
      · simp only [store, overwritten, if_false, find?, inductionHypothesis]
        by_cases same : other = name
        · subst same
          simp [overwritten]
        · simp [same]

theorem mem_iff_find?_eq_some
    {name : String} {entry : Entry} {entries : List (String × Entry)}
    (distinct : (entries.map Prod.fst).Nodup) :
    (name, entry) ∈ entries ↔ find? name entries = some entry := by
  induction entries with
  | nil => simp [find?]
  | cons first entries inductionHypothesis =>
      obtain ⟨key, held⟩ := first
      simp only [List.map_cons, List.nodup_cons] at distinct
      by_cases same : key = name
      · subst same
        have absent : (key, entry) ∉ entries :=
          fun present => distinct.1 (List.mem_map_of_mem present)
        simp [find?, absent, eq_comm]
      · simp [find?, same, Ne.symm same, inductionHypothesis distinct.2]

def set (list : EntryList Entry) (name : String) (entry : Entry) : EntryList Entry :=
  ⟨store name entry list.entries, nodup_store list.distinct⟩

end EntryList

instance : KeyedMap EntryList where
  new := .empty
  insert list name entry := (EntryList.find? name list.entries, list.set name entry)
  place list name :=
    if (EntryList.find? name list.entries).isSome then .occupied else .vacant (list.set name)
  get? list name := EntryList.find? name list.entries
  containsKey list name := (EntryList.find? name list.entries).isSome
  len list := list.entries.length
  isEmpty list := list.entries.isEmpty
  iter list := list.entries
  clone list := list

instance : KeyedMap.Lawful EntryList where
  get?_new name := rfl
  fst_insert list name entry := rfl
  get?_insert list name other entry := EntryList.find?_store
  place_eq_occupied_iff list name := by
    simp only [KeyedMap.place, KeyedMap.get?]
    split <;> simp_all
  get?_fill vacant other entry := by
    simp only [KeyedMap.place] at vacant
    split at vacant
    · cases vacant
    · cases vacant
      exact EntryList.find?_store
  containsKey_eq list name := rfl
  nodup_iter list := list.distinct
  mem_iter_iff list name entry := EntryList.mem_iff_find?_eq_some list.distinct
  len_eq list := rfl
  isEmpty_eq list := by
    simp only [KeyedMap.isEmpty, KeyedMap.len]
    cases list.entries <;> rfl
  get?_clone list name := rfl

end ObjectGraph
