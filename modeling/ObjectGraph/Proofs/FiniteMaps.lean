import Mathlib.Data.Finmap
import ObjectGraph.NameTable

/-!
# Tables keyed by names are finite maps

A shelf has any number of holders, each with a table of its own. What the tables answer, step after
step, is what finite maps would answer in their place, as long as the maps that the tables stand in
front of do what they promise. A copy of a table is a table of its own.
-/

namespace ObjectGraph

variable {Map : Type → Type} [KeyedMap Map] {Holder Entry Memory Content : Type}

abbrev FiniteMap (Entry : Type) : Type :=
  Finmap fun _ : String => Entry

/-! ## The map of a table -/

namespace TableOver

theorem keys_map_toSigma (entries : List (String × Entry)) :
    (entries.map Prod.toSigma).keys = entries.map Prod.fst := by
  rw [List.keys, List.map_map]
  rfl

/-- The action for a new entry is run exactly when the place of the name is vacant, and then once.
-/
theorem run_insertNewM
    (table : TableOver Map Entry) (name : String) (entry : StateM Memory Entry) (memory : Memory) :
    (table.insertNewM name fun _ => entry).run memory =
      match KeyedMap.place table.map name with
      | .vacant fill => ((true, ⟨fill (entry.run memory).1⟩), (entry.run memory).2)
      | .occupied => ((false, table), memory) := by
  rw [insertNewM]
  cases KeyedMap.place table.map name <;> rfl

section Lawful

variable [KeyedMap.Lawful Map]

theorem nodupKeys_map_toSigma (table : TableOver Map Entry) :
    (table.toList.map Prod.toSigma).NodupKeys := by
  rw [List.NodupKeys, keys_map_toSigma]
  exact table.nodup_toList

def toFinmap (table : TableOver Map Entry) : FiniteMap Entry :=
  AList.toFinmap ⟨table.toList.map Prod.toSigma, table.nodupKeys_map_toSigma⟩

@[simp]
theorem lookup_toFinmap (table : TableOver Map Entry) (name : String) :
    table.toFinmap.lookup name = table.get? name := by
  change (table.toList.map Prod.toSigma).dlookup name = table.get? name
  apply Option.ext
  intro entry
  rw [← Option.mem_def, List.mem_dlookup_iff table.nodupKeys_map_toSigma, List.mem_map,
    ← mem_toList_iff]
  constructor
  · rintro ⟨pair, listed, ⟨⟩⟩
    exact listed
  · exact fun listed => ⟨_, listed, rfl⟩

theorem toFinmap_eq_of_get?_eq
    {table other : TableOver Map Entry} (same : ∀ name, table.get? name = other.get? name) :
    table.toFinmap = other.toFinmap := by
  apply Finmap.ext_lookup
  intro name
  rw [lookup_toFinmap, lookup_toFinmap, same]

theorem mem_toFinmap_iff {table : TableOver Map Entry} {name : String} :
    name ∈ table.toFinmap ↔ (table.get? name).isSome = true := by
  rw [← Finmap.lookup_isSome, lookup_toFinmap]

theorem toFinmap_empty : (empty : TableOver Map Entry).toFinmap = ∅ := by
  apply Finmap.ext_lookup
  intro name
  rw [lookup_toFinmap, get?_empty, Finmap.lookup_empty]

theorem toFinmap_copy (table : TableOver Map Entry) :
    table.copy.toFinmap = table.toFinmap :=
  toFinmap_eq_of_get?_eq fun name => KeyedMap.Lawful.get?_clone table.map name

/-- A table that answers like another one in which one name was set stands for the map in which that
name was inserted. -/
theorem toFinmap_of_get?
    {table filled : TableOver Map Entry} {name : String} {entry : Entry}
    (answers : ∀ other,
      filled.get? other = if other = name then some entry else table.get? other) :
    filled.toFinmap = table.toFinmap.insert name entry := by
  apply Finmap.ext_lookup
  intro other
  rw [lookup_toFinmap, answers]
  by_cases same : other = name
  · subst same
    rw [if_pos rfl, Finmap.lookup_insert]
  · rw [if_neg same, Finmap.lookup_insert_of_ne _ same, lookup_toFinmap]

theorem toFinmap_insert (table : TableOver Map Entry) (name : String) (entry : Entry) :
    (table.insert name entry).2.toFinmap = table.toFinmap.insert name entry :=
  toFinmap_of_get? fun other => table.get?_set name other entry

theorem toFinmap_fill
    {table : TableOver Map Entry} {name : String} {fill : Entry → Map Entry}
    (vacant : KeyedMap.place table.map name = .vacant fill) (entry : Entry) :
    (⟨fill entry⟩ : TableOver Map Entry).toFinmap = table.toFinmap.insert name entry :=
  toFinmap_of_get? fun other => KeyedMap.Lawful.get?_fill vacant other entry

/-- The length is the number of distinct names. -/
theorem card_keys_toFinmap (table : TableOver Map Entry) :
    table.toFinmap.keys.card = table.size := by
  change ((table.toList.map Prod.toSigma).keys : Multiset String).card = table.size
  rw [keys_map_toSigma, Multiset.coe_card, List.length_map]
  exact (KeyedMap.Lawful.len_eq table.map).symm

theorem isEmpty_iff_toFinmap_eq_empty {table : TableOver Map Entry} :
    table.isEmpty = true ↔ table.toFinmap = ∅ := by
  have counted : table.isEmpty = true ↔ table.toFinmap.keys.card = 0 := by
    rw [card_keys_toFinmap, isEmpty, KeyedMap.Lawful.isEmpty_eq, beq_iff_eq]
    rfl
  rw [counted, Finset.card_eq_zero]
  constructor
  · intro noKeys
    apply Finmap.ext_lookup
    intro name
    rw [Finmap.lookup_empty, Finmap.lookup_eq_none, ← Finmap.mem_keys, noKeys]
    exact Finset.notMem_empty name
  · rintro empty
    rw [empty, Finmap.keys_empty]

end Lawful

end TableOver

/-! ## Shelves -/

/-- What each holder has, and a memory for the actions that compute new entries. -/
structure Shelf (Holder Content Memory : Type) where
  content : Holder → Content
  memory : Memory

/-- A step on the tables of a shelf. The action that computes a new entry may read and change the
memory, and a copy is given to the second holder. -/
inductive ShelfStep (Holder Entry Memory : Type) where
  | create (holder : Holder)
  | insert (holder : Holder) (name : String) (entry : Entry)
  | insertNew (holder : Holder) (name : String) (entry : StateM Memory Entry)
  | get? (holder : Holder) (name : String)
  | contains (holder : Holder) (name : String)
  | size (holder : Holder)
  | isEmpty (holder : Holder)
  | toList (holder : Holder)
  | copy (source target : Holder)

inductive ShelfReply (Entry : Type) where
  | found (entry : Option Entry)
  | verdict (verdict : Bool)
  | count (count : Nat)
  | entries (entries : List (String × Entry))
  | done
  deriving DecidableEq

namespace Shelf

variable [DecidableEq Holder]

def put (shelf : Shelf Holder Content Memory) (holder : Holder) (content : Content) :
    Shelf Holder Content Memory :=
  { shelf with content := Function.update shelf.content holder content }

/-- Performs a step: the answer, and the shelf after it. -/
def perform (shelf : Shelf Holder (TableOver Map Entry) Memory) :
    ShelfStep Holder Entry Memory → ShelfReply Entry × Shelf Holder (TableOver Map Entry) Memory
  | .create holder => (.done, shelf.put holder .empty)
  | .insert holder name entry =>
      let (previous, table) := (shelf.content holder).insert name entry
      (.found previous, shelf.put holder table)
  | .insertNew holder name entry =>
      let ((added, table), memory) :=
        ((shelf.content holder).insertNewM name fun _ => entry).run shelf.memory
      (.verdict added, { shelf.put holder table with memory := memory })
  | .get? holder name => (.found ((shelf.content holder).get? name), shelf)
  | .contains holder name => (.verdict ((shelf.content holder).contains name), shelf)
  | .size holder => (.count (shelf.content holder).size, shelf)
  | .isEmpty holder => (.verdict (shelf.content holder).isEmpty, shelf)
  | .toList holder => (.entries (shelf.content holder).toList, shelf)
  | .copy source target => (.done, shelf.put target (shelf.content source).copy)

def performAll (shelf : Shelf Holder (TableOver Map Entry) Memory) :
    List (ShelfStep Holder Entry Memory) →
      List (ShelfReply Entry) × Shelf Holder (TableOver Map Entry) Memory
  | [] => ([], shelf)
  | step :: steps =>
      let (reply, next) := shelf.perform step
      let (replies, last) := next.performAll steps
      (reply :: replies, last)

/-- The maps that the tables of a shelf stand for. -/
def maps [KeyedMap.Lawful Map] (shelf : Shelf Holder (TableOver Map Entry) Memory) :
    Shelf Holder (FiniteMap Entry) Memory :=
  ⟨fun holder => (shelf.content holder).toFinmap, shelf.memory⟩

end Shelf

/-! ## What finite maps answer -/

section Meaning

variable [DecidableEq Holder]

/-- What a step means for finite maps: the maps before it, the answer, and the maps after it. The
action for a new entry is run only where the name is absent, and the entries of a table are listed
in any order. -/
inductive ShelfStep.Means (shelf : Shelf Holder (FiniteMap Entry) Memory) :
    ShelfStep Holder Entry Memory → ShelfReply Entry → Shelf Holder (FiniteMap Entry) Memory → Prop
  | create (holder : Holder) : Means shelf (.create holder) .done (shelf.put holder ∅)
  | insert (holder : Holder) (name : String) (entry : Entry) :
      Means shelf (.insert holder name entry) (.found ((shelf.content holder).lookup name))
        (shelf.put holder ((shelf.content holder).insert name entry))
  | added {holder : Holder} {name : String} {entry : StateM Memory Entry} {computed : Entry}
      {memory : Memory} (absent : name ∉ shelf.content holder)
      (ran : entry.run shelf.memory = (computed, memory)) :
      Means shelf (.insertNew holder name entry) (.verdict true)
        { shelf.put holder ((shelf.content holder).insert name computed) with memory := memory }
  | kept {holder : Holder} {name : String} {entry : StateM Memory Entry}
      (present : name ∈ shelf.content holder) :
      Means shelf (.insertNew holder name entry) (.verdict false) shelf
  | get? (holder : Holder) (name : String) :
      Means shelf (.get? holder name) (.found ((shelf.content holder).lookup name)) shelf
  | contains {holder : Holder} {name : String} {verdict : Bool}
      (known : verdict = true ↔ name ∈ shelf.content holder) :
      Means shelf (.contains holder name) (.verdict verdict) shelf
  | size (holder : Holder) :
      Means shelf (.size holder) (.count (shelf.content holder).keys.card) shelf
  | isEmpty {holder : Holder} {verdict : Bool} (known : verdict = true ↔ shelf.content holder = ∅) :
      Means shelf (.isEmpty holder) (.verdict verdict) shelf
  | toList {holder : Holder} {entries : List (String × Entry)}
      (distinct : (entries.map Prod.fst).Nodup)
      (listed : ∀ name entry,
        (name, entry) ∈ entries ↔ (shelf.content holder).lookup name = some entry) :
      Means shelf (.toList holder) (.entries entries) shelf
  | copy (source target : Holder) :
      Means shelf (.copy source target) .done (shelf.put target (shelf.content source))

/-- What steps mean in turn. -/
inductive ShelfStep.MeanInTurn :
    Shelf Holder (FiniteMap Entry) Memory → List (ShelfStep Holder Entry Memory) →
      List (ShelfReply Entry) → Shelf Holder (FiniteMap Entry) Memory → Prop
  | nil (shelf : Shelf Holder (FiniteMap Entry) Memory) : MeanInTurn shelf [] [] shelf
  | cons {shelf next last : Shelf Holder (FiniteMap Entry) Memory}
      {step : ShelfStep Holder Entry Memory} {steps : List (ShelfStep Holder Entry Memory)}
      {reply : ShelfReply Entry} {replies : List (ShelfReply Entry)}
      (first : step.Means shelf reply next) (others : MeanInTurn next steps replies last) :
      MeanInTurn shelf (step :: steps) (reply :: replies) last

/-- The holder whose table a step may change. -/
def ShelfStep.writes? : ShelfStep Holder Entry Memory → Option Holder
  | create holder => some holder
  | insert holder _ _ => some holder
  | insertNew holder _ _ => some holder
  | copy _ target => some target
  | _ => none

end Meaning

namespace Shelf

variable [DecidableEq Holder]

theorem put_self (shelf : Shelf Holder Content Memory) (holder : Holder) :
    shelf.put holder (shelf.content holder) = shelf := by
  simp [put]

theorem content_put_of_ne
    {shelf : Shelf Holder Content Memory} {holder other : Holder} {content : Content}
    (different : other ≠ holder) :
    (shelf.put holder content).content other = shelf.content other := by
  simp [put, different]

/-- A step changes no table but the one that it writes. -/
theorem content_perform_of_ne
    {shelf : Shelf Holder (TableOver Map Entry) Memory} {step : ShelfStep Holder Entry Memory}
    {holder : Holder} (unwritten : step.writes? ≠ some holder) :
    (shelf.perform step).2.content holder = shelf.content holder := by
  have other {written : Holder} (writes : step.writes? = some written) : holder ≠ written := by
    rintro rfl
    exact unwritten writes
  cases step with
  | create written => exact content_put_of_ne (other rfl)
  | insert written name entry => exact content_put_of_ne (other rfl)
  | insertNew written name entry => exact content_put_of_ne (other rfl)
  | copy source target => exact content_put_of_ne (other rfl)
  | _ => rfl

theorem content_performAll_of_ne
    {shelf : Shelf Holder (TableOver Map Entry) Memory}
    {steps : List (ShelfStep Holder Entry Memory)}
    {holder : Holder} (unwritten : ∀ step ∈ steps, step.writes? ≠ some holder) :
    (shelf.performAll steps).2.content holder = shelf.content holder := by
  induction steps generalizing shelf with
  | nil => rfl
  | cons step steps inductionHypothesis =>
      obtain ⟨first, others⟩ := List.forall_mem_cons.mp unwritten
      exact (inductionHypothesis others).trans (content_perform_of_ne first)

section Lawful

variable [KeyedMap.Lawful Map]

theorem maps_put
    (shelf : Shelf Holder (TableOver Map Entry) Memory) (holder : Holder)
    (table : TableOver Map Entry) :
    (shelf.put holder table).maps = shelf.maps.put holder table.toFinmap := by
  simp only [maps, put, mk.injEq, and_true]
  funext other
  by_cases same : other = holder
  · subst same
    simp
  · simp [same]

/-- A step on tables means what it means for the maps that they stand for. -/
theorem means_perform
    (shelf : Shelf Holder (TableOver Map Entry) Memory) (step : ShelfStep Holder Entry Memory) :
    step.Means shelf.maps (shelf.perform step).1 (shelf.perform step).2.maps := by
  cases step with
  | create holder =>
      simp only [perform, maps_put, TableOver.toFinmap_empty]
      exact .create holder
  | insert holder name entry =>
      have previous : ((shelf.content holder).insert name entry).1 =
          (shelf.maps.content holder).lookup name := by
        rw [maps, TableOver.lookup_toFinmap]
        exact KeyedMap.Lawful.fst_insert (shelf.content holder).map name entry
      simp only [perform, maps_put, TableOver.toFinmap_insert, previous]
      exact .insert holder name entry
  | insertNew holder name entry =>
      simp only [perform, TableOver.run_insertNewM]
      have known := KeyedMap.Lawful.place_eq_occupied_iff (shelf.content holder).map name
      cases place : KeyedMap.place (shelf.content holder).map name with
      | occupied =>
          simp only [put_self]
          exact .kept (TableOver.mem_toFinmap_iff.mpr (known.mp place))
      | vacant fill =>
          have absent : name ∉ (shelf.content holder).toFinmap := by
            intro present
            rw [known.mpr (TableOver.mem_toFinmap_iff.mp present)] at place
            cases place
          have after (computed : Entry) (memory : Memory) :
              maps { shelf.put holder ⟨fill computed⟩ with memory := memory } =
                { shelf.maps.put holder ((shelf.content holder).toFinmap.insert name computed) with
                  memory := memory } := by
            rw [← TableOver.toFinmap_fill place, ← maps_put]
            rfl
          simp only [after]
          exact .added absent rfl
  | get? holder name =>
      simp only [perform]
      rw [← TableOver.lookup_toFinmap]
      exact .get? holder name
  | contains holder name =>
      apply ShelfStep.Means.contains
      rw [TableOver.contains_eq]
      exact TableOver.mem_toFinmap_iff.symm
  | size holder =>
      simp only [perform]
      rw [← TableOver.card_keys_toFinmap]
      exact .size holder
  | isEmpty holder => exact .isEmpty TableOver.isEmpty_iff_toFinmap_eq_empty
  | toList holder =>
      apply ShelfStep.Means.toList (shelf.content holder).nodup_toList
      intro name entry
      rw [maps, TableOver.lookup_toFinmap]
      exact TableOver.mem_toList_iff
  | copy source target =>
      simp only [perform, maps_put, TableOver.toFinmap_copy]
      exact .copy source target

/-- Steps on tables mean what they mean for the maps that the tables stand for. -/
theorem meanInTurn_performAll
    (shelf : Shelf Holder (TableOver Map Entry) Memory)
    (steps : List (ShelfStep Holder Entry Memory)) :
    ShelfStep.MeanInTurn shelf.maps steps (shelf.performAll steps).1
      (shelf.performAll steps).2.maps := by
  induction steps generalizing shelf with
  | nil => exact .nil shelf.maps
  | cons step steps inductionHypothesis =>
      exact .cons (shelf.means_perform step) (inductionHypothesis (shelf.perform step).2)

/-- The tables of a shelf behave like finite maps while steps are performed on them. -/
structure BehavesAsMaps (shelf : Shelf Holder (TableOver Map Entry) Memory)
    (steps : List (ShelfStep Holder Entry Memory)) : Prop where
  meaning : ShelfStep.MeanInTurn shelf.maps steps (shelf.performAll steps).1
    (shelf.performAll steps).2.maps
  /-- Steps on other tables do not change a table, even if these are copies of it. -/
  separate : ∀ holder, (∀ step ∈ steps, step.writes? ≠ some holder) →
    (shelf.performAll steps).2.content holder = shelf.content holder

/-- Tables keyed by names behave like finite maps, whatever is done with any number of them. -/
theorem behavesAsMaps_of_steps
    (shelf : Shelf Holder (TableOver Map Entry) Memory)
    (steps : List (ShelfStep Holder Entry Memory)) :
    shelf.BehavesAsMaps steps where
  meaning := shelf.meanInTurn_performAll steps
  separate _ unwritten := content_performAll_of_ne unwritten

end Lawful

/-- The memory counts how often a new entry is computed. The copy has the name `x` already, and the
name that it gets afterwards is not given to the original. -/
theorem behavesAsMaps_of_steps_copied :
    let count : StateM Nat Nat := modifyGet fun count => (count, count + 1)
    let before : Shelf Nat (TableOver EntryList Nat) Nat := ⟨fun _ => .empty, 7⟩
    let steps := [.insert 0 "x" 1, .copy 0 1, .insertNew 1 "x" count, .insertNew 1 "y" count,
      .insert 1 "x" 5, .size 1, .toList 1, .toList 0]
    KeyedMap.Lawful EntryList ∧ before.BehavesAsMaps steps ∧
      (before.performAll steps).1 =
        [.found none, .done, .verdict false, .verdict true, .found (some 1), .count 2,
          .entries [("x", 5), ("y", 7)], .entries [("x", 1)]] ∧
      (before.performAll steps).2.memory = 8 := by
  intro count before steps
  exact ⟨inferInstance, behavesAsMaps_of_steps before steps, by decide, by decide⟩

end Shelf

end ObjectGraph
