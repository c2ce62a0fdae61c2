import ObjectGraph.KeyedMap

/-!
# Tables keyed by names

A table of names stands in front of a map and leaves the work to it: every operation of the table is
one operation of the map. Which map it is does not matter as long as the map does what it promises.
The catalogs of this library use tables over lists.
-/

namespace ObjectGraph

/-- A table of names in front of a map. -/
structure TableOver (Map : Type → Type) (Entry : Type) where
  map : Map Entry

/-- A table over a list of named entries. -/
abbrev NameTable (Entry : Type) : Type :=
  TableOver EntryList Entry

namespace TableOver

variable {Map : Type → Type} [KeyedMap Map] {Entry : Type}

def empty : TableOver Map Entry :=
  ⟨KeyedMap.new⟩

instance : Inhabited (TableOver Map Entry) :=
  ⟨empty⟩

def get? (table : TableOver Map Entry) (name : String) : Option Entry :=
  KeyedMap.get? table.map name

def contains (table : TableOver Map Entry) (name : String) : Bool :=
  KeyedMap.containsKey table.map name

def size (table : TableOver Map Entry) : Nat :=
  KeyedMap.len table.map

def isEmpty (table : TableOver Map Entry) : Bool :=
  KeyedMap.isEmpty table.map

def toList (table : TableOver Map Entry) : List (String × Entry) :=
  KeyedMap.iter table.map

def copy (table : TableOver Map Entry) : TableOver Map Entry :=
  ⟨KeyedMap.clone table.map⟩

def sorted (table : TableOver Map Entry) : List (String × Entry) :=
  table.toList.mergeSort (fun left right => !decide (right.1 < left.1))

/-- Sets the entry of a name and hands back the entry it had before. -/
def insert (table : TableOver Map Entry) (name : String) (entry : Entry) :
    Option Entry × TableOver Map Entry :=
  let (previous, map) := KeyedMap.insert table.map name entry
  (previous, ⟨map⟩)

def set (table : TableOver Map Entry) (name : String) (entry : Entry) : TableOver Map Entry :=
  (table.insert name entry).2

/-- Adds a name that is not present yet, with the entry that an action computes. A name that is
present keeps its entry, and then the action is not performed. Answers whether the name was added.
-/
def insertNewM {Effect : Type → Type} [Monad Effect] (table : TableOver Map Entry) (name : String)
    (entry : Unit → Effect Entry) : Effect (Bool × TableOver Map Entry) :=
  match KeyedMap.place table.map name with
  | .vacant fill => do return (true, ⟨fill (← entry ())⟩)
  | .occupied => return (false, table)

def insertNew (table : TableOver Map Entry) (name : String) (entry : Unit → Entry) :
    Bool × TableOver Map Entry :=
  Id.run (table.insertNewM name fun _ => pure (entry ()))

section Lawful

variable [KeyedMap.Lawful Map]

@[simp]
theorem get?_empty (name : String) :
    (empty : TableOver Map Entry).get? name = none :=
  KeyedMap.Lawful.get?_new name

@[simp]
theorem get?_set
    (table : TableOver Map Entry) (name other : String) (entry : Entry) :
    (table.set name entry).get? other =
      if other = name then some entry else table.get? other :=
  KeyedMap.Lawful.get?_insert table.map name other entry

theorem contains_eq (table : TableOver Map Entry) (name : String) :
    table.contains name = (table.get? name).isSome :=
  KeyedMap.Lawful.containsKey_eq table.map name

theorem nodup_toList (table : TableOver Map Entry) :
    (table.toList.map Prod.fst).Nodup :=
  KeyedMap.Lawful.nodup_iter table.map

theorem mem_toList_iff {table : TableOver Map Entry} {name : String} {entry : Entry} :
    (name, entry) ∈ table.toList ↔ table.get? name = some entry :=
  KeyedMap.Lawful.mem_iter_iff table.map name entry

end Lawful

end TableOver

end ObjectGraph
