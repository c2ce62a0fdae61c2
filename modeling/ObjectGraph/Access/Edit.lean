import ObjectGraph.Access.Location
import ObjectGraph.Access.Read

/-!
# Reading and writing by path texts

The operations on whole path texts, and editors, which report every write that happened to a hook.
-/

namespace ObjectGraph

variable {Rule : Type} [Accessors Rule]

def Path.ofText (text : String) : Except AccessError Path :=
  (Path.parse text).mapError (.malformedPath text)

/-- A write that happened: the root it started from and the path it took. -/
structure Change where
  root : Value
  path : Path

def Change.label (change : Change) : String :=
  match change.path.last with
  | .member name => s!"Set {name}"
  | .element index => s!"Set data[{index}]"

def Value.get (catalog : Catalog Rule) (root : Value) (text : String) : Access Value := do
  let path ← Path.ofText text
  root.read catalog path

def Value.set (catalog : Catalog Rule) (root : Value) (text : String) (value : Value) :
    Access Change := do
  let path ← Path.ofText text
  let location ← root.locate catalog path
  location.write catalog value
  return ⟨root, path⟩

def Handle.get (catalog : Catalog Rule) (handle : Handle) (text : String) : Access Value :=
  (Value.shared handle).get catalog text

def Handle.set (catalog : Catalog Rule) (handle : Handle) (text : String) (value : Value) :
    Access Change :=
  (Value.shared handle).set catalog text value

/-- What is told about changes: it sees a change and the heap right after it, and it keeps a memory
of its own. -/
abbrev Hook (Memory : Type) :=
  Change → Heap → Memory → Heap × Memory

/-- Writes a value at a path text and then runs a callback on the change. A write that fails drops
the callback. -/
def Value.setThen {Memory : Type} (catalog : Catalog Rule) (onChange : Hook Memory)
    (root : Value) (text : String) (value : Value) (heap : Heap) (memory : Memory) :
    Except AccessError Change × Heap × Memory :=
  match root.set catalog text value heap with
  | .error error heap => (.error error, heap, memory)
  | .ok change heap => (.ok change, onChange change heap memory)

/-- A reusable facade that reports every write that happened to its hook, if it has one. -/
structure Editor (Memory : Type) where
  hook? : Option (Hook Memory)

namespace Editor

variable {Memory : Type}

def get (_ : Editor Memory) (catalog : Catalog Rule) (root : Value) (text : String) :
    Access Value :=
  root.get catalog text

def set (editor : Editor Memory) (catalog : Catalog Rule) (root : Value) (text : String)
    (value : Value) (heap : Heap) (memory : Memory) :
    Except AccessError Change × Heap × Memory :=
  match editor.hook? with
  | some hook => root.setThen catalog hook text value heap memory
  | none =>
      match root.set catalog text value heap with
      | .error error heap => (.error error, heap, memory)
      | .ok change heap => (.ok change, heap, memory)

end Editor

end ObjectGraph
