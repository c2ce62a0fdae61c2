import ObjectGraph.Path.Cursor

/-!
# Paths

A path is a nonempty list of steps. It is read from a text once, before any graph is looked at, and
its written form joins the written forms of its steps by separators.
-/

namespace ObjectGraph

structure Path where
  steps : List Step
  steps_ne_nil : steps ≠ []
  deriving DecidableEq

namespace Path

def length (path : Path) : Nat :=
  path.steps.length

/-- The step that selects the slot the path stands for. -/
def last (path : Path) : Step :=
  path.steps.getLast path.steps_ne_nil

/-- The steps that lead to the owner of that slot. -/
def init (path : Path) : List Step :=
  path.steps.dropLast

@[simp]
theorem init_append_last (path : Path) :
    path.init ++ [path.last] = path.steps :=
  List.dropLast_concat_getLast path.steps_ne_nil

def append (first second : Path) : Path :=
  ⟨first.steps ++ second.steps, by simp [first.steps_ne_nil]⟩

instance : Append Path :=
  ⟨Path.append⟩

@[simp]
theorem steps_append (first second : Path) :
    (first ++ second).steps = first.steps ++ second.steps :=
  rfl

def joinSteps : List Step → List Char
  | [] => []
  | [step] => step.chars
  | step :: next :: steps => step.chars ++ Step.separator :: joinSteps (next :: steps)

def text (path : Path) : String :=
  String.ofList (joinSteps path.steps)

/-- The steps among the items of a cursor, unless one of the items is a fault. -/
def collect : List (Except Malformation Step) → Except Malformation (List Step)
  | [] => .ok []
  | .ok step :: items => (collect items).map (step :: ·)
  | .error malformation :: _ => .error malformation

theorem length_collect
    {items : List (Except Malformation Step)} {steps : List Step}
    (collected : collect items = .ok steps) :
    steps.length = items.length := by
  induction items generalizing steps with
  | nil => simp_all [collect]
  | cons item items inductionHypothesis =>
      cases item with
      | error malformation => simp [collect] at collected
      | ok step =>
          simp only [collect] at collected
          cases rest : collect items with
          | error malformation => simp [rest, Except.map] at collected
          | ok remaining =>
              simp only [rest, Except.map, Except.ok.injEq] at collected
              subst collected
              simp [inductionHypothesis rest]

/-- What a text yields when it is read from its start to its end or to the first fault. -/
def items (text : String) : List (Except Malformation Step) :=
  (Cursor.start text).items

theorem items_ne_nil (text : String) :
    items text ≠ [] :=
  Cursor.items_ne_nil rfl

def parse (text : String) : Except Malformation Path :=
  match collect (items text) with
  | .error malformation => .error malformation
  | .ok [] => .error ⟨0, .emptyPath⟩
  | .ok (step :: steps) => .ok ⟨step :: steps, by simp⟩

/-- The steps of the path that is read are those that the cursor yields: a text yields at least one
item, so that the path is never empty. -/
theorem steps_parse (text : String) :
    (parse text).map Path.steps = collect (items text) := by
  unfold parse
  split
  · next malformation collected => simp [collected, Except.map]
  · next collected =>
      have sameLength := length_collect collected
      exact absurd (List.length_eq_zero_iff.mp sameLength.symm) (items_ne_nil text)
  · next step steps collected => simp [collected, Except.map]

end Path

end ObjectGraph
