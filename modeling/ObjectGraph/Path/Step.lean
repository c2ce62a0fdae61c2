/-!
# Steps of a path

A path leads from a root value to a slot, one step at a time. A step either names a member of a
composite or gives the position of an element of a list. This module fixes the written form of a
step and the order of steps; reading the written form back is the task of `ObjectGraph.Path.Cursor`.
-/

namespace ObjectGraph

inductive Step where
  | member (name : String)
  | element (index : Nat)
  deriving DecidableEq, Repr, Inhabited

namespace Step

/-- The text that opens an element step. It contains the separator of steps. -/
def elementOpening : List Char := ['A', 'r', 'r', 'a', 'y', '.', 'd', 'a', 't', 'a', '[']

def elementClosing : Char := ']'

def separator : Char := '.'

/-- Element positions are 64-bit words: they stay below two to the power 64. -/
def indexLimit : Nat := 18446744073709551616

def name? : Step → Option String
  | member name => some name
  | element _ => none

def index? : Step → Option Nat
  | member _ => none
  | element index => some index

/-- The written form of a step: a name stands for itself, and a position is written in decimal
between the opening and the closing text. -/
def chars : Step → List Char
  | member name => name.toList
  | element index => elementOpening ++ Nat.toDigits 10 index ++ [elementClosing]

def text (step : Step) : String :=
  String.ofList step.chars

@[simp]
theorem toList_text (step : Step) :
    step.text.toList = step.chars := by
  simp [text]

/-- Member steps come before element steps, names are ordered by their characters and positions by
size. -/
protected def compare : Step → Step → Ordering
  | member left, member right => Ord.compare left right
  | member _, element _ => .lt
  | element _, member _ => .gt
  | element left, element right => Ord.compare left right

instance : Ord Step :=
  ⟨Step.compare⟩

end Step

def Step.compareLists : List Step → List Step → Ordering
  | [], [] => .eq
  | [], _ :: _ => .lt
  | _ :: _, [] => .gt
  | left :: lefts, right :: rights =>
      (Ord.compare left right).then (Step.compareLists lefts rights)

end ObjectGraph
