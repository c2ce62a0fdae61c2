import ObjectGraph.Decimal.Notation
import ObjectGraph.Text.Quoted
import ObjectGraph.Tree

/-!
# The exchange format of trees

Trees are written as compact JSON: no blanks, entries in the order of the tree.
-/

namespace ObjectGraph

/-- Floating point numbers have an exponent below `1e-5` and from `1e+16` on, always with its sign;
of two equally near decimals the even one is written, and numbers that are not finite have no text
of their own. -/
def Tree.jsonFloat : Decimal.Style where
  leastPoint := -4
  greatestPoint := 16
  tie := .toEven
  plusSign := true
  nan := "null"
  infinity := "null"
  negativeInfinity := "null"

mutual

/-- A tree as JSON. -/
def Tree.json : Tree → String
  | .unit => "null"
  | .bool value => if value then "true" else "false"
  | .int value => toString value.toInt
  | .float value => Tree.jsonFloat.text value
  | .text value => Text.exchanged value
  | .map entries => "\x7b" ++ ",".intercalate (jsonEntries entries) ++ "\x7d"
  | .sequence items => "[" ++ ",".intercalate (jsonItems items) ++ "]"

def Tree.jsonEntries : List (String × Tree) → List String
  | [] => []
  | (name, tree) :: entries =>
      (Text.exchanged name ++ ":" ++ Tree.json tree) :: Tree.jsonEntries entries

def Tree.jsonItems : List Tree → List String
  | [] => []
  | tree :: items => Tree.json tree :: Tree.jsonItems items

end

end ObjectGraph
