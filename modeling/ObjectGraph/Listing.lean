import ObjectGraph.Access.Edit
import ObjectGraph.Decimal.Notation
import ObjectGraph.Registration
import ObjectGraph.Text.Quoted

/-!
# Listings

Texts of values, layouts and editors for people who look for a mistake. Graphs may have cycles, so
of a shared object only the type is listed, and of a shared list the type and the length.
-/

namespace ObjectGraph

variable {Rule : Type}

/-- Floating point numbers have an exponent below `1e-4` and from `1e16` on; of two equally near
decimals the one further from zero is written. -/
def Value.listedFloat : Decimal.Style where
  leastPoint := -3
  greatestPoint := 16
  tie := .upward
  plusSign := false
  nan := "NaN"
  infinity := "inf"
  negativeInfinity := "-inf"

namespace Listing

/-- A record: its name and its fields, without braces when there are no fields. -/
def ofRecord (name : String) (fields : List (String × String)) : String :=
  if fields.isEmpty then
    name
  else
    name ++ " \x7b " ++ ", ".intercalate (fields.map fun (field, text) => field ++ ": " ++ text) ++
      " \x7d"

def ofItems (items : List String) : String :=
  "[" ++ ", ".intercalate items ++ "]"

def ofTable (entries : List (String × String)) : String :=
  "\x7b" ++ ", ".intercalate (entries.map fun (name, text) => Text.listed name ++ ": " ++ text) ++
    "\x7d"

end Listing

mutual

def Value.listing (catalog : Catalog Rule) (heap : Heap) : Value → String
  | .null => "Null"
  | .bool value => s!"Bool({value})"
  | .int value => s!"Int({value.toInt})"
  | .float value => s!"Float({Value.listedFloat.text value})"
  | .text value => s!"Str({Text.listed value})"
  | .struct type fields =>
      let texts := Value.listings catalog heap fields
      let named := (catalog.layout type).visible.filterMap fun placed => do
        let index ← placed.stored?
        let text ← texts[index]?
        some (placed.name, text)
      s!"Struct({Listing.ofRecord type.name named})"
  | .shared (.object type _) => s!"Object({type.name}@)"
  | .shared (.list element cell) =>
      let handle := Handle.list element cell
      s!"List({handle.typeName}[{heap.length handle}]@)"

def Value.listings (catalog : Catalog Rule) (heap : Heap) : List Value → List String
  | [] => []
  | value :: values => value.listing catalog heap :: Value.listings catalog heap values

end

def PlacedMember.listing (placed : PlacedMember Rule) : String :=
  s!"{placed.declaredBy}::{placed.name}: {placed.type.describe}"

def Layout.listing (layout : Layout Rule) : String :=
  Listing.ofRecord "TypeLayout"
    [("name", Text.listed layout.name),
      ("semantics", layout.semantics.describe),
      ("base", match layout.base? with
        | some base => s!"Some({Text.listed base})"
        | none => "None"),
      ("members", Listing.ofItems (layout.members.map PlacedMember.listing))]

def Member.kindListing [Accessors Rule] (member : Member Rule) : String :=
  match member.writable? with
  | none => "Field"
  | some writable => Listing.ofRecord "Property" [("writable", toString writable)]

def Layout.kindsListing [Accessors Rule] (layout : Layout Rule) : String :=
  Listing.ofItems (layout.members.map fun placed => placed.member.kindListing)

def Editor.listing {Memory : Type} (editor : Editor Memory) : String :=
  Listing.ofRecord "PropertyAccess" [("on_change", toString editor.hook?.isSome)]

end ObjectGraph
