/-! Values of the JSON format. A number keeps its text, so that it can be read to any precision. -/
namespace PlotQuery

/-- A JSON value. The members of an object stand in the order in which they are written, and a key
may be repeated. -/
inductive Json where
  | null
  | bool (value : Bool)
  | number (text : String)
  | string (value : String)
  | array (items : List Json)
  | object (members : List (String × Json))

namespace Json

instance : Inhabited Json := ⟨null⟩

/-- A text, or null if there is none. -/
def ofString? : Option String → Json
  | some value => string value
  | none => null

def ofNat (n : Nat) : Json :=
  number (toString n)

def ofStrings (values : List String) : Json :=
  array (values.map string)

end Json

end PlotQuery
