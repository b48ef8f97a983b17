import PlotQuery.Scalar
import PlotQuery.Text.Pieces

/-! What is known of the table that a query is about: the names of its columns, and for each column
its type and the range of its values. -/
namespace PlotQuery

/-- The type of a column, and the range of its values if they are numbers. -/
structure ColumnProfile (S : Type) where
  dtype : String
  range : Option (S × S)

/-- A table by name and columns, and names that belong to no table. Profiles go with the columns by
position and may be missing at the end. -/
structure Schema (S : Type) where
  dataFrame : String
  columns : List String
  looseNames : List String
  profiles : List (ColumnProfile S)

namespace Schema

variable {S : Type}

def empty : Schema S :=
  ⟨"", [], [], []⟩

/-- A table with columns of which only the names are known. -/
def ofColumns (dataFrame : String) (columns : List String) : Schema S :=
  ⟨dataFrame, columns, [], []⟩

def isNumericType (dtype : String) : Bool :=
  "int".toList.isPrefixOf dtype.toList || "float".toList.isPrefixOf dtype.toList

/-- The schema with a profile for each type. A numeric type has the range between the texts at its
place in the two lists, if both can be read as numbers. -/
def withTypes [ScalarText S] (schema : Schema S) (types mins maxes : List String) : Schema S :=
  let bound := fun (texts : List String) (i : Nat) =>
    texts[i]?.bind fun text => (ScalarText.read? (Text.trimmed text) : Option S)
  let profile := fun (dtype : String) (i : Nat) =>
    let range :=
      if isNumericType dtype then
        match bound mins i, bound maxes i with
        | some low, some high => some (low, high)
        | _, _ => none
      else none
    (⟨dtype, range⟩ : ColumnProfile S)
  { schema with profiles := types.mapIdx fun i dtype => profile dtype i }

/-- The names that a query may mean: columns first. -/
def candidateNames (schema : Schema S) : List String :=
  schema.columns ++ schema.looseNames

/-- The position of the first column with a name. -/
def columnIndex? (schema : Schema S) (name : String) : Option Nat :=
  schema.columns.findIdx? (· == name)

/-- Whether a name is a column or a loose name. -/
def isKnown (schema : Schema S) (name : String) : Bool :=
  (schema.columnIndex? name).isSome || schema.looseNames.contains name

def profile? (schema : Schema S) (name : String) : Option (ColumnProfile S) :=
  (schema.columnIndex? name).bind fun i => schema.profiles[i]?

def isCategorical (schema : Schema S) (name : String) : Bool :=
  match schema.profile? name with
  | some profile => profile.dtype == "category"
  | none => false

/-- The widest range of whole numbers that counts as a set of categories. -/
def categorySpan [Scalar S] : S :=
  Scalar.ofNat 12

/-- Whether a column holds categories or whole numbers within a narrow range. -/
def isCategoryLike [Scalar S] (schema : Schema S) (name : String) : Bool :=
  schema.isCategorical name ||
    match schema.profile? name with
    | some ⟨dtype, some (low, high)⟩ =>
      Text.containsRun "int".toList dtype.toList && Scalar.le (high - low) categorySpan
    | _ => false

def range? (schema : Schema S) (name : String) : Option (S × S) :=
  (schema.profile? name).bind ColumnProfile.range

def least? (schema : Schema S) (name : String) : Option S :=
  (schema.range? name).map Prod.fst

def greatest? (schema : Schema S) (name : String) : Option S :=
  (schema.range? name).map Prod.snd

end Schema

end PlotQuery
