import PlotQuery.Schema
import PlotQuery.Semantics.Merge
import PlotQuery.Text.Casing

/-! The columns that a semantic map names, and the choice of axes among them. Columns with categories
and columns that tell time go to the horizontal axis. -/
namespace PlotQuery

/-- The members of the value under a key. -/
def Semantics.items? (s : Semantics) (key : String) : Option (List String) :=
  (s.get? key).map (Text.items listSeparator)

namespace Schema

variable {S : Type}

/-- The members of the value under a key that are names of the schema. -/
def knownItems (schema : Schema S) (s : Semantics) (key : String) : List String :=
  ((s.items? key).getD []).filter schema.isKnown

/-- Parts of column names that tell time. -/
def timeWords : List String :=
  ["year", "month", "day", "time"]

def tellsTime (column : String) : Bool :=
  timeWords.any fun word => Text.containsRun word.toList (Text.lower column).toList

variable [Scalar S]

/-- How well a column suits the horizontal axis. -/
def axisWeight (schema : Schema S) (column : String) : Nat :=
  (if schema.isCategoryLike column then 5 else 0) + (if tellsTime column then 2 else 0)

/-- The column for the horizontal axis so far, and the next column. It changes for a greater weight. -/
def betterX (schema : Schema S) (best : Option String) (column : String) : Option String :=
  match best with
  | none => some column
  | some kept =>
    if schema.axisWeight kept < schema.axisWeight column then some column else some kept

/-- The column for the vertical axis so far, and the next column. It changes unless the weight is
greater. -/
def betterY (schema : Schema S) (best : Option String) (column : String) : Option String :=
  match best with
  | none => some column
  | some kept =>
    if schema.axisWeight column ≤ schema.axisWeight kept then some column else some kept

/-- The first of the columns with the greatest weight. -/
def xAxis (schema : Schema S) (columns : List String) : Option String :=
  columns.foldl schema.betterX none

/-- The last of the columns with the least weight. -/
def yAxis (schema : Schema S) (columns : List String) : Option String :=
  columns.foldl schema.betterY none

/-- The column under a key that goes to the horizontal axis, if it holds categories. -/
def categoryUnder (schema : Schema S) (s : Semantics) (key : String) : Option String :=
  (schema.xAxis (schema.knownItems s key)).filter schema.isCategoryLike

end Schema

end PlotQuery
