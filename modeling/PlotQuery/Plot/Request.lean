/-! What is to be plotted: the meaning of a query, and the reasons for which a query has none. -/
namespace PlotQuery

inductive PlotKind where
  | overview
  | histogram
  | scatter
  | line
  | regression
  deriving DecidableEq, Repr

namespace PlotKind

def name : PlotKind → String
  | overview => "overview"
  | histogram => "histogram"
  | scatter => "scatter"
  | line => "lineplot"
  | regression => "regression"

/-- The kind that a query can ask for by name. A regression is asked for in another way. -/
def ofName? (name : String) : Option PlotKind :=
  [overview, histogram, scatter, line].find? (·.name == name)

/-- The number of columns without which a plot cannot be drawn. -/
def requiredColumns : PlotKind → Nat
  | overview => 0
  | histogram | line => 1
  | scatter | regression => 2

end PlotKind

/-- A condition on the rows to plot. -/
structure RowFilter where
  column : String
  op : String
  value : String
  deriving DecidableEq, Repr

/-- The grouping of rows before they are plotted. -/
structure Grouping where
  columns : List String
  /-- The function by which the rows of a group become one. -/
  op : Option String
  /-- Whether each group is drawn as a series of its own. -/
  series : Bool
  deriving DecidableEq, Repr

/-- The bins of a histogram. -/
inductive Binning (S : Type) where
  | count (bins : Nat)
  | edges (edges : List S)
  | range (start stop : S) (step : Option S)

/-- A plot with all its options. -/
structure PlotRequest (S : Type) where
  kind : PlotKind
  /-- The plotted columns, all of them known to the schema. -/
  columns : List String
  x : Option String
  y : Option String
  group : Option Grouping
  filters : List RowFilter
  bins : Option (Binning S)
  log : Bool
  stacked : Bool
  density : Bool
  marker : Option String
  markerColumn : Option String
  color : Option String
  colorColumn : Option String
  line : Option String
  score : S

/-- An overview of the table, without any options. -/
def PlotRequest.overview {S : Type} (score : S) : PlotRequest S where
  kind := .overview
  columns := []
  x := none
  y := none
  group := none
  filters := []
  bins := none
  log := false
  stacked := false
  density := false
  marker := none
  markerColumn := none
  color := none
  colorColumn := none
  line := none
  score := score

/-- The reasons for which a query asks for no plot. -/
inductive PlotError where
  /-- The query has no parse. -/
  | noInterpretation
  /-- The query names fewer columns than the kind of plot needs. -/
  | missingColumns (kind : PlotKind) (required found : Nat)
  deriving DecidableEq, Repr

def PlotError.message : PlotError → String
  | .noInterpretation => "No se encontró ninguna interpretación para la consulta"
  | .missingColumns kind required found =>
    "El gráfico " ++ kind.name ++ " necesita al menos " ++ toString required
      ++ " columna(s), se reconocieron " ++ toString found

end PlotQuery
