import PlotQuery.Derivation
import PlotQuery.Plot.Binning
import PlotQuery.Plot.Grouping

/-! The interpretation of a parse as a plot. A value counts by being there, and names that the schema
does not know are not plotted. -/
namespace PlotQuery

namespace PlotKind

variable {S : Type} [Scalar S]

def countKeys (s : Semantics) (keys : List String) : Int :=
  (keys.countP s.contains : Nat)

def oneIf (condition : Bool) : Int :=
  if condition then 1 else 0

/-- Whether the number of columns and groups suits a plot with two axes. -/
def suitsAxes (s : Semantics) : Bool :=
  let columns := ((s.items? "ColName").getD []).length
  let groups := ((s.items? "group_col").getD []).length
  columns == 2 || (columns == 1 && 1 < groups)

def histogramWeight (s : Semantics) : Int :=
  countKeys s ["histobins", "histostack", "histolog", "histodens"]

def scatterWeight (schema : Schema S) (s : Semantics) : Int :=
  (if suitsAxes s then 1 else -2)
    + oneIf (s.contains "marker" || s.contains "marker_col")
    + oneIf (s.contains "color" || s.contains "color_col")
    + oneIf (schema.categoryUnder s "ColName").isSome

def lineWeight (schema : Schema S) (s : Semantics) : Int :=
  (if suitsAxes s then 1 else -2) + countKeys s ["marker", "line", "color"]
    + oneIf (schema.categoryUnder s "ColName").isNone

/-- The kind of plot for a query that names none: what most speaks for. A histogram comes before a line
plot, and a line plot before a scatter plot. -/
def infer (schema : Schema S) (s : Semantics) : PlotKind :=
  let best := max (max (histogramWeight s) (scatterWeight schema s)) (lineWeight schema s)
  if histogramWeight s = best then .histogram
  else if lineWeight schema s = best then .line
  else .scatter

def named? (s : Semantics) : Option PlotKind :=
  (s.get? "type").bind ofName?

def ofSemantics (schema : Schema S) (s : Semantics) : PlotKind :=
  match named? s with
  | some .overview => .overview
  | some .histogram => .histogram
  | some kind => if s.contains "regress" then .regression else kind
  | none =>
    if !s.contains "ColName" then .overview
    else if s.contains "regress" then .regression
    else infer schema s

end PlotKind

/-- The conditions on rows: operators and values are paired by position, and what has no partner is
left out. -/
def RowFilter.ofSemantics (s : Semantics) : List RowFilter :=
  match s.get? "filter_col", s.items? "filter_op", s.items? "filter_v" with
  | some column, some ops, some values => List.zipWith (RowFilter.mk column) ops values
  | _, _, _ => []

namespace PlotRequest

variable {S : Type} [Scalar S] [ScalarText S]

def axes (schema : Schema S) (kind : PlotKind) (columns : List String) :
    Option String × Option String :=
  match kind with
  | .scatter | .regression => (schema.xAxis columns, schema.yAxis columns)
  | .line =>
    if 1 < columns.length then (schema.xAxis columns, schema.yAxis columns)
    else (none, schema.yAxis columns)
  | _ => (none, none)

/-- The plot with the options of a map, once its groups are in place. -/
def ofLayout (schema : Schema S) (kind : PlotKind) (score : S) (series : Bool) (s : Semantics) :
    Except PlotError (PlotRequest S) :=
  let columns := schema.knownItems s "ColName"
  if columns.length < kind.requiredColumns then
    throw (.missingColumns kind kind.requiredColumns columns.length)
  else
    return {
      kind := kind
      columns := columns
      x := (axes schema kind columns).1
      y := (axes schema kind columns).2
      group := (s.items? "group_col").map fun names => ⟨names, s.get? "group_op", series⟩
      filters := RowFilter.ofSemantics s
      bins := if kind = .histogram then Binning.ofSemantics? schema columns s else none
      log := s.contains "histolog"
      stacked := s.contains "histostack"
      density := s.contains "histodens"
      marker := s.get? "marker"
      markerColumn := s.get? "marker_col"
      color := s.get? "color"
      colorColumn := s.get? "color_col"
      line := s.get? "line"
      score := score }

def ofSemantics (schema : Schema S) (score : S) (s : Semantics) :
    Except PlotError (PlotRequest S) :=
  match PlotKind.ofSemantics schema s with
  | .overview => return overview score
  | kind =>
    let (series, laidOut) := schema.layoutGroups kind (schema.resolveGrouping kind s)
    ofLayout schema kind score series laidOut

def ofParse (schema : Schema S) : Option (Derivation S) → Except PlotError (PlotRequest S)
  | none => throw .noInterpretation
  | some d => ofSemantics schema d.score d.semantics

end PlotRequest

end PlotQuery
