import PlotQuery.Json.Writer
import PlotQuery.Plot.Interpretation

/-! Reports: what is printed for each statement of a query, as a line of text or as a JSON object. -/
namespace PlotQuery

/-- A parse of a statement with its interpretation. -/
structure Report (S : Type) where
  /-- The whole query, of which the statement is a part. -/
  query : String
  score : S
  semantics : Semantics
  plot : Except PlotError (PlotRequest S)

namespace Report

variable {S : Type} [Scalar S] [ScalarText S]

def ofParse (schema : Schema S) (query : String) (parse : Option (Derivation S)) : Report S where
  query := query
  score := (parse.map Derivation.score).getD Scalar.zero
  semantics := (parse.map Derivation.semantics).getD Semantics.empty
  plot := PlotRequest.ofParse schema parse

/-- The kind of plot, or why there is none. -/
def verdict (report : Report S) : String :=
  match report.plot with
  | .ok plot => plot.kind.name
  | .error e => "error: " ++ e.message

def line (report : Report S) : String :=
  Text.join "\t"
    [report.query, ScalarText.places 4 report.score, report.verdict, report.semantics.display]

/-- A number, or null where JSON has no form for it. -/
def number (x : S) : Json :=
  match ScalarText.exchange? x with
  | some text => .number text
  | none => .null

def semanticsJson (s : Semantics) : Json :=
  .object (s.entries.map fun e => (e.1, .string e.2))

def binningJson : Binning S → Json
  | .count bins => .object [("kind", .string "count"), ("bins", .ofNat bins)]
  | .edges edges => .object [("kind", .string "edges"), ("edges", .array (edges.map number))]
  | .range start stop step =>
    .object
      [("kind", .string "range"), ("start", number start), ("end", number stop),
       ("step", (step.map number).getD .null)]

def groupingJson (group : Grouping) : Json :=
  .object
    [("columns", .ofStrings group.columns), ("op", .ofString? group.op),
     ("series", .bool group.series)]

def filterJson (filter : RowFilter) : Json :=
  .object
    [("column", .string filter.column), ("op", .string filter.op), ("value", .string filter.value)]

def plotJson (plot : PlotRequest S) : Json :=
  .object
    [("kind", .string plot.kind.name), ("columns", .ofStrings plot.columns),
     ("x", .ofString? plot.x), ("y", .ofString? plot.y),
     ("group", (plot.group.map groupingJson).getD .null),
     ("filters", .array (plot.filters.map filterJson)),
     ("bins", (plot.bins.map binningJson).getD .null), ("log", .bool plot.log),
     ("stacked", .bool plot.stacked), ("density", .bool plot.density),
     ("marker", .ofString? plot.marker), ("marker_column", .ofString? plot.markerColumn),
     ("color", .ofString? plot.color), ("color_column", .ofString? plot.colorColumn),
     ("line", .ofString? plot.line), ("score", number plot.score)]

def json (report : Report S) : Json :=
  let plot : Json × Json :=
    match report.plot with
    | .ok plot => (plotJson plot, .null)
    | .error e => (.null, .string e.message)
  .object
    [("query", .string report.query), ("score", number report.score),
     ("semantics", semanticsJson report.semantics), ("plot", plot.1), ("error", plot.2)]

def writeAll (asJson : Bool) (reports : List (Report S)) : String :=
  if asJson then (Json.array (reports.map json)).write
  else Text.join "\n" (reports.map line)

end Report

end PlotQuery
