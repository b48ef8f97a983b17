import PlotQuery.Plot.Axes
import PlotQuery.Plot.Request

/-! Grouping. The groups that a query names, or that its aggregate function implies, are reconciled
with the columns that it plots. -/
namespace PlotQuery.Schema

variable {S : Type} [Scalar S]

/-- An aggregate function without groups takes a plotted category as its group, in a plot that has
room for it. -/
def inferGroup (schema : Schema S) (kind : PlotKind) (s : Semantics) : Semantics :=
  if s.contains "group_op" && !s.contains "group_col"
    && (decide (kind = .line) || decide (kind = .scatter)) then
    match schema.categoryUnder s "ColName" with
    | some column => s.insert "group_col" column
    | none => s
  else s

/-- Take a member out of the value under a key and put another one at its end. -/
def swapMember (s : Semantics) (key removed added : String) : Semantics :=
  let kept := ((s.items? key).getD []).filter (· != removed)
  s.insert key (Text.join (String.singleton listSeparator) (kept ++ [added]))

/-- A plotted category changes places with a group that is none. -/
def swapCategory (schema : Schema S) (s : Semantics) : Semantics :=
  match schema.xAxis (schema.knownItems s "ColName"),
      schema.xAxis (schema.knownItems s "group_col") with
  | some plotted, some grouped =>
    if schema.isCategoryLike plotted && !schema.isCategoryLike grouped then
      swapMember (swapMember s "ColName" plotted grouped) "group_col" grouped plotted
    else s
  | _, _ => s

/-- Without an aggregate function groups are averaged, unless what is plotted are categories. -/
def defaultOperation (schema : Schema S) (kind : PlotKind) (s : Semantics) : Semantics :=
  if s.contains "group_op" || decide (kind = .histogram) then s
  else
    match schema.yAxis (schema.knownItems s "ColName") with
    | some column => if schema.isCategoryLike column then s else s.insert "group_op" "mean"
    | none => s.insert "group_op" "mean"

/-- Complete the grouping of a map and put it in order. -/
def resolveGrouping (schema : Schema S) (kind : PlotKind) (s : Semantics) : Semantics :=
  let s := schema.inferGroup kind s
  if s.contains "group_col" && s.contains "ColName" then
    schema.defaultOperation kind (schema.swapCategory s)
  else s

/-- Whether the groups already stand on the horizontal axis. -/
def isGroupOnAxis (schema : Schema S) (columns : List String) (group : String) : Bool :=
  1 < columns.length && columns.any schema.isCategoryLike
    && decide (schema.xAxis columns = some group)

/-- Whether each group is a series of its own, and the map with the groups in their place. A single
group with a single column, or one on the horizontal axis, is aggregated instead. Outside of
histograms a column on its own gets the first group in front, as its horizontal axis. -/
def layoutGroups (schema : Schema S) (kind : PlotKind) (s : Semantics) : Bool × Semantics :=
  let groups := schema.knownItems s "group_col"
  let columns := schema.knownItems s "ColName"
  match groups with
  | [] => (false, s)
  | first :: _ =>
    match columns with
    | [] => (true, s)
    | column :: more =>
      if kind = .histogram then (true, s)
      else
        let series :=
          !(groups.length == 1 && (columns.length == 1 || schema.isGroupOnAxis columns first))
        if more.isEmpty && !columns.contains first then
          (series, s.insert "ColName" (Semantics.concatValue first column))
        else (series, s)

end PlotQuery.Schema
