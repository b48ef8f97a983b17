import PlotQuery.Text.Pieces

/-! The grammar of queries about plots. The child of a unary rule stands below the rule, since rules
are applied from the bottom up. Literals are compared in normal form, so the singular stands for the
plural as well. -/
namespace PlotQuery.PlotGrammar

/-- A query asks for an overview of the table or for a plot. A plot is a chart or a column, with
options before and after it. -/
def queryProductions : List String :=
  ["Root := Overview | Plot",
   "Overview := OverviewWord \x7btype : overview\x7d",
   "OverviewWord := \"overview\" | \"profile\" | \"profiling\" | \"summary\" " ++
      "| \"describe\"",
   "Plot := Chart | Column | Plot Option | Option Plot",
   "Chart := HistWord \x7btype : histogram\x7d | ScatterWord \x7btype : scatter\x7d " ++
      "| LineWord \x7btype : lineplot\x7d | RegressionWord \x7bregress : true\x7d",
   "HistWord := \"histogram\" | \"hist\" | \"distribution\" | \"frequency\"",
   "ScatterWord := \"scatter\" | \"scatterplot\" | \"scatter\" \"plot\"",
   "LineWord := \"line\" | \"lineplot\" | \"line\" \"plot\" | \"line\" \"chart\" " ++
      "| \"trend\"",
   "RegressionWord := \"regression\" | \"linear\" \"regression\" | \"lmplot\"",
   "Option := Column | Bins | Density | Log | Stacked | Marker | Color | LineStyle " ++
      "| Group | GroupOp | Filter",
   "Column := $column"]

/-- Options of histograms: how values are divided into bins, and how bars are drawn. -/
def histogramProductions : List String :=
  ["Bins := \"bin\" BinSpec \x7bhistobins : true\x7d " ++
      "| BinSpec \"bin\" \x7bhistobins : true\x7d | \"bin\" \x7bhistobins : true\x7d",
   "BinSpec := BinRange BinStep? | BinStep | BinCount",
   "BinRange := RangeFrom RangeTo?",
   "RangeFrom := \"from\" $number \x7bbin_pair_first : $1.Value\x7d",
   "RangeTo := \"to\" $number \x7bbin_pair_second : $1.Value\x7d",
   "BinStep := \"step\" $number \x7bbin_pair_step : $1.Value\x7d " ++
      "| \"width\" $number \x7bbin_pair_step : $1.Value\x7d",
   "BinCount := $number \x7bbin_single : $0.Value\x7d " ++
      "| $number_list \x7bbin_single : $0.Value\x7d",
   "Density := \"density\" \x7bhistodens : true\x7d " ++
      "| \"normalized\" \x7bhistodens : true\x7d",
   "Log := \"log\" \x7bhistolog : true\x7d | \"logarithmic\" \x7bhistolog : true\x7d",
   "Stacked := \"stacked\" \x7bhistostack : true\x7d"]

/-- Options of scatter and line plots: markers, colours and line styles, fixed or taken from a column. -/
def styleProductions : List String :=
  ["Marker := $markerfmt \x7bscattermarker : true\x7d " ++
      "| $markerfmt \"marker\" \x7bscattermarker : true\x7d | MarkerWord MarkerSize",
   "MarkerWord := \"marker\" | \"size\" | \"marker\" \"size\"",
   "MarkerSize := $number \x7bmarker : $0.Value\x7d " ++
      "| $auxcolumn \x7bmarker_col : $0.Value\x7d",
   "Color := $precolor \x7bscattercolor : true\x7d " ++
      "| $precolor \"color\" \x7bscattercolor : true\x7d " ++
      "| ColorWord $auxcolumn \x7bcolor_col : $1.Value\x7d",
   "ColorWord := \"color\" | \"colour\" | \"color\" \"by\" | \"colour\" \"by\"",
   "LineStyle := $linefmt | $linefmt \"line\""]

/-- Options that choose rows: grouping, aggregate functions and conditions. -/
def rowProductions : List String :=
  ["Group := GroupWord $auxcolumn \x7bgroup_col : $1.Value\x7d",
   "GroupWord := \"by\" | \"group\" \"by\" | \"per\" | \"each\" | \"for\" \"each\"",
   "GroupOp := $aggreop \x7bgroup_op : $0.Value\x7d",
   "Filter := FilterWord Condition | Condition",
   "FilterWord := \"where\" | \"when\" | \"if\" | \"for\"",
   "Condition := $auxcolumn Comparison \x7bfilter_col : $0.Value\x7d",
   "Comparison := $operator FilterValue \x7bfilter_op : $0.Value\x7d",
   "FilterValue := $number \x7bfilter_v : $0.Value\x7d " ++
      "| $quotedstring \x7bfilter_v : $0.Value\x7d"]

def text : String :=
  Text.join " ;\n"
    (queryProductions ++ histogramProductions ++ styleProductions ++ rowProductions)

end PlotQuery.PlotGrammar
