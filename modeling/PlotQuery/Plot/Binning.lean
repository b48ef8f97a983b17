import PlotQuery.Decimal.Reading
import PlotQuery.Plot.Axes
import PlotQuery.Plot.Request

/-! The bins of a histogram, from what the query says about them: the ends of a range, the width of a
bin, their number, or their edges. -/
namespace PlotQuery.Binning

variable {S : Type} [Scalar S] [ScalarText S]

def number? (s : Semantics) (key : String) : Option S :=
  (s.get? key).bind fun value =>
    (ScalarText.read? (Text.trimmed value)).filter Scalar.isFinite

/-- The width of a bin: the magnitude of a number, unless it is zero. -/
def width? (n : Option S) : Option S :=
  (n.map Scalar.abs).filter fun width => Scalar.lt Scalar.zero width

/-- A range with its ends in order. -/
def between (first second : S) (step : Option S) : Binning S :=
  if Scalar.lt second first then .range second first step else .range first second step

/-- Numbers of bins are below this bound. -/
def countBound : Nat :=
  Nat.pow 2 32

/-- The number of bins, or their edges if the value is a list. -/
def ofSingle? (value : String) : Option (Binning S) :=
  if value.toList.contains ',' then
    ((Text.split ',' value).mapM fun edge => ScalarText.read? (Text.trimmed edge)).map .edges
  else
    ((Decimal.readNat? (Text.trim value.toList)).filter fun n => decide (n < countBound)).map .count

/-- Bins of a given width over the range of a column. -/
def overColumn? (schema : Schema S) (columns : List String) (step : Option S) :
    Option (Binning S) := do
  let step ← step
  let column ← columns.head?
  let start ← schema.least? column
  let stop ← schema.greatest? column
  return .range start stop (some step)

/-- The bins that a map asks for. The two ends of a range come first, then a single value, then a width
over the range of the first column. -/
def ofSemantics? (schema : Schema S) (columns : List String) (s : Semantics) :
    Option (Binning S) :=
  if s.contains "histobins" then
    match number? s "bin_pair_first", number? s "bin_pair_second" with
    | some first, some second =>
      some (between first second
        (width? ((number? s "bin_pair_step").or (number? s "bin_single"))))
    | _, _ =>
      match s.get? "bin_single" with
      | some value => ofSingle? value
      | none => overColumn? schema columns (width? (number? s "bin_pair_step"))
  else none

end PlotQuery.Binning
