import PlotQuery.Annotator.Column
import PlotQuery.Annotator.Number
import PlotQuery.Annotator.Operator
import PlotQuery.Annotator.Vocabulary

/-! The annotators of the grammar for plots. -/
namespace PlotQuery.Annotator

/-- All annotators, with the standard threshold for column names. -/
def standard (S : Type) [Scalar S] [ScalarText S] : List (Annotator S) :=
  [number, numberList, column standardThreshold, auxiliaryColumn standardThreshold, color,
   lineStyle, marker, quotedText, operator, aggregate]

end PlotQuery.Annotator
