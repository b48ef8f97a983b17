import PlotQuery.Annotator
import PlotQuery.NameMatch

/-! Annotators for column names, which need not be spelled exactly. -/
namespace PlotQuery.Annotator

variable {S : Type} [Scalar S]

/-- The similarity from which on a text counts as a column name. -/
def standardThreshold : S :=
  Scalar.hundredths 50

/-- The name of the schema that the words of a span most likely mean. -/
def matchName (threshold : S) (span : Query) (schema : Schema S) : Option (NameMatch S) :=
  NameMatch.best? span.rawText schema.candidateNames threshold

/-- The name of a column to plot. -/
def column (threshold : S) : Annotator S where
  symbol := "$column"
  annotate span schema := (matchName threshold span schema).map fun found =>
    ((Finding.ofValue found.name).put "ColName" found.name).rated found.similarity

/-- The name of a column that serves another purpose, such as grouping, filtering or colouring. -/
def auxiliaryColumn (threshold : S) : Annotator S where
  symbol := "$auxcolumn"
  annotate span schema := (matchName threshold span schema).map fun found =>
    (Finding.ofValue found.name).rated found.similarity

end PlotQuery.Annotator
