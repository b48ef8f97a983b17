import PlotQuery.Semantics.Merge

/-! The settings of a parser: what it looks for and how much of a query it may pass over. -/
namespace PlotQuery

structure Settings (S : Type) where
  /-- The symbol that a whole query has to be. -/
  root : String
  /-- How many derivations are kept for a span. -/
  cellLimit : Nat
  /-- How many tokens one application of a rule may pass over. -/
  maxNoise : Nat
  /-- How many of them a unary rule may pass over in front of its child. -/
  maxLeadingNoise : Nat
  /-- The factor of the score for each token and each character passed over. -/
  noisePenalty : S
  /-- How the semantics of two children are merged. -/
  merge : MergePolicy S

/-- The settings for queries about plots. -/
def Settings.standard {S : Type} [Scalar S] : Settings S where
  root := "Root"
  cellLimit := 20
  maxNoise := 3
  maxLeadingNoise := 2
  noisePenalty := Scalar.hundredths 95
  merge := MergePolicy.standard

end PlotQuery
