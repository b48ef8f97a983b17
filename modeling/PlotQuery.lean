import PlotQuery.Main
import PlotQuery.Proofs.SpanLocality
import PlotQuery.Proofs.UnionValue
import PlotQuery.Proofs.MergeLaws
import PlotQuery.Proofs.BestParse
import PlotQuery.Proofs.LeafValues
import PlotQuery.Proofs.ScoreBounds
import PlotQuery.Proofs.SchemaClosure
import PlotQuery.Proofs.PlotTyping
import PlotQuery.Proofs.SymbolTables
import PlotQuery.Proofs.NumberedProductions
import PlotQuery.Proofs.Expansions
import PlotQuery.Proofs.RuleForms
import PlotQuery.Proofs.TreeKeys
import PlotQuery.Proofs.SymbolKinds
import PlotQuery.Proofs.LexemeLayout
import PlotQuery.Proofs.SourceGrammar
import PlotQuery.Proofs.SourceReading
import PlotQuery.Proofs.SourceMeaning
import PlotQuery.Proofs.DoubleOrder
import PlotQuery.Proofs.FinishedChart
import PlotQuery.Proofs.AxisChoice
import PlotQuery.Proofs.MergedConditions
import PlotQuery.Proofs.GroupLayout
import PlotQuery.Proofs.ColumnCounts
import PlotQuery.Proofs.DistinctAxes
import PlotQuery.Proofs.ConservedNames
import PlotQuery.Proofs.NameLists
import PlotQuery.Proofs.InferredKinds
import PlotQuery.Proofs.CrowdedCells
import PlotQuery.Proofs.EditScripts
import PlotQuery.Proofs.NameSearch
import PlotQuery.Proofs.Representatives
import PlotQuery.Proofs.ExactNames
import PlotQuery.Proofs.OptionalSlots
import PlotQuery.Proofs.OnePass
import PlotQuery.Proofs.NoiseCost
import PlotQuery.Proofs.KeywiseMerge
import PlotQuery.Proofs.StopWords
import PlotQuery.Proofs.FiniteNumbers
import PlotQuery.Proofs.HistogramBins
import PlotQuery.Proofs.Statements
import PlotQuery.Proofs.CheckedChart
import PlotQuery.Proofs.RuleChoices
import PlotQuery.Proofs.ChartChanges
import PlotQuery.Proofs.ResolvedGrouping
