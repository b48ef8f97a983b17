import Mathlib.Algebra.BigOperators.Fin
import Mathlib.Algebra.BigOperators.Intervals
import PlotQuery.Proofs.CellTable
import PlotQuery.Proofs.Derives
import PlotQuery.Proofs.DoubleOrder

/-! What holds of a chart once it is filled. Each span has been pruned after its last change, so its
candidates are few, differ from each other and stand in the order of their scores. The best one of a
symbol is then the first one. -/
namespace PlotQuery

namespace Chart

open Finset

variable {S : Type}

/-- The cells of one start stand after those of the starts before it. By induction on the
starts. -/
theorem sum_cells_range_mul (chart : Chart S) (starts : Nat) :
    ∑ place ∈ range (starts * (chart.size + 1)), ((chart.cells[place]?).getD []).length =
      ∑ start ∈ range starts, ∑ stop ∈ range (chart.size + 1),
        (chart.cell start stop).length := by
  induction starts with
  | zero => rw [Nat.zero_mul, range_zero, sum_empty, sum_empty]
  | succ start ih =>
      rw [Nat.add_mul, Nat.one_mul, sum_range_add, ih, sum_range_succ _ start]
      rfl

/-- The derivations of a chart are those of all its cells. Each pair of positions has one cell,
also pairs that are no span. -/
theorem total_eq_sum_cells (chart : Chart S) :
    chart.total = ∑ start ∈ range (chart.size + 1), ∑ stop ∈ range (chart.size + 1),
      (chart.cell start stop).length := by
  rw [total, ← List.sum_eq_foldl, ← Fin.sum_univ_fun_getElem, ← sum_cells_range_mul,
    ← chart.size_cells, Finset.sum_range]
  exact sum_congr rfl fun place _ => by simp

def spanSet (size : Nat) : Finset (Nat × Nat) :=
  {span ∈ range (size + 1) ×ˢ range (size + 1) | span.1 < span.2}

/-- There are as many spans as pairs of positions with the first before the second. -/
theorem card_spanSet (size : Nat) : (spanSet size).card = size * (size + 1) / 2 := by
  have hBefore (stop : Nat) (hStop : stop ∈ range (size + 1)) :
      (∑ start ∈ range (size + 1), if start < stop then 1 else 0) = stop := by
    have hStarts : (range (size + 1)).filter (· < stop) = range stop := by
      ext start
      simp only [mem_filter, mem_range] at hStop ⊢
      omega
    rw [← card_filter, hStarts, card_range]
  rw [spanSet, card_filter, sum_product_right, sum_congr rfl hBefore, sum_range_id,
    Nat.add_sub_cancel, Nat.mul_comm]

/-- Where cells without a span are empty, the derivations of a chart are those of its spans. The
chart of a query is of this kind, as no rule is ever applied elsewhere. -/
theorem total_eq_sum_spanSet {chart : Chart S}
    (hEmpty : ∀ start stop, stop ≤ start → chart.cell start stop = []) :
    chart.total = ∑ span ∈ spanSet chart.size, (chart.cell span.1 span.2).length := by
  rw [total_eq_sum_cells, spanSet, ← sum_product', sum_filter]
  refine sum_congr rfl fun span _ => ?_
  split
  · rfl
  · next hNot => rw [hEmpty _ _ (Nat.le_of_not_lt hNot), List.length_nil]

/-- A cell that starts behind the end of the query is empty, since its place is outside the
array. -/
theorem cell_eq_nil_of_size_lt (chart : Chart S) {start : Nat} (stop : Nat)
    (h : chart.size < start) : chart.cell start stop = [] := by
  have hBeyond : chart.cells.size ≤ chart.offset start stop := by
    rw [chart.size_cells, offset]
    exact (Nat.mul_le_mul_right _ h).trans (Nat.le_add_right _ _)
  rw [cell, Array.getElem?_eq_none hBeyond, Option.getD_none]

end Chart

namespace Grammar

variable {S : Type} [Scalar S] {grammar : Grammar S} {schema : Schema S} {query : Query}
  {start stop : Nat} {d : Derivation S}

/-- A tree has the symbol of an annotator or of a rule. There are no other trees. -/
theorem Derives.lhs_mem (h : grammar.Derives schema query start stop d) :
    d.lhs ∈ grammar.annotators.map Prod.fst ++ grammar.rules.map Rule.lhs := by
  rw [List.mem_append]
  cases h with
  | finding _ _ registered _ => exact .inl (List.mem_map_of_mem registered)
  | words _ _ listed => exact .inr (List.mem_map_of_mem listed)
  | unary _ _ _ _ listed => exact .inr (List.mem_map_of_mem listed)
  | binary _ _ _ _ _ _ listed => exact .inr (List.mem_map_of_mem listed)

theorem cell_chart_eq_nil (grammar : Grammar S) (schema : Schema S) (query : Query)
    (h : stop ≤ start) : (grammar.chart schema query).cell start stop = [] := by
  by_cases hStart : start ≤ query.size
  · rw [cell_chart _ _ _ hStart (h.trans hStart), spanCell_of_not_lt _ _ _ (Nat.not_lt.2 h)]
  · refine Chart.cell_eq_nil_of_size_lt _ _ ?_
    rw [size_chart]
    omega

variable [OrderedScalar S]

/-- A cell of the chart is left by pruning, so it is within the limit, without repetition and in
order. -/
theorem isPruned_cell_chart (grammar : Grammar S) (schema : Schema S) (query : Query)
    (hSpan : start < stop) (hStop : stop ≤ query.size) :
    Candidates.IsPruned grammar.settings.cellLimit
      ((grammar.chart schema query).cell start stop) := by
  rw [cell_chart _ _ _ (hSpan.le.trans hStop) hStop, spanCell_eq_prune_gather _ _ _ hSpan]
  exact Candidates.isPruned_prune _ _

/-- A filled chart has derivations for spans only. Those of a span are within the limit, differ in
what they say, stand in the order of their scores, and each has the symbol of an annotator or of a
rule. If all scores of a symbol for the whole query are numbers, its best derivation is the first
one. -/
theorem chart_is_pruned (grammar : Grammar S) (schema : Schema S) (query : Query) :
    (∀ start stop, stop ≤ start → (grammar.chart schema query).cell start stop = []) ∧
    (∀ start stop, start < stop → stop ≤ query.size →
      Candidates.IsPruned grammar.settings.cellLimit
          ((grammar.chart schema query).cell start stop) ∧
        ∀ d ∈ (grammar.chart schema query).cell start stop,
          d.lhs ∈ grammar.annotators.map Prod.fst ++ grammar.rules.map Rule.lhs) ∧
    (Chart.spanSet query.size).card = query.size * (query.size + 1) / 2 ∧
    (grammar.chart schema query).total = ∑ span ∈ Chart.spanSet query.size,
      ((grammar.chart schema query).cell span.1 span.2).length ∧
    ∀ symbol, (∀ d ∈ (grammar.chart schema query).cell 0 query.size,
        d.lhs = symbol → Scalar.IsNumber d.score) →
      (grammar.chart schema query).best? symbol =
        ((grammar.chart schema query).cell 0 query.size).find? (·.lhs == symbol) := by
  have hEmpty (start stop : Nat) (h : stop ≤ start) :=
    grammar.cell_chart_eq_nil schema query h
  refine ⟨hEmpty, ?_, Chart.card_spanSet _, ?_, ?_⟩
  · intro start stop hSpan hStop
    refine ⟨grammar.isPruned_cell_chart schema query hSpan hStop, fun d hd => ?_⟩
    rw [cell_chart _ _ _ (hSpan.le.trans hStop) hStop] at hd
    exact (derives_of_mem_spanCell hStop hd).lhs_mem
  · have hTotal := Chart.total_eq_sum_spanSet hEmpty
    rwa [size_chart] at hTotal
  · intro symbol hNumbers
    rw [Chart.best?, size_chart]
    refine Candidates.best?_eq_find? ?_ hNumbers
    by_cases hQuery : 0 < query.size
    · exact (grammar.isPruned_cell_chart schema query hQuery le_rfl).sorted
    · rw [hEmpty 0 query.size (Nat.le_of_not_lt hQuery)]
      exact List.Pairwise.nil

def doubleBarGrammar : Grammar Float where
  symbols := barGrammar.symbols
  rules := barGrammar.rules
  annotators := [(1, Annotator.column Annotator.standardThreshold)]
  root := barGrammar.root
  settings := Settings.standard

def doubleBarSchema : Schema Float :=
  Schema.ofColumns "df" ["Age", "Income"]

/-- A query with two columns. A plot of one of them passes over the other. -/
def twoColumnQuery : Query :=
  ⟨[⟨"Bar", "bar"⟩, ⟨"age", "age"⟩, ⟨"income", "incom"⟩]⟩

/-- The query names two columns, so there are two readings of the root. The parse is the first of
them. -/
theorem chart_is_pruned_twoColumnQuery :
    ((doubleBarGrammar.chart doubleBarSchema twoColumnQuery).cell 0 3).map Derivation.lhs =
        [3, 3, 0, 0] ∧
      Candidates.IsPruned 20 ((doubleBarGrammar.chart doubleBarSchema twoColumnQuery).cell 0 3) ∧
      (doubleBarGrammar.chart doubleBarSchema twoColumnQuery).total = 13 ∧
      (∀ d ∈ (doubleBarGrammar.chart doubleBarSchema twoColumnQuery).cell 0 3,
        d.lhs = 3 → Scalar.IsNumber d.score) ∧
      (doubleBarGrammar.chart doubleBarSchema twoColumnQuery).best? 3 =
        ((doubleBarGrammar.chart doubleBarSchema twoColumnQuery).cell 0 3).find? (·.lhs == 3) ∧
      ((doubleBarGrammar.chart doubleBarSchema twoColumnQuery).best? 3).bind
        (·.semantics.get? "ColName") = some "Income" := by
  obtain ⟨-, hCells, -, hTotal, hBest⟩ :=
    chart_is_pruned doubleBarGrammar doubleBarSchema twoColumnQuery
  have hCell {start stop : Nat} (hStart : start ≤ 3) (hStop : stop ≤ 3) :=
    doubleBarGrammar.cell_chart_eq_listedCell doubleBarSchema twoColumnQuery hStart hStop
  have hLengths : ∀ span ∈ Chart.spanSet 3,
      ((doubleBarGrammar.chart doubleBarSchema twoColumnQuery).cell span.1 span.2).length =
        (listedCell (doubleBarGrammar.cellList doubleBarSchema twoColumnQuery)
          span.1 span.2).length := by
    intro span hSpan
    simp only [Chart.spanSet, Finset.mem_filter, Finset.mem_product, Finset.mem_range] at hSpan
    rw [hCell (by omega) (by omega)]
  have hNumbers : ∀ d ∈ (doubleBarGrammar.chart doubleBarSchema twoColumnQuery).cell 0 3,
      d.lhs = 3 → Scalar.IsNumber d.score := by
    rw [hCell (by decide) (by decide)]
    decide +kernel
  have hFirst := hBest 3 hNumbers
  refine ⟨?_, (hCells 0 3 (by decide) (by decide)).1, ?_, hNumbers, hFirst, ?_⟩
  · rw [hCell (by decide) (by decide)]
    decide +kernel
  · rw [hTotal]
    exact (Finset.sum_congr rfl hLengths).trans (by decide +kernel)
  · rw [hFirst, hCell (by decide) (by decide)]
    decide +kernel

end Grammar

end PlotQuery
