import PlotQuery.Proofs.Derives

/-! A cell of a chart depends on the tokens of its span and on nothing else: not on the tokens
around it, not on the size of the query, and not on what is filled in later. -/
namespace PlotQuery.Grammar

variable {S : Type} [Scalar S] (grammar : Grammar S) (schema : Schema S) {query : Query}
  {start stop : Nat}

/-- Spans with the same tokens have the same cell in their charts, in the same order. -/
theorem cell_chart_congr {other : Query} {start' stop' : Nat} (hSpan : start < stop)
    (hStop : stop ≤ query.size) (hStop' : stop' ≤ other.size)
    (hTokens : other.slice start' stop' = query.slice start stop) :
    (grammar.chart schema other).cell start' stop' =
      (grammar.chart schema query).cell start stop := by
  have hSize : stop' - start' = stop - start := by
    rw [← other.size_slice hStop', hTokens, query.size_slice hStop]
  obtain ⟨size, rfl⟩ := Nat.exists_eq_add_of_le (Nat.le_of_lt hSpan)
  obtain rfl : stop' = start' + size := by omega
  rw [cell_chart _ _ _ (by omega) hStop', cell_chart _ _ _ (by omega) hStop]
  exact grammar.spanCell_congr schema hTokens

/-- A cell is settled as soon as its span has been visited. What is visited later is larger or
stands elsewhere. -/
theorem cell_foldl_fillCell {done rest : List (Nat × Nat)} (h : spans query.size = done ++ rest)
    (hDone : (start, stop) ∈ done) :
    (done.foldl (grammar.fillCell schema query) (Chart.empty query.size)).cell start stop =
      (grammar.chart schema query).cell start stop := by
  obtain ⟨hSpan, hStop⟩ : start < stop ∧ stop ≤ query.size :=
    mem_spans.1 (h ▸ List.mem_append_left rest hDone)
  have hStage := grammar.shows_foldl_fillCell schema query h
  rw [hStage.cell_eq start stop (by omega) hStop, cell_chart _ _ _ (by omega) hStop,
    visitedCell, if_pos hDone]

/-- The cell of a span is the one that the chart of its tokens alone has for all of them. Any query
with these tokens has it at their place, and so has every stage of the chart after the span has been
visited. -/
theorem cell_chart_eq_cell_chart_slice (hSpan : start < stop) (hStop : stop ≤ query.size) :
    (grammar.chart schema query).cell start stop =
        (grammar.chart schema (query.slice start stop)).cell 0 (stop - start) ∧
      (∀ (other : Query) (start' stop' : Nat), stop' ≤ other.size →
        other.slice start' stop' = query.slice start stop →
        (grammar.chart schema other).cell start' stop' =
          (grammar.chart schema query).cell start stop) ∧
      ∀ done rest, spans query.size = done ++ rest → (start, stop) ∈ done →
        (done.foldl (grammar.fillCell schema query) (Chart.empty query.size)).cell start stop =
          (grammar.chart schema query).cell start stop := by
  refine ⟨?_, ?_, ?_⟩
  · have hAll : (query.slice start stop).slice 0 (stop - start) = query.slice start stop := by
      rw [query.slice_slice (by omega)]
      congr 1
      omega
    exact (grammar.cell_chart_congr schema hSpan hStop (query.size_slice hStop).ge hAll).symm
  · intro other start' stop' hStop' hTokens
    exact grammar.cell_chart_congr schema hSpan hStop hStop' hTokens
  · intro done rest h hDone
    exact grammar.cell_foldl_fillCell schema h hDone

/-- The last two tokens of a query, by themselves, in front of another token, and at a stage of
the chart before it is finished. -/
theorem cell_chart_eq_cell_chart_slice_barQuery :
    1 < 3 ∧ 3 ≤ barQuery.size ∧
      ((barGrammar.chart barSchema barQuery).cell 1 3).map Derivation.lhs = [3, 0] ∧
      (barGrammar.chart barSchema barQuery).cell 1 3 =
        (barGrammar.chart barSchema (barQuery.slice 1 3)).cell 0 2 ∧
      (barGrammar.chart barSchema ⟨[⟨"Bar", "bar"⟩, ⟨"age", "age"⟩, ⟨"bar", "bar"⟩]⟩).cell 0 2 =
        (barGrammar.chart barSchema barQuery).cell 1 3 ∧
      (((spans 3).take 5).foldl (barGrammar.fillCell barSchema barQuery) (Chart.empty 3)).cell 1 3 =
        (barGrammar.chart barSchema barQuery).cell 1 3 := by
  have hLocal := barGrammar.cell_chart_eq_cell_chart_slice barSchema (by decide : 1 < 3)
    (by decide : 3 ≤ barQuery.size)
  refine ⟨by decide, by decide, ?_, hLocal.1, ?_, ?_⟩
  · rw [cell_chart_eq_cellBy _ _ _ (by decide) (by decide)]
    decide +kernel
  · exact hLocal.2.1 _ 0 2 (by decide) rfl
  · exact hLocal.2.2 _ ((spans 3).drop 5) rfl (by decide)

end PlotQuery.Grammar
