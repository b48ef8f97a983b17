import PlotQuery.Proofs.SpanCell

/-! The cells of a chart as a list that can be evaluated by definition. Each cell is computed once,
from the list of the cells before it. -/
namespace PlotQuery.Grammar

variable {S : Type} [Scalar S] (grammar : Grammar S) (schema : Schema S) (query : Query)

/-- The cell that a list has for a span, and no derivations where it has none. -/
def listedCell (cells : List ((Nat × Nat) × List (Derivation S))) (start stop : Nat) :
    List (Derivation S) :=
  (cells.lookup (start, stop)).getD []

/-- Put the cell of a span in front of the cells that have been computed. -/
def listCell (cells : List ((Nat × Nat) × List (Derivation S))) (span : Nat × Nat) :
    List ((Nat × Nat) × List (Derivation S)) :=
  (span, Candidates.pruneByInsertion grammar.settings.cellLimit
    (grammar.gather schema query (listedCell cells) span.1 span.2 grammar.rules)) :: cells

/-- The cells of all spans, those of longer spans first. -/
def cellList : List ((Nat × Nat) × List (Derivation S)) :=
  (spans query.size).foldl (grammar.listCell schema query) []

variable [OrderedScalar S]

/-- After some of the spans have been visited the list answers for each span as the chart does. By
induction on the spans visited. -/
theorem listedCell_foldl {done rest : List (Nat × Nat)} (h : spans query.size = done ++ rest) :
    listedCell (done.foldl (grammar.listCell schema query) []) =
      grammar.visitedCell schema query done := by
  induction done using List.reverseRecOn generalizing rest with
  | nil =>
      funext a b
      rfl
  | append_singleton done span ih =>
      obtain ⟨start, stop⟩ := span
      rw [List.append_assoc, List.singleton_append] at h
      obtain ⟨hSpan, hStop⟩ : start < stop ∧ stop ≤ query.size :=
        mem_spans.1 (h ▸ List.mem_append_right done List.mem_cons_self)
      obtain ⟨-, hVisited⟩ := visited_before h
      have hGather := grammar.gather_eq_of_cells schema query
        (grammar.visitedCell schema query done) (grammar.spanCell schema query) hSpan grammar.rules
        fun a b _ hab hb hSmaller => if_pos (hVisited a b hab (Nat.le_trans hb hStop) hSmaller)
      have hCell := grammar.spanCell_eq_prune_gather schema query hSpan
      rw [← hGather, ← ih h, Candidates.prune_eq_pruneByInsertion] at hCell
      funext a b
      rw [List.foldl_append, List.foldl_cons, List.foldl_nil, listCell, listedCell,
        List.lookup_cons, visitedCell]
      by_cases hHere : (a, b) = (start, stop)
      · obtain ⟨rfl, rfl⟩ := Prod.mk.inj hHere
        simp [hCell]
      · have hb : ((a, b) == (start, stop)) = false := by simpa using hHere
        have hOld := congrFun (congrFun (ih h) a) b
        rw [listedCell, visitedCell] at hOld
        simp only [hb, hOld, List.mem_append, List.mem_singleton, hHere, or_false]

/-- The chart of a query holds the cells of the list. The list is evaluated by structural
recursion, so that the cells of a fixed query can be computed. -/
theorem cell_chart_eq_listedCell {start stop : Nat} (hStart : start ≤ query.size)
    (hStop : stop ≤ query.size) :
    (grammar.chart schema query).cell start stop =
      listedCell (grammar.cellList schema query) start stop := by
  rw [cell_chart _ _ _ hStart hStop, cellList,
    grammar.listedCell_foldl schema query (List.append_nil _).symm, visitedCell]
  split
  · rfl
  · next hMem =>
    have hLess : ¬start < stop := fun hLess => hMem (mem_spans.2 ⟨hLess, hStop⟩)
    exact spanCell_of_not_lt _ _ _ hLess

/-- The parse of a query in terms of the list of its cells. -/
theorem parseQuery_eq_best?_listedCell :
    grammar.parseQuery schema query = Candidates.best? grammar.root
      (listedCell (grammar.cellList schema query) 0 query.size) := by
  rw [parseQuery, Chart.best?, size_chart,
    cell_chart_eq_listedCell _ _ _ (Nat.zero_le _) le_rfl]

/-- The parses of a text in terms of the lists of cells. -/
theorem parse_eq_best?_listedCell (text : String) :
    grammar.parse schema text = (statements text).map fun statement =>
      Candidates.best? grammar.root
        (listedCell (grammar.cellList schema (Query.ofText statement)) 0
          (Query.ofText statement).size) :=
  List.map_congr_left fun statement _ =>
    grammar.parseQuery_eq_best?_listedCell schema (Query.ofText statement)

end PlotQuery.Grammar
