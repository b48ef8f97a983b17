import PlotQuery.Proofs.CheckedAnnotators
import PlotQuery.Proofs.CheckedRules
import PlotQuery.Proofs.FinishedChart

/-! A chart that is filled with every position checked. When a rule is applied to a span, the cells of
all smaller spans have been pruned, so nothing goes wrong anywhere, and the chart is the one that is
filled without the checks. -/
namespace PlotQuery

theorem Chart.size_foldl_extend {S : Type} (chart : Chart S) (start stop : Nat) (rules : List Rule)
    (found : Chart S → Rule → List (Derivation S)) :
    (rules.foldl (fun chart rule => chart.extend start stop (found chart rule)) chart).size =
      chart.size := by
  induction rules generalizing chart with
  | nil => rfl
  | cons rule rules ih =>
      rw [List.foldl_cons, ih]
      rfl

namespace Grammar

/-- The spans of at most the given size, in the order in which they are visited. -/
def spansUpTo (total size : Nat) : List (Nat × Nat) :=
  (List.range size).flatMap fun less =>
    (List.range (total - less)).map fun start => (start, start + less + 1)

def spansFrom (size count : Nat) : List (Nat × Nat) :=
  (List.range count).map fun start => (start, start + size)

/-- All spans that are no larger than a given size are among those visited so far. -/
theorem mem_spansUpTo {total size start stop : Nat} (hSpan : start < stop) (hStop : stop ≤ total)
    (hSize : stop - start ≤ size) : (start, stop) ∈ spansUpTo total size := by
  simp only [spansUpTo, List.mem_flatMap, List.mem_range, List.mem_map, Prod.mk.injEq]
  exact ⟨stop - start - 1, by omega, start, by omega, rfl, by omega⟩

/-- The spans of one more size come behind all smaller ones. -/
theorem spansUpTo_succ (total size : Nat) :
    spansUpTo total (size + 1) =
      spansUpTo total size ++ spansFrom (size + 1) (total - size) := by
  rw [spansUpTo, List.range_succ, List.flatMap_append, List.flatMap_singleton]
  rfl

theorem spansFrom_succ (size count : Nat) :
    spansFrom size (count + 1) = spansFrom size count ++ [(count, count + size)] := by
  rw [spansFrom, List.range_succ, List.map_append]
  rfl

section Rules

variable {S : Type} [Scalar S]

def checkedRule (grammar : Grammar S) (query : Query) (start stop : Nat) (filling : Filling S)
    (rule : Rule) : Except Fault (Filling S) := do
  let found ← rule.checkedDerive grammar.settings filling query start stop
  filling.extend start stop found

/-- The chart after the given spans have been visited. -/
def visited (grammar : Grammar S) (schema : Schema S) (query : Query) (done : List (Nat × Nat)) :
    Filling S :=
  ⟨done.foldl (grammar.fillCell schema query) (Chart.empty query.size), done⟩

theorem size_foldl_fillCell (grammar : Grammar S) (schema : Schema S) (query : Query)
    (done : List (Nat × Nat)) (chart : Chart S) :
    (done.foldl (grammar.fillCell schema query) chart).size = chart.size := by
  induction done generalizing chart with
  | nil => rfl
  | cons span done ih =>
      rw [List.foldl_cons, ih]
      exact Chart.size_foldl_extend _ span.1 span.2 grammar.rules _

/-- Each of the rules, one after the other, finds the chart ready. What a rule adds to the span
changes no finished cell, so the chart stays ready for the next rule. -/
theorem foldlM_checkedRule_eq_ok {grammar : Grammar S} {query : Query} {start stop : Nat}
    {filling : Filling S} (hWord : query.size + grammar.settings.maxNoise < UInt64.size)
    (h : filling.Ready query start stop) (rules : List Rule) :
    rules.foldlM (grammar.checkedRule query start stop) filling =
      .ok ⟨rules.foldl (fun chart rule => chart.extend start stop
        (rule.derive grammar.settings chart.cell query start stop)) filling.chart,
        filling.pruned⟩ := by
  induction rules generalizing filling with
  | nil => rfl
  | cons rule rules ih =>
      have hNext := h.withChart (filling.chart.extend start stop
        (rule.derive grammar.settings filling.chart.cell query start stop)) rfl
      rw [List.foldlM_cons, checkedRule, Rule.checkedDerive_eq_ok h hWord, Checked.ok_bind,
        Filling.extend, h.locate_eq_ok, Checked.ok_bind, Checked.pure_eq_ok, Checked.ok_bind,
        ih hNext, List.foldl_cons]

end Rules

variable {S : Type} [Scalar S] [ScalarText S] (grammar : Grammar S)
  (kinds : List (SymbolId × Annotator.Kind S)) (schema : Schema S) (query : Query)

def checkedAnnotate (span : Query) : Except Fault (List (Derivation S)) :=
  Checked.each kinds fun entry => do
    let finding? ← entry.2.checked span schema
    return (finding?.map (Derivation.ofFinding entry.1)).toList

def checkedFillCell (filling : Filling S) (start stop : Nat) : Except Fault (Filling S) := do
  let span ← Checked.slice query start stop
  let annotated ← filling.extend start stop (← checkedAnnotate kinds schema span)
  let derived ← grammar.rules.foldlM (grammar.checkedRule query start stop) annotated
  derived.prune start stop grammar.settings.cellLimit

/-- Fill the cells of all spans of the given size, from left to right. -/
def checkedFillSize (filling : Filling S) (size : Nat) : Except Fault (Filling S) := do
  let last ← Checked.sub query.size size
  (List.range (last + 1)).foldlM (fun filling start => do
    let stop ← Checked.add start size
    grammar.checkedFillCell kinds schema query filling start stop) filling

/-- The chart of a query, with the spans in the order in which they have been pruned. -/
def checkedChart : Except Fault (Filling S) :=
  (List.range' 1 query.size).foldlM (grammar.checkedFillSize kinds schema query)
    ⟨Chart.empty query.size, []⟩

variable {grammar kinds schema query}
  (hKinds : grammar.annotators = kinds.map fun entry => (entry.1, entry.2.annotator))
include hKinds

/-- The annotators of a grammar find in a span what they find without the checks, if they are
those of the given kinds. -/
theorem checkedAnnotate_eq_ok (span : Query) :
    checkedAnnotate kinds schema span = .ok (grammar.annotate schema span) := by
  rw [annotate, hKinds, List.filterMap_map, List.filterMap_eq_flatMap_toList]
  apply Checked.each_eq_ok
  intro entry _
  rw [entry.2.checked_eq_ok, Checked.ok_bind, Checked.pure_eq_ok]
  rfl

variable (hWord : query.size + grammar.settings.maxNoise < UInt64.size)
include hWord

/-- Nothing goes wrong in a cell when all smaller spans inside have been pruned. -/
theorem checkedFillCell_eq_ok {filling : Filling S} {start stop : Nat}
    (h : filling.Ready query start stop) :
    grammar.checkedFillCell kinds schema query filling start stop =
      .ok ⟨grammar.fillCell schema query filling.chart (start, stop),
        filling.pruned ++ [(start, stop)]⟩ := by
  have hAnnotated := h.withChart (filling.chart.extend start stop
    (grammar.annotate schema (query.slice start stop))) rfl
  have hDerived := hAnnotated.withChart _ (Chart.size_foldl_extend _ start stop grammar.rules
    fun chart rule => rule.derive grammar.settings chart.cell query start stop)
  rw [checkedFillCell, Checked.slice_eq_ok h.nonempty.le h.stop_le, Checked.ok_bind,
    checkedAnnotate_eq_ok hKinds, Checked.ok_bind, Filling.extend, h.locate_eq_ok, Checked.ok_bind,
    Checked.pure_eq_ok, Checked.ok_bind, foldlM_checkedRule_eq_ok hWord hAnnotated grammar.rules,
    Checked.ok_bind, Filling.prune, hDerived.locate_eq_ok, Checked.ok_bind, Checked.pure_eq_ok]
  rfl

/-- A span of `size + 1` tokens is visited after all spans of at most `size` tokens. All the cells
that the rules will read have been pruned by then. -/
theorem checkedFillCell_visited {done : List (Nat × Nat)} {start size : Nat}
    (hDone : ∀ span ∈ spansUpTo query.size size, span ∈ done)
    (hStop : start + (size + 1) ≤ query.size) :
    grammar.checkedFillCell kinds schema query (grammar.visited schema query done) start
        (start + (size + 1)) =
      .ok (grammar.visited schema query (done ++ [(start, start + (size + 1))])) := by
  have hReady : (grammar.visited schema query done).Ready query start (start + (size + 1)) := by
    refine ⟨size_foldl_fillCell grammar schema query done _, by omega, hStop, ?_⟩
    intro a b ha hab hb hOther
    rw [Ne, Prod.mk.injEq] at hOther
    exact hDone (a, b) (mem_spansUpTo hab (by omega) (by omega))
  rw [checkedFillCell_eq_ok hKinds hWord hReady]
  simp only [visited, List.foldl_append, List.foldl_cons, List.foldl_nil]

/-- One step of the outer loop visits the spans of one size, which may rest on all smaller ones.
-/
theorem checkedFillSize_visited {size : Nat} (hSize : size < query.size) :
    grammar.checkedFillSize kinds schema query
        (grammar.visited schema query (spansUpTo query.size size)) (1 + size) =
      .ok (grammar.visited schema query (spansUpTo query.size (size + 1))) := by
  have hCount : query.size - (size + 1) + 1 = query.size - size := by omega
  have hNone : grammar.visited schema query (spansUpTo query.size size) =
      grammar.visited schema query (spansUpTo query.size size ++ spansFrom (size + 1) 0) :=
    congrArg _ (List.append_nil _).symm
  rw [checkedFillSize, Nat.add_comm 1 size, Checked.sub_eq_ok hSize, Checked.ok_bind, hCount,
    List.range_eq_range', spansUpTo_succ, hNone]
  apply Checked.foldlM_range'_eq_ok fun count => grammar.visited schema query
    (spansUpTo query.size size ++ spansFrom (size + 1) count)
  intro start hStart
  rw [Nat.zero_add, Checked.add_eq_ok (by omega), Checked.ok_bind,
    checkedFillCell_visited hKinds hWord (fun span hSpan => List.mem_append_left _ hSpan)
      (by omega), List.append_assoc, ← spansFrom_succ]

/-- Filling a chart never goes wrong. No subtraction is negative, no token or character is read that
is not there, and no cell is touched that is not the one of a span. A rule reads only the cell of its
own span and cells that have been pruned, of spans inside its own. What comes out is the chart of the
query, with each span pruned once. -/
theorem checkedChart_eq_chart :
    grammar.checkedChart kinds schema query =
      .ok ⟨grammar.chart schema query, spans query.size⟩ :=
  Checked.foldlM_range'_eq_ok
    (fun size => grammar.visited schema query (spansUpTo query.size size)) 1 query.size
    fun _ hSize => checkedFillSize_visited hKinds hWord hSize

omit hKinds hWord

/-- The limit on noise is as large as the query. Rules cannot be applied to a span before the spans
inside are finished. -/
theorem checkedChart_eq_chart_twoColumnQuery :
    let kinds : List (SymbolId × Annotator.Kind Float) := [(1, .column Annotator.standardThreshold)]
    doubleBarGrammar.annotators = kinds.map (fun entry => (entry.1, entry.2.annotator)) ∧
    twoColumnQuery.size + doubleBarGrammar.settings.maxNoise < UInt64.size ∧
    doubleBarGrammar.checkedChart kinds doubleBarSchema twoColumnQuery =
      .ok ⟨doubleBarGrammar.chart doubleBarSchema twoColumnQuery,
        [(0, 1), (1, 2), (2, 3), (0, 2), (1, 3), (0, 3)]⟩ ∧
    doubleBarGrammar.checkedRule twoColumnQuery 0 2 ⟨Chart.empty 3, [(1, 2)]⟩ ⟨0, .unary 1, none⟩ =
      .error (.unfinished 0 1) := by
  intro kinds
  have hKinds : doubleBarGrammar.annotators =
      kinds.map fun entry => (entry.1, entry.2.annotator) := rfl
  have hWord : twoColumnQuery.size + doubleBarGrammar.settings.maxNoise < UInt64.size := by decide
  exact ⟨hKinds, hWord, checkedChart_eq_chart hKinds hWord, by rfl⟩

end Grammar

end PlotQuery
