import Mathlib.Data.List.Induction
import PlotQuery.Grammar
import PlotQuery.Proofs.Pruning
import PlotQuery.Proofs.RuleApplication

/-! The cells of a chart as a function of the span. The function calls itself for the smaller spans,
where the chart looks them up, and no later stage of the chart changes what it says. -/
namespace PlotQuery

namespace Grammar

variable {S : Type}

/-- Cells of spans, with other derivations at one span. -/
def withCell (cell : Nat → Nat → List (Derivation S)) (start stop : Nat)
    (here : List (Derivation S)) (a b : Nat) : List (Derivation S) :=
  if a = start ∧ b = stop then here else cell a b

theorem withCell_self (cell : Nat → Nat → List (Derivation S)) (start stop : Nat)
    (here : List (Derivation S)) : withCell cell start stop here start stop = here :=
  if_pos ⟨rfl, rfl⟩

theorem withCell_of_ne (cell : Nat → Nat → List (Derivation S)) {start stop a b : Nat}
    (here : List (Derivation S)) (h : ¬(a = start ∧ b = stop)) :
    withCell cell start stop here a b = cell a b :=
  if_neg h

/-- Of two cells put at the same span the later one counts. -/
theorem withCell_withCell (cell : Nat → Nat → List (Derivation S)) (start stop : Nat)
    (here later : List (Derivation S)) :
    withCell (withCell cell start stop here) start stop later = withCell cell start stop later := by
  funext a b
  simp only [withCell]
  split <;> rfl

variable [Scalar S] (grammar : Grammar S) (schema : Schema S) (query : Query)

/-- What a rule adds to the derivations of a span, given the cells of the spans inside. -/
def addRule (cell : Nat → Nat → List (Derivation S)) (start stop : Nat)
    (here : List (Derivation S)) (rule : Rule) : List (Derivation S) :=
  here ++ rule.derive grammar.settings (withCell cell start stop here) query start stop

/-- The derivations of a span after the given rules have had their turn: the findings, and what each
rule derives from the cells inside the span and from the derivations before it. -/
def gather (cell : Nat → Nat → List (Derivation S)) (start stop : Nat) (rules : List Rule) :
    List (Derivation S) :=
  rules.foldl (grammar.addRule query cell start stop)
    (grammar.annotate schema (query.slice start stop))

/-- The derivations of a span when `keep` says which of those that are gathered are kept. -/
def cellBy (keep : List (Derivation S) → List (Derivation S)) (start stop : Nat) :
    List (Derivation S) :=
  if start < stop then
    keep (grammar.gather schema query
      (fun a b => if b - a < stop - start then cellBy keep a b else []) start stop grammar.rules)
  else []
termination_by stop - start

/-- The derivations of a span that are left after pruning. -/
def spanCell : Nat → Nat → List (Derivation S) :=
  grammar.cellBy schema query (Candidates.prune grammar.settings.cellLimit)

variable {query} in
/-- Two spans with the same tokens, and the same cells of the smaller spans inside, gather the
same trees. By induction on the rules that have had their turn. -/
theorem gather_congr {query' : Query} {cell cell' : Nat → Nat → List (Derivation S)}
    {start start' size : Nat} (rules : List Rule)
    (hTokens : query.slice start (start + size) = query'.slice start' (start' + size))
    (hCells : ∀ i j, i < j → j ≤ size → j - i < size →
      cell (start + i) (start + j) = cell' (start' + i) (start' + j)) :
    grammar.gather schema query cell start (start + size) rules =
      grammar.gather schema query' cell' start' (start' + size) rules := by
  have hRule : grammar.addRule query cell start (start + size) =
      grammar.addRule query' cell' start' (start' + size) := by
    funext here rule
    rw [addRule, addRule]
    refine congrArg (here ++ ·) (Rule.derive_congr hTokens fun i j hij hj => ?_)
    by_cases h : i = 0 ∧ j = size
    · obtain ⟨rfl, rfl⟩ := h
      rw [Nat.add_zero, Nat.add_zero, withCell_self, withCell_self]
    · rw [withCell_of_ne _ _ (by omega), withCell_of_ne _ _ (by omega),
        hCells i j hij hj (by omega)]
  rw [gather, gather, hRule, hTokens]

/-- What is gathered for a span depends on the cells of the smaller spans inside it only. So it
can be computed by recursion on the size of spans. -/
theorem gather_eq_of_cells (cell cell' : Nat → Nat → List (Derivation S)) {start stop : Nat}
    (hSpan : start < stop) (rules : List Rule)
    (hCells : ∀ a b, start ≤ a → a < b → b ≤ stop → b - a < stop - start →
      cell a b = cell' a b) :
    grammar.gather schema query cell start stop rules =
      grammar.gather schema query cell' start stop rules := by
  obtain ⟨size, rfl⟩ := Nat.exists_eq_add_of_le (Nat.le_of_lt hSpan)
  exact grammar.gather_congr schema rules rfl fun i j _ _ _ =>
    hCells _ _ (by omega) (by omega) (by omega) (by omega)

/-- What is no span has no trees. -/
theorem spanCell_of_not_lt {start stop : Nat} (h : ¬start < stop) :
    grammar.spanCell schema query start stop = [] := by
  rw [spanCell, cellBy, if_neg h]

/-- The cell of a span comes from the cells of the spans inside it. The annotators come first and
then each rule in turn. -/
theorem spanCell_eq_prune_gather {start stop : Nat} (h : start < stop) :
    grammar.spanCell schema query start stop =
      Candidates.prune grammar.settings.cellLimit
        (grammar.gather schema query (grammar.spanCell schema query) start stop grammar.rules) := by
  rw [spanCell, cellBy, if_pos h]
  exact congrArg _ (grammar.gather_eq_of_cells schema query _ _ h grammar.rules
    fun _ _ _ _ _ hSmaller => if_pos hSmaller)

variable {query} in
/-- Two spans with the same tokens have the same cell, wherever they stand and in whatever query.
By strong induction on the size of the spans. -/
theorem spanCell_congr {query' : Query} {start start' size : Nat}
    (hTokens : query.slice start (start + size) = query'.slice start' (start' + size)) :
    grammar.spanCell schema query start (start + size) =
      grammar.spanCell schema query' start' (start' + size) := by
  induction size using Nat.strongRecOn generalizing start start' with
  | _ size ih =>
      by_cases hSize : 0 < size
      · rw [spanCell_eq_prune_gather _ _ _ (by omega), spanCell_eq_prune_gather _ _ _ (by omega)]
        refine congrArg _ (grammar.gather_congr schema grammar.rules hTokens ?_)
        intro i j hij hj hSmaller
        have hPart := @ih (j - i) hSmaller (start + i) (start' + i)
        rw [Nat.add_assoc, Nat.add_assoc, Nat.add_sub_cancel' (Nat.le_of_lt hij)] at hPart
        exact hPart (Rule.slice_congr hTokens hj)
      · rw [spanCell_of_not_lt _ _ _ (by omega), spanCell_of_not_lt _ _ _ (by omega)]

end Grammar

namespace Chart

variable {S : Type}

/-- A chart for a query of the given size whose cells are those that a function gives. -/
structure Shows (chart : Chart S) (size : Nat) (cell : Nat → Nat → List (Derivation S)) :
    Prop where
  size_eq : chart.size = size
  cell_eq : ∀ a b, a ≤ size → b ≤ size → chart.cell a b = cell a b

theorem shows_empty (size : Nat) : (empty size : Chart S).Shows size fun _ _ => [] :=
  ⟨rfl, fun a b _ _ => cell_empty size a b⟩

/-- Changing a chart at one span changes what it shows at that span. -/
theorem Shows.modify {chart : Chart S} {size : Nat} {cell : Nat → Nat → List (Derivation S)}
    (h : chart.Shows size cell) (start : Nat) {stop : Nat} (hStop : stop ≤ size)
    (f : List (Derivation S) → List (Derivation S)) :
    (chart.modify start stop f).Shows size
      (Grammar.withCell cell start stop (f (cell start stop))) := by
  obtain ⟨rfl, hCell⟩ := h
  refine ⟨rfl, fun a b ha hb => ?_⟩
  rw [cell_modify chart f hStop ha hb, hCell a b ha hb, Grammar.withCell]
  split
  · next hSpan => rw [hSpan.1, hSpan.2]
  · rfl

/-- Cells that have already been set to `here` at a span are changed at that span. The rules of a
span add to it one after the other in this way. -/
theorem Shows.modify_withCell {chart : Chart S} {size : Nat}
    {cell : Nat → Nat → List (Derivation S)} {start stop : Nat} {here : List (Derivation S)}
    (h : chart.Shows size (Grammar.withCell cell start stop here)) (hStop : stop ≤ size)
    (f : List (Derivation S) → List (Derivation S)) :
    (chart.modify start stop f).Shows size (Grammar.withCell cell start stop (f here)) := by
  have hModify := h.modify start hStop f
  rwa [Grammar.withCell_withCell, Grammar.withCell_self] at hModify

end Chart

namespace Grammar

/-- All spans of a query are visited. -/
theorem mem_spans {size start stop : Nat} :
    (start, stop) ∈ spans size ↔ start < stop ∧ stop ≤ size := by
  simp only [spans, List.mem_flatMap, List.mem_range, List.mem_map, Prod.mk.injEq]
  constructor
  · rintro ⟨less, hLess, _, hStart, rfl, rfl⟩
    omega
  · rintro ⟨hLess, hStop⟩
    exact ⟨stop - start - 1, by omega, start, by omega, rfl, by omega⟩

/-- Spans are visited in the order of their sizes, and of their positions where sizes are equal.
So no span is visited twice. -/
theorem pairwise_spans (size : Nat) :
    (spans size).Pairwise fun earlier later => earlier.2 - earlier.1 < later.2 - later.1 ∨
      (earlier.2 - earlier.1 = later.2 - later.1 ∧ earlier.1 < later.1) := by
  refine List.pairwise_flatMap.2 ⟨fun less _ => List.pairwise_map.2 ?_, ?_⟩
  · exact List.pairwise_lt_range.imp fun hLess => Or.inr ⟨by omega, hLess⟩
  · refine List.pairwise_lt_range.imp fun hLess x hx y hy => Or.inl ?_
    obtain ⟨i, _, rfl⟩ := List.mem_map.1 hx
    obtain ⟨j, _, rfl⟩ := List.mem_map.1 hy
    dsimp only
    omega

/-- When a span is visited, all smaller spans have been visited and the span itself has not. Both
follow from the order of sizes. -/
theorem visited_before {size start stop : Nat} {done rest : List (Nat × Nat)}
    (h : spans size = done ++ (start, stop) :: rest) :
    (start, stop) ∉ done ∧
      ∀ a b, a < b → b ≤ size → b - a < stop - start → (a, b) ∈ done := by
  have hOrder := pairwise_spans size
  rw [h, List.pairwise_append, List.pairwise_cons] at hOrder
  obtain ⟨-, ⟨hRest, -⟩, hDone⟩ := hOrder
  constructor
  · intro hMem
    have hSelf := hDone _ hMem _ List.mem_cons_self
    omega
  · intro a b hab hb hSmaller
    have hMem : (a, b) ∈ spans size := mem_spans.2 ⟨hab, hb⟩
    rw [h, List.mem_append, List.mem_cons] at hMem
    rcases hMem with hMem | hMem | hMem
    · exact hMem
    · rw [Prod.mk.injEq] at hMem
      omega
    · have hLater := hRest _ hMem
      dsimp only at hLater
      omega

variable {S : Type} [Scalar S] (grammar : Grammar S) (schema : Schema S) (query : Query)

/-- When the rules have had their turns on a chart, it shows what they add to the cell of the
span. By induction on the rules, where each sees what those before it have added. -/
theorem shows_foldl_rules {chart : Chart S} {cell : Nat → Nat → List (Derivation S)}
    {size start stop : Nat} (hSpan : start < stop) (hStop : stop ≤ size)
    {here : List (Derivation S)} (h : chart.Shows size (withCell cell start stop here))
    (rules : List Rule) :
    (rules.foldl (fun chart rule => chart.extend start stop
      (rule.derive grammar.settings chart.cell query start stop)) chart).Shows size
        (withCell cell start stop (rules.foldl (grammar.addRule query cell start stop) here)) := by
  induction rules generalizing chart here with
  | nil => exact h
  | cons rule rules ih =>
      obtain ⟨length, rfl⟩ := Nat.exists_eq_add_of_le (Nat.le_of_lt hSpan)
      have hDerive : rule.derive grammar.settings chart.cell query start (start + length) =
          rule.derive grammar.settings (withCell cell start (start + length) here) query start
            (start + length) :=
        Rule.derive_congr rfl fun i j _ _ => h.cell_eq _ _ (by omega) (by omega)
      have hExtend := h.modify_withCell hStop
        (· ++ rule.derive grammar.settings chart.cell query start (start + length))
      rw [List.foldl_cons, List.foldl_cons, addRule, ← hDerive]
      exact ih hExtend

/-- A step of filling the chart turns the empty cell of a span into what is gathered there, and
leaves all other cells as they are. Pruning comes last. -/
theorem shows_fillCell {chart : Chart S} {cell : Nat → Nat → List (Derivation S)}
    {size start stop : Nat} (h : chart.Shows size cell) (hSpan : start < stop)
    (hStop : stop ≤ size) (hEmpty : cell start stop = []) :
    (grammar.fillCell schema query chart (start, stop)).Shows size
      (withCell cell start stop (Candidates.prune grammar.settings.cellLimit
        (grammar.gather schema query cell start stop grammar.rules))) := by
  have hFound := h.modify start hStop
    (· ++ grammar.annotate schema (query.slice start stop))
  rw [hEmpty, List.nil_append] at hFound
  have hRules := grammar.shows_foldl_rules query hSpan hStop hFound grammar.rules
  exact hRules.modify_withCell hStop (Candidates.prune grammar.settings.cellLimit)

/-- The cells after the given spans have been visited: these spans have their final cells, and the
others have none. -/
def visitedCell (done : List (Nat × Nat)) (a b : Nat) : List (Derivation S) :=
  if (a, b) ∈ done then grammar.spanCell schema query a b else []

/-- No stage of filling the chart changes a cell that an earlier stage has left. By induction on
the spans visited. -/
theorem shows_foldl_fillCell {done rest : List (Nat × Nat)}
    (h : spans query.size = done ++ rest) :
    (done.foldl (grammar.fillCell schema query) (Chart.empty query.size)).Shows query.size
      (grammar.visitedCell schema query done) := by
  induction done using List.reverseRecOn generalizing rest with
  | nil => exact Chart.shows_empty query.size
  | append_singleton done span ih =>
      obtain ⟨start, stop⟩ := span
      rw [List.append_assoc, List.singleton_append] at h
      obtain ⟨hSpan, hStop⟩ : start < stop ∧ stop ≤ query.size :=
        mem_spans.1 (h ▸ List.mem_append_right done List.mem_cons_self)
      obtain ⟨hNew, hVisited⟩ := visited_before h
      have hGather := grammar.gather_eq_of_cells schema query
        (grammar.visitedCell schema query done) (grammar.spanCell schema query) hSpan grammar.rules
        fun a b _ hab hb hSmaller => if_pos (hVisited a b hab (Nat.le_trans hb hStop) hSmaller)
      have hStep := grammar.shows_fillCell schema query (ih h) hSpan hStop (if_neg hNew)
      rw [hGather, ← spanCell_eq_prune_gather _ _ _ hSpan] at hStep
      rw [List.foldl_append, List.foldl_cons, List.foldl_nil]
      refine ⟨hStep.size_eq, fun a b ha hb => ?_⟩
      rw [hStep.cell_eq a b ha hb, withCell, visitedCell, visitedCell]
      by_cases hHere : a = start ∧ b = stop
      · obtain ⟨rfl, rfl⟩ := hHere
        simp
      · simp [hHere]

/-- The chart of a query holds the cell of every span. This is the bridge from the chart, which is
changed step by step, to the recursion on spans. -/
theorem cell_chart {start stop : Nat} (hStart : start ≤ query.size) (hStop : stop ≤ query.size) :
    (grammar.chart schema query).cell start stop = grammar.spanCell schema query start stop := by
  have hAll := grammar.shows_foldl_fillCell schema query (List.append_nil _).symm
  rw [chart, hAll.cell_eq start stop hStart hStop, visitedCell]
  split
  · rfl
  · next hMem =>
    have hLess : ¬start < stop := fun hLess => hMem (mem_spans.2 ⟨hLess, hStop⟩)
    rw [spanCell_of_not_lt _ _ _ hLess]

/-- A form of the cells of a chart that can be evaluated by definition. It uses pruning by
insertions, which computes. -/
theorem cell_chart_eq_cellBy [OrderedScalar S] {start stop : Nat} (hStart : start ≤ query.size)
    (hStop : stop ≤ query.size) :
    (grammar.chart schema query).cell start stop =
      grammar.cellBy schema query
        (Candidates.pruneByInsertion grammar.settings.cellLimit) start stop := by
  rw [cell_chart _ _ _ hStart hStop, spanCell, Candidates.prune_eq_pruneByInsertion]

theorem size_chart : (grammar.chart schema query).size = query.size :=
  (grammar.shows_foldl_fillCell schema query (List.append_nil _).symm).size_eq

end Grammar

end PlotQuery
