import PlotQuery.Proofs.FinishedChart

/-! A chart as a map from spans to lists. All cells stand in one array, yet whatever changes are made
one after the other, a cell is what the changes of its own span make of the empty list. -/
namespace PlotQuery.Chart

open Finset

variable {S : Type}

/-- A change of the cell of one span. -/
inductive Change (S : Type) where
  /-- Further derivations are put behind those that are there. -/
  | extend (start stop : Nat) (found : List (Derivation S))
  /-- The derivations are pruned. -/
  | prune (start stop limit : Nat)

namespace Change

def span : Change S → Nat × Nat
  | extend start stop _ => (start, stop)
  | prune start stop _ => (start, stop)

/-- The span lies within a query of the given size. It may be empty, or end before it starts. -/
def Within (size : Nat) (change : Change S) : Prop :=
  change.span.1 ≤ size ∧ change.span.2 ≤ size

variable [Scalar S]

def apply (chart : Chart S) : Change S → Chart S
  | extend start stop found => chart.extend start stop found
  | prune start stop limit => chart.prune start stop limit

def applyToCell (cell : List (Derivation S)) : Change S → List (Derivation S)
  | extend _ _ found => cell ++ found
  | prune _ _ limit => Candidates.prune limit cell

@[simp] theorem size_apply (chart : Chart S) (change : Change S) :
    (change.apply chart).size = chart.size := by
  cases change <;> rfl

/-- A change is made to the cell of its span and to no other one. Different spans never share a
cell, which holds for spans within the chart only. -/
theorem cell_apply (chart : Chart S) {change : Change S} (hChange : change.Within chart.size)
    {start stop : Nat} (hStart : start ≤ chart.size) (hStop : stop ≤ chart.size) :
    (change.apply chart).cell start stop =
      if change.span = (start, stop) then change.applyToCell (chart.cell start stop)
      else chart.cell start stop := by
  cases change with
  | extend a b found =>
      have hEnd : b ≤ chart.size := hChange.2
      rw [apply, chart.cell_extend found hEnd hStart hStop]
      simp [span, applyToCell, eq_comm]
  | prune a b limit =>
      have hEnd : b ≤ chart.size := hChange.2
      rw [apply, chart.cell_prune limit hEnd hStart hStop]
      simp [span, applyToCell, eq_comm]

/-- The changes of one span, made to the empty list one after the other. -/
def cellOf (changes : List (Change S)) (span : Nat × Nat) : List (Derivation S) :=
  (changes.filter (·.span = span)).foldl applyToCell []

/-- One more change concerns a span only if it is a change of that span. -/
theorem cellOf_concat (changes : List (Change S)) (change : Change S) (span : Nat × Nat) :
    cellOf (changes ++ [change]) span =
      if change.span = span then change.applyToCell (cellOf changes span)
      else cellOf changes span := by
  simp only [cellOf, List.filter_append, List.foldl_append, List.filter_singleton]
  by_cases h : change.span = span <;> simp [h]

end Change

variable [Scalar S]

@[simp] theorem size_foldl_apply (chart : Chart S) (changes : List (Change S)) :
    (changes.foldl Change.apply chart).size = chart.size := by
  induction changes generalizing chart with
  | nil => rfl
  | cons change changes ih => rw [List.foldl_cons, ih, Change.size_apply]

/-- After any changes a cell holds what the changes of its own span make of the empty list. By
induction on the changes, from the last one. -/
theorem cell_foldl_apply {size : Nat} {changes : List (Change S)}
    (hChanges : ∀ change ∈ changes, change.Within size) {start stop : Nat} (hStart : start ≤ size)
    (hStop : stop ≤ size) :
    (changes.foldl Change.apply (empty size)).cell start stop =
      Change.cellOf changes (start, stop) := by
  induction changes using List.reverseRecOn with
  | nil => exact cell_empty size start stop
  | append_singleton changes change ih =>
      have hSize : (changes.foldl Change.apply (empty size)).size = size := by simp [empty]
      have hBefore := ih fun earlier hMem => hChanges earlier (List.mem_append_left _ hMem)
      have hLast : change.Within size := hChanges change (by simp)
      rw [List.foldl_append, List.foldl_cons, List.foldl_nil, Change.cellOf_concat, ← hBefore]
      rw [Change.cell_apply] <;> rwa [hSize]

/-- Starting from the empty chart, any changes of spans within the query leave in each cell what the
changes of this span alone make of the empty list. One more change of another span leaves the cell as
it is. The derivations in the chart are those of the cells of all pairs of positions. -/
theorem cell_of_changes {size : Nat} {changes : List (Change S)}
    (hChanges : ∀ change ∈ changes, change.Within size) :
    let chart := changes.foldl Change.apply (empty size)
    (∀ start stop, start ≤ size → stop ≤ size →
      chart.cell start stop = Change.cellOf changes (start, stop)) ∧
    (∀ change : Change S, change.Within size → ∀ start stop, start ≤ size → stop ≤ size →
      change.span ≠ (start, stop) →
        (change.apply chart).cell start stop = chart.cell start stop) ∧
    chart.total = ∑ span ∈ range (size + 1) ×ˢ range (size + 1),
      (Change.cellOf changes span).length := by
  intro chart
  have hSize : chart.size = size := size_foldl_apply (empty size) changes
  refine ⟨fun start stop => cell_foldl_apply hChanges, ?_, ?_⟩
  · intro change hChange start stop hStart hStop hOther
    rw [Change.cell_apply chart (by rwa [hSize]) (by rwa [hSize]) (by rwa [hSize]), if_neg hOther]
  · rw [total_eq_sum_cells, hSize, ← sum_product']
    apply sum_congr rfl
    intro span hSpan
    rw [mem_product, mem_range, mem_range] at hSpan
    exact congrArg List.length (cell_foldl_apply hChanges (by omega) (by omega))

/-- Changes of two cells that stand side by side in the array. -/
def neighbourChanges : List (Change ℚ) :=
  [.extend 0 2 [.leaf 0 Semantics.empty (1 / 2), .leaf 1 Semantics.empty (3 / 4)],
    .extend 1 0 [.leaf 2 Semantics.empty 1], .prune 0 2 1,
    .extend 0 2 [.leaf 0 Semantics.empty (1 / 4)]]

/-- The two cells stand side by side in the array, one of them for a span and one for none, and
changes of the one do not show in the other. -/
theorem cell_of_changes_neighbourChanges :
    (∀ change ∈ neighbourChanges, change.Within 2) ∧
    let chart := neighbourChanges.foldl Change.apply (empty 2)
    chart.offset 1 0 = chart.offset 0 2 + 1 ∧
    (chart.cell 0 2).map Derivation.score = [3 / 4, 1 / 4] ∧
    ((Change.prune 0 2 0).apply chart).cell 1 0 = chart.cell 1 0 ∧
    (chart.cell 1 0).map Derivation.score = [1] ∧
    chart.total = 3 := by
  have hWithin : ∀ change ∈ neighbourChanges, change.Within 2 := by
    simp [neighbourChanges, Change.Within, Change.span]
  have hCellOf (span : Nat × Nat) : Change.cellOf neighbourChanges span =
      (neighbourChanges.filter (·.span = span)).foldl (fun cell change => match change with
        | .extend _ _ found => cell ++ found
        | .prune _ _ limit => Candidates.pruneByInsertion limit cell) [] := by
    rw [Change.cellOf]
    congr 1
    funext cell change
    cases change <;> simp [Change.applyToCell, Candidates.prune_eq_pruneByInsertion]
  obtain ⟨hCell, hOther, hTotal⟩ := cell_of_changes hWithin
  refine ⟨hWithin, rfl, ?_, ?_, ?_, ?_⟩
  · rw [hCell 0 2 (by decide) (by decide), hCellOf]
    decide +kernel
  · exact hOther (.prune 0 2 0) (by simp [Change.Within, Change.span]) 1 0 (by decide) (by decide)
      (by decide)
  · rw [hCell 1 0 (by decide) (by decide), hCellOf]
    decide +kernel
  · rw [hTotal]
    simp only [hCellOf]
    decide +kernel

end PlotQuery.Chart
