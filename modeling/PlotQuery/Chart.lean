import PlotQuery.Derivation

/-! The chart of a query: the derivations of each of its spans. The cells of all spans stand in one
array, those of one start after those of the start before. No two spans share a cell, so a change of
one span leaves the others as they are. -/
namespace PlotQuery

/-- A cell for each pair of positions in a query of `size` tokens. -/
structure Chart (S : Type) where
  size : Nat
  cells : Array (List (Derivation S))
  size_cells : cells.size = (size + 1) * (size + 1)

namespace Candidates

variable {S : Type} [Scalar S]

/-- Whether the first derivation may stand before the second: its score is not lower. -/
def precedes (a b : Derivation S) : Bool :=
  (Scalar.order b.score a.score).isLE

/-- The first derivations of a list that read differently from each other and from those already
seen, up to a limit. -/
def firstDistinct : Nat → List (Derivation S) → List (Derivation S) → List (Derivation S)
  | 0, _, _ => []
  | _, _, [] => []
  | limit + 1, seen, d :: ds =>
    if seen.any (·.sameReading d) then firstDistinct (limit + 1) seen ds
    else d :: firstDistinct limit (seen ++ [d]) ds

/-- The best derivation of each reading, best first, up to a limit. Of derivations with equal scores
the earlier one stays in front. -/
def prune (limit : Nat) (candidates : List (Derivation S)) : List (Derivation S) :=
  firstDistinct limit [] (candidates.mergeSort precedes)

/-- The better of the best derivation so far and another one. The former stays if its score is at
least as high. -/
def better (best : Option (Derivation S)) (d : Derivation S) : Option (Derivation S) :=
  match best with
  | some kept => if Scalar.le d.score kept.score then some kept else some d
  | none => some d

def best? (symbol : SymbolId) (candidates : List (Derivation S)) : Option (Derivation S) :=
  (candidates.filter (·.lhs == symbol)).foldl better none

end Candidates

namespace Chart

variable {S : Type}

def empty (size : Nat) : Chart S where
  size := size
  cells := Array.replicate ((size + 1) * (size + 1)) []
  size_cells := by simp

def offset (chart : Chart S) (start stop : Nat) : Nat :=
  start * (chart.size + 1) + stop

def cell (chart : Chart S) (start stop : Nat) : List (Derivation S) :=
  (chart.cells[chart.offset start stop]?).getD []

def modify (chart : Chart S) (start stop : Nat)
    (f : List (Derivation S) → List (Derivation S)) : Chart S where
  size := chart.size
  cells := chart.cells.modify (chart.offset start stop) f
  size_cells := by simp [chart.size_cells]

/-- Put further derivations of a span behind those that are there. -/
def extend (chart : Chart S) (start stop : Nat) (found : List (Derivation S)) : Chart S :=
  chart.modify start stop (· ++ found)

def prune [Scalar S] (chart : Chart S) (start stop limit : Nat) : Chart S :=
  chart.modify start stop (Candidates.prune limit)

def best? [Scalar S] (chart : Chart S) (symbol : SymbolId) : Option (Derivation S) :=
  Candidates.best? symbol (chart.cell 0 chart.size)

def total (chart : Chart S) : Nat :=
  (chart.cells.toList.map List.length).foldl (· + ·) 0

theorem offset_eq_offset_iff (chart : Chart S) {a b c d : Nat} (hb : b ≤ chart.size)
    (hd : d ≤ chart.size) : chart.offset a b = chart.offset c d ↔ a = c ∧ b = d := by
  constructor
  · intro h
    have hPositive : 0 < chart.size + 1 := by omega
    have hQuotient := congrArg (· / (chart.size + 1)) h
    have hRest := congrArg (· % (chart.size + 1)) h
    simp only [offset, Nat.mul_comm _ (chart.size + 1), Nat.mul_add_div hPositive,
      Nat.mul_add_mod] at hQuotient hRest
    rw [Nat.div_eq_of_lt (by omega), Nat.div_eq_of_lt (by omega)] at hQuotient
    rw [Nat.mod_eq_of_lt (by omega), Nat.mod_eq_of_lt (by omega)] at hRest
    exact ⟨by omega, hRest⟩
  · rintro ⟨rfl, rfl⟩
    rfl

theorem offset_lt_size_cells (chart : Chart S) {start stop : Nat} (hStart : start ≤ chart.size)
    (hStop : stop ≤ chart.size) : chart.offset start stop < chart.cells.size := by
  rw [chart.size_cells, offset]
  calc
    start * (chart.size + 1) + stop
      ≤ chart.size * (chart.size + 1) + chart.size :=
        Nat.add_le_add (Nat.mul_le_mul_right _ hStart) hStop
    _ < (chart.size + 1) * (chart.size + 1) := by
        rw [Nat.add_mul chart.size 1]
        omega

@[simp] theorem size_modify (chart : Chart S) (start stop : Nat)
    (f : List (Derivation S) → List (Derivation S)) :
    (chart.modify start stop f).size = chart.size := rfl

@[simp] theorem cell_empty (size start stop : Nat) : (empty size : Chart S).cell start stop = [] := by
  rw [cell, empty, Array.getElem?_replicate]
  split <;> rfl

/-- A change of one span leaves all other spans as they are. -/
theorem cell_modify (chart : Chart S) {start stop a b : Nat}
    (f : List (Derivation S) → List (Derivation S)) (hStop : stop ≤ chart.size)
    (ha : a ≤ chart.size) (hb : b ≤ chart.size) :
    (chart.modify start stop f).cell a b =
      if a = start ∧ b = stop then f (chart.cell a b) else chart.cell a b := by
  have hCell := Array.getElem?_eq_getElem (chart.offset_lt_size_cells ha hb)
  change ((chart.cells.modify (chart.offset start stop) f)[chart.offset a b]?).getD [] = _
  rw [Array.getElem?_modify, cell, hCell]
  by_cases h : a = start ∧ b = stop
  · obtain ⟨rfl, rfl⟩ := h
    simp
  · have hOffset : chart.offset start stop ≠ chart.offset a b := fun heq =>
      h ((chart.offset_eq_offset_iff hb hStop).1 heq.symm)
    rw [if_neg hOffset, if_neg h]

theorem cell_extend (chart : Chart S) {start stop a b : Nat} (found : List (Derivation S))
    (hStop : stop ≤ chart.size) (ha : a ≤ chart.size) (hb : b ≤ chart.size) :
    (chart.extend start stop found).cell a b =
      if a = start ∧ b = stop then chart.cell a b ++ found else chart.cell a b :=
  chart.cell_modify (· ++ found) hStop ha hb

theorem cell_prune [Scalar S] (chart : Chart S) {start stop a b : Nat} (limit : Nat)
    (hStop : stop ≤ chart.size) (ha : a ≤ chart.size) (hb : b ≤ chart.size) :
    (chart.prune start stop limit).cell a b =
      if a = start ∧ b = stop then Candidates.prune limit (chart.cell a b)
      else chart.cell a b :=
  chart.cell_modify (Candidates.prune limit) hStop ha hb

end Chart

end PlotQuery
