import PlotQuery.Proofs.CheckedSteps
import PlotQuery.Proofs.Expansions
import PlotQuery.Proofs.RuleApplication

/-! The application of a rule with all positions checked. The loops are those over the tokens that are
passed over, whatever the size of the span, and a test in the innermost loop leaves out what does not
fit. A cell is read only if it is the one of the span itself or if it has been pruned and its span
lies inside. -/
namespace PlotQuery

section Loops

variable {α β : Type}

/-- The end of a loop may be left out where it gives nothing. -/
theorem flatMap_range_of_le {result : Nat → List α} {size long : Nat} (hLong : size ≤ long)
    (h : ∀ i, size ≤ i → i < long → result i = []) :
    (List.range size).flatMap result = (List.range long).flatMap result := by
  obtain ⟨more, rfl⟩ := Nat.exists_eq_add_of_le hLong
  have hBeyond : ((List.range more).map (size + ·)).flatMap result = [] := by
    refine List.flatMap_eq_nil_iff.2 fun i hi => ?_
    obtain ⟨k, hk, rfl⟩ := List.mem_map.1 hi
    exact h _ (Nat.le_add_right size k) (Nat.add_lt_add_left (List.mem_range.1 hk) size)
  rw [List.range_add, List.flatMap_append, hBeyond, List.append_nil]

theorem flatMap_filter (p : α → Bool) (xs : List α) (result : α → List β) :
    (xs.filter p).flatMap result = xs.flatMap fun x => if p x then result x else [] := by
  induction xs with
  | nil => rfl
  | cons x xs ih =>
      rw [List.filter_cons, List.flatMap_cons]
      split
      · rw [List.flatMap_cons, ih]
      · rw [ih, List.nil_append]

theorem flatMap_range_eq_nil {result : Nat → List α} (size : Nat)
    (h : ∀ i, result i = []) : (List.range size).flatMap result = [] :=
  List.flatMap_eq_nil_iff.2 fun i _ => h i

/-- No loop over the tokens passed over has to be shortened for a short span. What is cut off by
the length of the span gives nothing. -/
theorem flatMap_outerGaps (maxLeading maxNoise span : Nat) (result : Nat × Nat → List α) :
    (outerGaps maxLeading maxNoise span).flatMap result =
      (List.range (min maxLeading maxNoise + 1)).flatMap fun left =>
        (List.range (maxNoise - left + 1)).flatMap fun right =>
          if left + right < span then result (left, right) else [] := by
  have hLong (left right : Nat) (h : span ≤ left) :
      (if left + right < span then result (left, right) else []) = [] := if_neg (by omega)
  simp only [outerGaps, List.flatMap_assoc, List.flatMap_map, flatMap_filter, decide_eq_true_eq]
  refine Eq.trans (List.flatMap_congr fun left _ => ?_) (flatMap_range_of_le (by omega)
    fun left _ _ => flatMap_range_eq_nil _ fun right => hLong left right (by omega))
  exact flatMap_range_of_le (by omega) fun right _ _ => if_neg (by omega)

/-- The three loops over the tokens passed over give what the choices of at most so many tokens
give, as long as these leave some of the span. -/
theorem flatMap_innerGaps (maxNoise span : Nat) (result : Nat × Nat × Nat → List α) :
    (innerGaps maxNoise span).flatMap result =
      (List.range (maxNoise + 1)).flatMap fun left =>
        (List.range (maxNoise - left + 1)).flatMap fun middle =>
          (List.range (maxNoise - left - middle + 1)).flatMap fun right =>
            if left + middle + right < span then result (left, middle, right) else [] := by
  have hLong (left middle right : Nat) (h : span ≤ left + middle) :
      (if left + middle + right < span then result (left, middle, right) else []) = [] :=
    if_neg (by omega)
  simp only [innerGaps, List.flatMap_assoc, List.flatMap_map, flatMap_filter, decide_eq_true_eq]
  refine Eq.trans (List.flatMap_congr fun left _ => ?_) (flatMap_range_of_le (by omega)
    fun left _ _ => flatMap_range_eq_nil _ fun middle =>
      flatMap_range_eq_nil _ fun right => hLong left middle right (by omega))
  refine Eq.trans (List.flatMap_congr fun middle _ => ?_) (flatMap_range_of_le (by omega)
    fun middle _ _ => flatMap_range_eq_nil _ fun right => hLong left middle right (by omega))
  exact flatMap_range_of_le (by omega) fun right _ _ => if_neg (by omega)

/-- A loop over positions that ends at the first one from which a gap of the given size reaches
the limit. The loop may stop there, because all later positions fail as well. -/
theorem takeWhile_range' (start size gap limit : Nat) :
    (List.range' start size).takeWhile (fun split => decide (split + gap < limit)) =
      List.range' start (min size (limit - gap - start)) := by
  induction size generalizing start with
  | zero => simp
  | succ size ih =>
      rw [List.range'_succ, List.takeWhile_cons]
      by_cases hHere : start + gap < limit
      · have hSize : min (size + 1) (limit - gap - start) =
            min size (limit - gap - (start + 1)) + 1 := by omega
        rw [if_pos (decide_eq_true hHere), ih, hSize, List.range'_succ]
      · have hSize : min (size + 1) (limit - gap - start) = 0 := by omega
        rw [if_neg (by simpa using hHere), hSize, List.range'_zero]

end Loops

/-- A chart that is being filled, and the spans that have been pruned. -/
structure Filling (S : Type) where
  chart : Chart S
  pruned : List (Nat × Nat)

namespace Filling

variable {S : Type}

/-- Fail unless the chart has a cell for the span. -/
def locate (filling : Filling S) (start stop : Nat) : Except Fault Unit :=
  if start < stop ∧ stop ≤ filling.chart.size ∧
      filling.chart.offset start stop < filling.chart.cells.size then .ok ()
  else .error (.cell start stop)

/-- The derivations from `a` to `b`, for a rule that is applied to the span from `start` to `stop`. -/
def read (filling : Filling S) (start stop a b : Nat) : Except Fault (List (Derivation S)) :=
  if (a, b) = (start, stop) ∨ (filling.pruned.contains (a, b) ∧ start ≤ a ∧ b ≤ stop) then do
    filling.locate a b
    return filling.chart.cell a b
  else .error (.unfinished a b)

def extend (filling : Filling S) (start stop : Nat) (found : List (Derivation S)) :
    Except Fault (Filling S) := do
  filling.locate start stop
  return ⟨filling.chart.extend start stop found, filling.pruned⟩

def prune [Scalar S] (filling : Filling S) (start stop limit : Nat) : Except Fault (Filling S) := do
  filling.locate start stop
  return ⟨filling.chart.prune start stop limit, filling.pruned ++ [(start, stop)]⟩

/-- A stage of filling the chart at which rules may be applied to a span: all smaller spans inside it
have been pruned. -/
structure Ready (filling : Filling S) (query : Query) (start stop : Nat) : Prop where
  size_eq : filling.chart.size = query.size
  nonempty : start < stop
  stop_le : stop ≤ query.size
  inside : ∀ a b, start ≤ a → a < b → b ≤ stop → (a, b) ≠ (start, stop) → (a, b) ∈ filling.pruned

variable {filling : Filling S} {query : Query} {start stop a b : Nat}

/-- There is a cell for a pair of positions just if it is a span within the query. -/
theorem locate_eq_ok_iff :
    filling.locate start stop = .ok () ↔ start < stop ∧ stop ≤ filling.chart.size := by
  have hPlace (hSpan : start < stop) (hStop : stop ≤ filling.chart.size) :
      filling.chart.offset start stop < filling.chart.cells.size :=
    filling.chart.offset_lt_size_cells (Nat.le_trans (Nat.le_of_lt hSpan) hStop) hStop
  rw [locate]
  split <;> grind

/-- A rule gets a cell only if it is the one of a span, and either its own or a finished one inside. -/
theorem read_eq_ok_iff {cell : List (Derivation S)} :
    filling.read start stop a b = .ok cell ↔
      ((a, b) = (start, stop) ∨ ((a, b) ∈ filling.pruned ∧ start ≤ a ∧ b ≤ stop)) ∧
        (a < b ∧ b ≤ filling.chart.size) ∧ filling.chart.cell a b = cell := by
  rw [read, ← locate_eq_ok_iff, ← List.contains_iff_mem]
  split
  · next hAllowed =>
    rw [and_iff_right hAllowed, bind_eq_ok_iff]
    constructor
    · rintro ⟨⟨⟩, hLocate, hCell⟩
      exact ⟨hLocate, Except.ok.inj hCell⟩
    · rintro ⟨hLocate, rfl⟩
      exact ⟨(), hLocate, rfl⟩
  · next hForbidden => exact ⟨nofun, fun h => absurd h.1 hForbidden⟩

/-- Only the finished cells count, not what the chart has for the span itself. So a rule may add
to the span and leave everything ready for the next rule. -/
theorem Ready.withChart (h : filling.Ready query start stop) (chart : Chart S)
    (hSize : chart.size = filling.chart.size) :
    (Filling.mk chart filling.pruned).Ready query start stop :=
  ⟨hSize.trans h.size_eq, h.nonempty, h.stop_le, h.inside⟩

theorem Ready.locate_eq_ok (h : filling.Ready query start stop) :
    filling.locate start stop = .ok () :=
  locate_eq_ok_iff.2 ⟨h.nonempty, h.size_eq ▸ h.stop_le⟩

/-- A rule that stays inside its span reads what the chart has there, be it the cell being filled
or a finished one. -/
theorem Ready.read_eq_ok (h : filling.Ready query start stop) (ha : start ≤ a) (hab : a < b)
    (hb : b ≤ stop) : filling.read start stop a b = .ok (filling.chart.cell a b) := by
  have hChart : b ≤ filling.chart.size := h.size_eq ▸ Nat.le_trans hb h.stop_le
  refine read_eq_ok_iff.2 ⟨?_, ⟨hab, hChart⟩, rfl⟩
  by_cases hSelf : (a, b) = (start, stop)
  · exact .inl hSelf
  · exact .inr ⟨h.inside a b ha hab hb hSelf, ha, hb⟩

end Filling

namespace Rule

variable {S : Type} [Scalar S]

def checkedUnary (settings : Settings S) (rule : Rule) (symbol : SymbolId) (filling : Filling S)
    (query : Query) (start stop : Nat) : Except Fault (List (Derivation S)) :=
  Checked.each (List.range (min settings.maxLeadingNoise settings.maxNoise + 1)) fun left => do
    let most ← Checked.sub settings.maxNoise left
    Checked.each (List.range (most + 1)) fun right => do
      let innerStart ← Checked.add start left
      if stop ≤ (← Checked.add innerStart right) then return []
      else do
        let innerStop ← Checked.sub stop right
        let tokens ← Checked.add left right
        let leading ← Checked.charCount query start innerStart
        let trailing ← Checked.charCount query innerStop stop
        let children ← filling.read start stop innerStart innerStop
        let size ← Checked.sub stop start
        return (children.filter (·.lhs == symbol)).filterMap
          (rule.deriveFromChild? settings size ⟨tokens, leading + trailing⟩)

/-- The derivations of a span by a binary rule whose first child ends at the position `split`. There
are no more of them once the second child would be empty. -/
def checkedAtSplit (settings : Settings S) (rule : Rule) (left right : SymbolId)
    (filling : Filling S) (query : Query)
    (start stop innerStart innerStop middle tokens chars split : Nat) :
    Except Fault (Option (List (Derivation S))) := do
  let next ← Checked.add split middle
  if innerStop ≤ next then return none
  else do
    let between ← Checked.charCount query split next
    let firsts ← filling.read start stop innerStart split
    let found ← Checked.each (firsts.filter (·.lhs == left)) fun first => do
      let seconds ← filling.read start stop next innerStop
      let size ← Checked.sub stop start
      return (seconds.filter (·.lhs == right)).filterMap
        (rule.deriveFromChildren? settings size ⟨tokens, chars + between⟩ first)
    return some found

def checkedBinary (settings : Settings S) (rule : Rule) (left right : SymbolId)
    (filling : Filling S) (query : Query) (start stop : Nat) :
    Except Fault (List (Derivation S)) :=
  Checked.each (List.range (settings.maxNoise + 1)) fun before => do
    let rest ← Checked.sub settings.maxNoise before
    Checked.each (List.range (rest + 1)) fun middle => do
      let most ← Checked.sub rest middle
      Checked.each (List.range (most + 1)) fun after => do
        let innerStart ← Checked.add start before
        if stop ≤ (← Checked.add (← Checked.add innerStart middle) after) then return []
        else do
          let innerStop ← Checked.sub stop after
          let leading ← Checked.charCount query start innerStart
          let trailing ← Checked.charCount query innerStop stop
          let tokens ← Checked.add (← Checked.add before middle) after
          let first ← Checked.add innerStart 1
          Checked.eachUntil (rule.checkedAtSplit settings left right filling query start stop
            innerStart innerStop middle tokens (leading + trailing))
            (List.range' first (innerStop - first))

def checkedDerive (settings : Settings S) (rule : Rule) (filling : Filling S) (query : Query)
    (start stop : Nat) : Except Fault (List (Derivation S)) :=
  match rule.body with
  | .words literals => do
    return rule.deriveWords literals (← Checked.slice query start stop)
  | .unary child => rule.checkedUnary settings child filling query start stop
  | .binary left right => rule.checkedBinary settings left right filling query start stop

variable {settings : Settings S} {rule : Rule} {filling : Filling S} {query : Query}
  {start stop : Nat} (h : filling.Ready query start stop)
  (hWord : query.size + settings.maxNoise < UInt64.size)
include h hWord

/-- A unary rule may read its own cell, when it passes over no token at all, and finished cells
otherwise. -/
theorem checkedUnary_eq_ok (symbol : SymbolId) :
    rule.checkedUnary settings symbol filling query start stop =
      .ok (rule.deriveUnary settings symbol filling.chart.cell query start stop) := by
  have hSpan := h.nonempty
  have hStop := h.stop_le
  rw [checkedUnary, deriveUnary_eq_flatMap, flatMap_outerGaps]
  refine Checked.each_eq_ok fun left hLeft => ?_
  have hLeft : left ≤ settings.maxNoise := by
    rw [List.mem_range] at hLeft
    omega
  rw [Checked.sub_eq_ok hLeft, Checked.ok_bind]
  refine Checked.each_eq_ok fun right hRight => ?_
  have hRight : left + right ≤ settings.maxNoise := by
    rw [List.mem_range] at hRight
    omega
  rw [Checked.add_eq_ok (by omega), Checked.ok_bind, Checked.add_eq_ok (by omega), Checked.ok_bind]
  by_cases hInner : left + right < stop - start
  · have hNoise : outerNoise (query.slice start stop) left right =
        ⟨left + right, (query.slice start (start + left)).charCount +
          (query.slice (stop - right) stop).charCount⟩ := by
      rw [outerNoise_slice query hStop hInner]
      simp only [Query.noise, List.map_cons, List.map_nil, List.foldl_cons, List.foldl_nil,
        Noise.mk.injEq]
      omega
    rw [if_neg (by omega), if_pos hInner, Checked.sub_eq_ok (by omega), Checked.ok_bind,
      Checked.add_eq_ok (by omega), Checked.ok_bind,
      Checked.charCount_eq_ok (by omega) (by omega), Checked.ok_bind,
      Checked.charCount_eq_ok (by omega) (by omega), Checked.ok_bind,
      h.read_eq_ok (by omega) (by omega) (by omega), Checked.ok_bind,
      Checked.sub_eq_ok (by omega), Checked.ok_bind, hNoise, Checked.pure_eq_ok]
  · rw [if_pos (by omega), if_neg hInner, Checked.pure_eq_ok]

/-- The second child is read only where the gap between the children leaves room for it. -/
theorem checkedAtSplit_eq_ok (left right : SymbolId) {before middle after split : Nat}
    (hNoise : before + middle + after ≤ settings.maxNoise)
    (hSplit : start + before < split) (hRoom : split < stop - after) :
    rule.checkedAtSplit settings left right filling query start stop (start + before)
        (stop - after) middle (before + middle + after)
        ((query.slice start (start + before)).charCount +
          (query.slice (stop - after) stop).charCount) split =
      .ok (if split + middle < stop - after then
        some (rule.deriveAtSplit settings left right filling.chart.cell query start stop
          (before, middle, after) split)
      else none) := by
  have hStop := h.stop_le
  rw [checkedAtSplit, Checked.add_eq_ok (by omega), Checked.ok_bind]
  by_cases hNext : split + middle < stop - after
  · rw [if_neg (by omega), if_pos hNext, Checked.charCount_eq_ok (by omega) (by omega),
      Checked.ok_bind, h.read_eq_ok (by omega) (by omega) (by omega), Checked.ok_bind,
      deriveAtSplit_eq_flatMap]
    rw [Checked.each_eq_ok fun first _ => ?_, Checked.ok_bind, Checked.pure_eq_ok]
    rw [h.read_eq_ok (by omega) (by omega) (by omega), Checked.ok_bind,
      Checked.sub_eq_ok (by omega), Checked.ok_bind, Checked.pure_eq_ok]
    rfl
  · rw [if_pos (by omega), if_neg hNext, Checked.pure_eq_ok]

/-- A binary rule reads finished cells only, as both its children leave room for the other one. -/
theorem checkedBinary_eq_ok (left right : SymbolId) :
    rule.checkedBinary settings left right filling query start stop =
      .ok (rule.deriveBinary settings left right filling.chart.cell query start stop) := by
  have hSpan := h.nonempty
  have hStop := h.stop_le
  rw [checkedBinary, deriveBinary, flatMap_innerGaps]
  refine Checked.each_eq_ok fun before hBefore => ?_
  have hBefore : before ≤ settings.maxNoise := Nat.le_of_lt_succ (List.mem_range.1 hBefore)
  rw [Checked.sub_eq_ok hBefore, Checked.ok_bind]
  refine Checked.each_eq_ok fun middle hMiddle => ?_
  have hMiddle : middle ≤ settings.maxNoise - before := Nat.le_of_lt_succ (List.mem_range.1 hMiddle)
  rw [Checked.sub_eq_ok hMiddle, Checked.ok_bind]
  refine Checked.each_eq_ok fun after hAfter => ?_
  have hNoise : before + middle + after ≤ settings.maxNoise := by
    rw [List.mem_range] at hAfter
    omega
  rw [Checked.add_eq_ok (by omega), Checked.ok_bind, Checked.add_eq_ok (by omega), Checked.ok_bind,
    Checked.add_eq_ok (by omega), Checked.ok_bind]
  by_cases hInner : before + middle + after < stop - start
  · have hSplits : splits start stop (before, middle, after) =
        (List.range' (start + before + 1) (stop - after - (start + before + 1))).takeWhile
          fun split => decide (split + middle < stop - after) := by
      rw [takeWhile_range', splits]
      congr 1
      dsimp only
      omega
    rw [if_neg (by omega), if_pos hInner, Checked.sub_eq_ok (by omega), Checked.ok_bind,
      Checked.charCount_eq_ok (by omega) (by omega), Checked.ok_bind,
      Checked.charCount_eq_ok (by omega) (by omega), Checked.ok_bind,
      Checked.add_eq_ok (by omega), Checked.ok_bind, Checked.add_eq_ok (by omega), Checked.ok_bind,
      Checked.add_eq_ok (by omega), Checked.ok_bind, hSplits]
    refine Checked.eachUntil_eq_ok (fun split hMem hGo => ?_) fun split hMem hEnd => ?_
    · have hRange := List.mem_range'_1.1 hMem
      rw [checkedAtSplit_eq_ok h hWord left right hNoise (by omega) (by omega),
        if_pos (of_decide_eq_true hGo)]
    · have hRange := List.mem_range'_1.1 hMem
      rw [checkedAtSplit_eq_ok h hWord left right hNoise (by omega) (by omega),
        if_neg (of_decide_eq_false hEnd)]
  · rw [if_pos (by omega), if_neg hInner, Checked.pure_eq_ok]

/-- No rule leaves the span to which it is applied, and it derives what it derives without the
checks. Its derivations come in the same order as well. -/
theorem checkedDerive_eq_ok :
    rule.checkedDerive settings filling query start stop =
      .ok (rule.derive settings filling.chart.cell query start stop) := by
  rw [checkedDerive, derive]
  cases rule.body with
  | words literals =>
      dsimp only
      rw [Checked.slice_eq_ok (Nat.le_of_lt h.nonempty) h.stop_le, Checked.ok_bind,
        Checked.pure_eq_ok]
  | unary symbol => exact checkedUnary_eq_ok h hWord symbol
  | binary left right => exact checkedBinary_eq_ok h hWord left right

end Rule

end PlotQuery
