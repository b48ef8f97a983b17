import Mathlib.Data.List.Sort
import PlotQuery.Chart
import PlotQuery.Proofs.ScoreLaws

/-! Pruning of candidates and the choice of the best one. What is dropped as a repetition is no
loss: a candidate of the same reading with at least the same score is kept. -/
namespace PlotQuery

/-- A fold that keeps its choice or takes the next member ends with a member or its first choice.
It does not matter by which condition it chooses. -/
theorem mem_or_eq_of_foldl_choice {α : Type} {choose : Option α → α → Option α}
    (hChoose : ∀ best a chosen, choose best a = some chosen → chosen = a ∨ best = some chosen)
    {members : List α} {best : Option α} {chosen : α}
    (h : members.foldl choose best = some chosen) : chosen ∈ members ∨ best = some chosen := by
  induction members generalizing best with
  | nil => exact .inr h
  | cons a members ih =>
      rcases ih h with hMem | hBest
      · exact .inl (List.mem_cons_of_mem a hMem)
      · rcases hChoose best a chosen hBest with rfl | hBest
        · exact .inl List.mem_cons_self
        · exact .inr hBest

namespace Derivation

variable {S : Type}

/-- What a tree says: its symbol and its semantics. -/
def reading (d : Derivation S) : SymbolId × Semantics :=
  (d.lhs, d.semantics)

theorem reading_eq_iff {a b : Derivation S} :
    a.reading = b.reading ↔ a.lhs = b.lhs ∧ a.semantics = b.semantics :=
  Prod.mk.injEq .. ▸ Iff.rfl

theorem sameReading_iff {a b : Derivation S} : a.sameReading b = true ↔ a.reading = b.reading := by
  rw [sameReading, reading_eq_iff, Bool.and_eq_true, beq_iff_eq, decide_eq_true_iff]

/-- A reading has been seen just if it is the one of a candidate that has been kept. -/
theorem any_sameReading_iff {seen : List (Derivation S)} {d : Derivation S} :
    seen.any (·.sameReading d) = true ↔ d.reading ∈ seen.map reading := by
  simp only [List.any_eq_true, sameReading_iff, List.mem_map]

end Derivation

namespace Candidates

open PlotQuery.Derivation

variable {S : Type}

/-- Candidates are kept in their order. Nothing is made up and nothing changes places. -/
theorem firstDistinct_sublist (limit : Nat) (seen ds : List (Derivation S)) :
    (firstDistinct limit seen ds).Sublist ds := by
  induction ds generalizing limit seen with
  | nil => cases limit <;> simp [firstDistinct]
  | cons e ds ih =>
      cases limit with
      | zero => simp [firstDistinct]
      | succ limit =>
          rw [firstDistinct]
          split
          · exact (ih (limit + 1) seen).cons e
          · exact (ih limit (seen ++ [e])).cons_cons e

theorem mem_of_mem_firstDistinct {limit : Nat} {seen ds : List (Derivation S)} {d : Derivation S}
    (h : d ∈ firstDistinct limit seen ds) : d ∈ ds :=
  (firstDistinct_sublist limit seen ds).subset h

theorem length_firstDistinct_le (limit : Nat) (seen ds : List (Derivation S)) :
    (firstDistinct limit seen ds).length ≤ limit := by
  induction ds generalizing limit seen with
  | nil => cases limit <;> simp [firstDistinct]
  | cons e ds ih =>
      cases limit with
      | zero => simp [firstDistinct]
      | succ limit =>
          rw [firstDistinct]
          split
          · exact ih (limit + 1) seen
          · exact Nat.succ_le_succ (ih limit (seen ++ [e]))

/-- No candidate is kept whose reading has been seen. -/
theorem reading_not_mem_of_mem_firstDistinct {limit : Nat} {seen ds : List (Derivation S)}
    {d : Derivation S} (h : d ∈ firstDistinct limit seen ds) :
    d.reading ∉ seen.map reading := by
  induction ds generalizing limit seen with
  | nil => cases limit <;> simp [firstDistinct] at h
  | cons e ds ih =>
      cases limit with
      | zero => simp [firstDistinct] at h
      | succ limit =>
          rw [firstDistinct] at h
          split at h
          · exact ih h
          · next hNew =>
            rcases List.mem_cons.1 h with rfl | h
            · exact fun hSeen => hNew (any_sameReading_iff.2 hSeen)
            · intro hSeen
              exact ih h (by simp [hSeen])

/-- The kept candidates read differently from each other. Of each reading the first candidate is
kept, so long as there is room. -/
theorem nodup_readings_firstDistinct (limit : Nat) (seen ds : List (Derivation S)) :
    ((firstDistinct limit seen ds).map reading).Nodup := by
  induction ds generalizing limit seen with
  | nil => cases limit <;> simp [firstDistinct]
  | cons e ds ih =>
      cases limit with
      | zero => simp [firstDistinct]
      | succ limit =>
          rw [firstDistinct]
          split
          · exact ih (limit + 1) seen
          · rw [List.map_cons, List.nodup_cons]
            refine ⟨fun hMem => ?_, ih limit _⟩
            obtain ⟨d, hd, hReading⟩ := List.mem_map.1 hMem
            exact reading_not_mem_of_mem_firstDistinct hd (by simp [hReading])

/-- A reading is lost only if as many candidates as the limit allows have been kept. -/
theorem reading_mem_or_length_eq (limit : Nat) (seen : List (Derivation S))
    {ds : List (Derivation S)} {d : Derivation S} (h : d ∈ ds) :
    d.reading ∈ seen.map reading ∨ d.reading ∈ (firstDistinct limit seen ds).map reading ∨
      (firstDistinct limit seen ds).length = limit := by
  induction ds generalizing limit seen with
  | nil => cases h
  | cons e ds ih =>
      cases limit with
      | zero => simp [firstDistinct]
      | succ limit =>
          rw [firstDistinct]
          split
          · next hSeen =>
            rcases List.mem_cons.1 h with rfl | h
            · exact Or.inl (any_sameReading_iff.1 hSeen)
            · exact ih (limit + 1) seen h
          · rcases List.mem_cons.1 h with rfl | h
            · exact Or.inr (Or.inl (by simp))
            · have hRest := ih limit (seen ++ [e]) h
              simp only [List.map_append, List.map_cons, List.mem_append, List.mem_cons,
                List.length_cons] at hRest ⊢
              grind

variable [Scalar S]

/-- The kept candidate of a reading comes before all others of the reading. The candidates have to
be in order for this. -/
theorem precedes_of_mem_firstDistinct {limit : Nat} {seen ds : List (Derivation S)}
    (hRefl : ∀ d : Derivation S, precedes d d)
    (hSorted : ds.Pairwise fun a b => precedes a b) {kept d : Derivation S}
    (hKept : kept ∈ firstDistinct limit seen ds) (h : d ∈ ds)
    (hReading : kept.reading = d.reading) : precedes kept d := by
  induction ds generalizing limit seen with
  | nil => cases h
  | cons e ds ih =>
      obtain ⟨hFirst, hRest⟩ := List.pairwise_cons.1 hSorted
      cases limit with
      | zero => simp [firstDistinct] at hKept
      | succ limit =>
          rw [firstDistinct] at hKept
          split at hKept
          · next hSeen =>
            rcases List.mem_cons.1 h with rfl | h
            · have hNew := reading_not_mem_of_mem_firstDistinct hKept
              exact absurd (hReading ▸ any_sameReading_iff.1 hSeen) hNew
            · exact ih hRest hKept h
          · rcases List.mem_cons.1 hKept with rfl | hKept
            · rcases List.mem_cons.1 h with rfl | h
              · exact hRefl d
              · exact hFirst d h
            · rcases List.mem_cons.1 h with rfl | h
              · have hNew := reading_not_mem_of_mem_firstDistinct hKept
                exact absurd (by simp [hReading]) hNew
              · exact ih hRest hKept h

/-- A candidate goes behind all those that it does not precede. -/
theorem orderedInsert_append {before after : List (Derivation S)} {d : Derivation S}
    (hBefore : ∀ e ∈ before, ¬precedes d e) (hAfter : ∀ e ∈ after, precedes d e) :
    (before ++ after).orderedInsert (fun a b => precedes a b) d = before ++ d :: after := by
  induction before with
  | nil =>
      cases after with
      | nil => rfl
      | cons e after =>
          rw [List.nil_append, List.orderedInsert_cons, if_pos (hAfter e List.mem_cons_self),
            List.nil_append]
  | cons e before ih =>
      rw [List.cons_append, List.orderedInsert_cons, if_neg (hBefore e List.mem_cons_self),
        ih fun b hb => hBefore b (List.mem_cons_of_mem e hb), List.cons_append]

theorem mem_of_mem_prune {limit : Nat} {ds : List (Derivation S)} {d : Derivation S}
    (h : d ∈ prune limit ds) : d ∈ ds :=
  List.mem_mergeSort.1 (mem_of_mem_firstDistinct h)

theorem nodup_readings_prune (limit : Nat) (ds : List (Derivation S)) :
    ((prune limit ds).map reading).Nodup :=
  nodup_readings_firstDistinct limit [] _

/-- The best candidate of a symbol is missing only if the symbol has none. The scores do not
matter, not even those that are not numbers. -/
theorem best?_eq_none_iff {symbol : SymbolId} {ds : List (Derivation S)} :
    best? symbol ds = none ↔ ∀ d ∈ ds, d.lhs ≠ symbol := by
  have hSome (ds : List (Derivation S)) (kept : Derivation S) :
      ds.foldl better (some kept) ≠ none := by
    induction ds generalizing kept with
    | nil => simp
    | cons d ds ih =>
        rw [List.foldl_cons, better]
        split <;> exact ih _
  have hEmpty (ds : List (Derivation S)) : ds.foldl better none = none ↔ ds = [] := by
    cases ds with
    | nil => simp
    | cons d ds => simpa [better] using hSome ds d
  rw [best?, hEmpty, List.filter_eq_nil_iff]
  simp only [beq_iff_eq, ne_eq]

/-- The best candidate of a symbol is one of its candidates. -/
theorem mem_of_best?_eq_some {symbol : SymbolId} {ds : List (Derivation S)} {best : Derivation S}
    (h : best? symbol ds = some best) : best ∈ ds ∧ best.lhs = symbol := by
  have hBetter (kept : Option (Derivation S)) (d r : Derivation S) (h : better kept d = some r) :
      r = d ∨ kept = some r := by
    cases kept <;> grind [better]
  have hMem := (mem_or_eq_of_foldl_choice hBetter h).resolve_right (by simp)
  rw [List.mem_filter, beq_iff_eq] at hMem
  exact hMem

/-- A candidate with the greatest score so far stays the best where none has a higher one. -/
theorem foldl_better_of_forall_le {kept : Derivation S} {ds : List (Derivation S)}
    (h : ∀ d ∈ ds, Scalar.le d.score kept.score) : ds.foldl better (some kept) = some kept := by
  induction ds with
  | nil => rfl
  | cons d ds ih =>
      rw [List.foldl_cons, better, if_pos (h d List.mem_cons_self)]
      exact ih fun e he => h e (List.mem_cons_of_mem d he)

section Sorting

variable [OrderedScalar S]

theorem precedes_trans (a b c : Derivation S) (hab : precedes a b) (hbc : precedes b c) :
    precedes a c :=
  OrderedScalar.isLE_trans hbc hab

theorem precedes_total (a b : Derivation S) : precedes a b || precedes b a := by
  rw [Bool.or_eq_true]
  exact OrderedScalar.isLE_total b.score a.score

theorem pairwise_sorted (ds : List (Derivation S)) :
    (ds.mergeSort precedes).Pairwise fun a b => precedes a b :=
  List.pairwise_mergeSort precedes_trans precedes_total ds

/-- Sorting is stable, so it does not matter by which stable method it is done. The latter
computes by structural recursion. -/
theorem mergeSort_eq_insertionSort (ds : List (Derivation S)) :
    ds.mergeSort precedes = ds.insertionSort fun a b => precedes a b := by
  induction ds with
  | nil => simp
  | cons d ds ih =>
      obtain ⟨before, after, hCons, hRest, hBefore⟩ :=
        List.mergeSort_cons precedes_trans precedes_total d ds
      have hSorted := pairwise_sorted (d :: ds)
      rw [hCons, List.pairwise_append, List.pairwise_cons] at hSorted
      rw [List.insertionSort_cons, ← ih, hCons, hRest]
      exact (orderedInsert_append (by simpa using hBefore) hSorted.2.1.1).symm

/-- Pruning by the simpler way of sorting. -/
def pruneByInsertion (limit : Nat) (ds : List (Derivation S)) : List (Derivation S) :=
  firstDistinct limit [] (ds.insertionSort fun a b => precedes a b)

/-- Pruning can be computed with insertions instead, which is how cells of fixed queries are
evaluated. -/
theorem prune_eq_pruneByInsertion (limit : Nat) :
    (prune limit : List (Derivation S) → List (Derivation S)) = pruneByInsertion limit := by
  funext ds
  rw [prune, pruneByInsertion, mergeSort_eq_insertionSort]

/-- Candidates as pruning leaves them: not more than the limit, no reading twice, and no score above
that of a candidate before it. -/
structure IsPruned (limit : Nat) (ds : List (Derivation S)) : Prop where
  length_le : ds.length ≤ limit
  distinct : ds.Pairwise fun a b => ¬a.sameReading b
  sorted : ds.Pairwise fun a b => (Scalar.order b.score a.score).isLE

/-- Pruning leaves no more candidates than the limit, all with different readings and the better
ones first. -/
theorem isPruned_prune (limit : Nat) (ds : List (Derivation S)) :
    IsPruned limit (prune limit ds) where
  length_le := length_firstDistinct_le limit [] _
  distinct := by
    refine (List.pairwise_map.1 (nodup_readings_prune limit ds)).imp fun hNe hSame => ?_
    exact hNe (sameReading_iff.1 hSame)
  sorted := (pairwise_sorted ds).sublist (firstDistinct_sublist limit [] _)

/-- Of sorted candidates whose scores are numbers, the best one of a symbol is the first one. The
choice of the best one and sorting compare scores in different ways, and agree on ties. -/
theorem best?_eq_find? {symbol : SymbolId} {ds : List (Derivation S)}
    (hSorted : ds.Pairwise fun a b => (Scalar.order b.score a.score).isLE)
    (hNumbers : ∀ d ∈ ds, d.lhs = symbol → Scalar.IsNumber d.score) :
    best? symbol ds = ds.find? (·.lhs == symbol) := by
  have hOwn : ∀ d ∈ ds.filter (·.lhs == symbol), Scalar.IsNumber d.score := by
    intro d hd
    rw [List.mem_filter, beq_iff_eq] at hd
    exact hNumbers d hd.1 hd.2
  have hOrder := hSorted.filter (·.lhs == symbol)
  rw [best?, ← List.head?_filter]
  cases hSymbol : ds.filter (·.lhs == symbol) with
  | nil => rfl
  | cons first rest =>
      rw [hSymbol] at hOwn hOrder
      have hFirst := (List.pairwise_cons.1 hOrder).1
      refine foldl_better_of_forall_le fun d hd => ?_
      exact OrderedScalar.le_of_isLE (hOwn d (List.mem_cons_of_mem first hd))
        (hOwn first List.mem_cons_self) (hFirst d hd)

end Sorting

variable [MonotoneScalar S]

/-- Where one order compares all numbers, both ways of comparing scores are the same. -/
theorem precedes_iff {a b : Derivation S} :
    precedes a b = true ↔ Scalar.le b.score a.score = true := by
  rw [precedes, MonotoneScalar.isLE_order]

/-- Pruning keeps a candidate with the reading of a given one and at least its score, unless it
has reached the limit with other readings. A candidate is never dropped for a worse one of its own
reading. -/
theorem exists_mem_prune_or_length_eq (limit : Nat) {ds : List (Derivation S)} {d : Derivation S}
    (h : d ∈ ds) :
    (∃ kept ∈ prune limit ds, kept.reading = d.reading ∧ Scalar.le d.score kept.score) ∨
      ((prune limit ds).length = limit ∧ d.reading ∉ (prune limit ds).map reading) := by
  have hSorted : d ∈ ds.mergeSort precedes := List.mem_mergeSort.2 h
  by_cases hReading : d.reading ∈ (prune limit ds).map reading
  · obtain ⟨kept, hKept, hSame⟩ := List.mem_map.1 hReading
    have hRefl (d : Derivation S) : precedes d d := precedes_iff.2 (MonotoneScalar.le_refl _)
    have hFirst := precedes_of_mem_firstDistinct hRefl (pairwise_sorted ds) hKept hSorted hSame
    exact Or.inl ⟨kept, hKept, hSame, precedes_iff.1 hFirst⟩
  · rcases reading_mem_or_length_eq limit [] hSorted with hMem | hMem | hLength
    · cases hMem
    · exact absurd hMem hReading
    · exact Or.inr ⟨hLength, hReading⟩

/-- The choice goes on to a candidate that none exceeds. By induction on the candidates, with the
best one so far. -/
theorem foldl_better_spec (ds : List (Derivation S)) (kept : Derivation S) :
    ∃ best, ds.foldl better (some kept) = some best ∧ best ∈ kept :: ds ∧
      ∀ d ∈ kept :: ds, Scalar.le d.score best.score := by
  induction ds generalizing kept with
  | nil => exact ⟨kept, rfl, List.mem_cons_self, by simp [MonotoneScalar.le_refl]⟩
  | cons d ds ih =>
      rw [List.foldl_cons, better]
      split
      · next hLe =>
        obtain ⟨best, hBest, hMem, hAll⟩ := ih kept
        refine ⟨best, hBest, by grind, ?_⟩
        have hKept := hAll kept List.mem_cons_self
        intro e he
        rcases List.mem_cons.1 he with rfl | he
        · exact hKept
        · rcases List.mem_cons.1 he with rfl | he
          · exact MonotoneScalar.le_trans hLe hKept
          · exact hAll e (List.mem_cons_of_mem _ he)
      · next hNot =>
        obtain ⟨best, hBest, hMem, hAll⟩ := ih d
        refine ⟨best, hBest, List.mem_cons_of_mem _ hMem, ?_⟩
        have hLe : Scalar.le kept.score d.score :=
          (MonotoneScalar.le_total _ _).resolve_right hNot
        intro e he
        rcases List.mem_cons.1 he with rfl | he
        · exact MonotoneScalar.le_trans hLe (hAll d List.mem_cons_self)
        · exact hAll e he

/-- The best candidate of a symbol is one of its candidates, and none of them has a higher score. -/
theorem best?_spec {symbol : SymbolId} {ds : List (Derivation S)} {best : Derivation S}
    (h : best? symbol ds = some best) :
    best ∈ ds ∧ best.lhs = symbol ∧
      ∀ d ∈ ds, d.lhs = symbol → Scalar.le d.score best.score := by
  rw [best?] at h
  cases hSymbol : ds.filter (·.lhs == symbol) with
  | nil => simp [hSymbol] at h
  | cons d rest =>
      rw [hSymbol, List.foldl_cons, better] at h
      obtain ⟨found, hFound, hMem, hAll⟩ := foldl_better_spec rest d
      obtain rfl : found = best := Option.some.inj (hFound.symm.trans h)
      rw [← hSymbol] at hMem hAll
      simp only [List.mem_filter, beq_iff_eq] at hMem hAll
      exact ⟨hMem.1, hMem.2, fun d hd hLhs => hAll d ⟨hd, hLhs⟩⟩

end Candidates

end PlotQuery
