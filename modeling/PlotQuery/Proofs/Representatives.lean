import PlotQuery.Proofs.CrowdedCells

/-! What pruning keeps, said without sorting. Each reading has one representative, the earliest of
its candidates with the highest score. Pruning keeps the first representatives in the order of their
scores, so nothing that it drops is better than what it keeps instead. -/
namespace PlotQuery.Candidates

open PlotQuery.Derivation

variable {S : Type}

/-- The entries that are the first ones of their reading, apart from the readings already seen. -/
def leaders : List (SymbolId × Semantics) → List (Derivation S × Nat) → List (Derivation S × Nat)
  | _, [] => []
  | seen, e :: es =>
    if e.1.reading ∈ seen then leaders seen es else e :: leaders (seen ++ [e.1.reading]) es

theorem leaders_sublist (seen : List (SymbolId × Semantics)) (es : List (Derivation S × Nat)) :
    (leaders seen es).Sublist es := by
  induction es generalizing seen with
  | nil => exact List.Sublist.slnil
  | cons e es ih =>
      rw [leaders]
      split
      · exact (ih seen).cons e
      · exact (ih _).cons_cons e

/-- Up to a limit, the first candidates of each reading are the first leaders. The limit only cuts
off what comes behind. -/
theorem firstDistinct_map_fst (limit : Nat) (seen : List (Derivation S))
    (es : List (Derivation S × Nat)) :
    firstDistinct limit seen (es.map Prod.fst) =
      ((leaders (seen.map reading) es).take limit).map Prod.fst := by
  induction es generalizing limit seen with
  | nil => cases limit <;> simp [firstDistinct, leaders]
  | cons e es ih =>
      cases limit with
      | zero => simp [firstDistinct]
      | succ limit =>
          rw [List.map_cons, firstDistinct, leaders]
          by_cases hSeen : e.1.reading ∈ seen.map reading
          · rw [if_pos (any_sameReading_iff.2 hSeen), if_pos hSeen, ih]
          · rw [if_neg (mt any_sameReading_iff.1 hSeen), if_neg hSeen, ih, List.take_succ_cons,
              List.map_cons, List.map_append, List.map_singleton]

/-- Every reading that has not been seen has a leader. It is the first entry of the reading. -/
theorem exists_mem_leaders (seen : List (SymbolId × Semantics)) {es : List (Derivation S × Nat)}
    {e : Derivation S × Nat} (h : e ∈ es) :
    e.1.reading ∈ seen ∨ ∃ leader ∈ leaders seen es, leader.1.reading = e.1.reading := by
  induction es generalizing seen with
  | nil => cases h
  | cons first es ih =>
      rw [leaders]
      split
      · next hSeen =>
        rcases List.mem_cons.1 h with rfl | h
        · exact .inl hSeen
        · exact ih seen h
      · rcases List.mem_cons.1 h with rfl | h
        · exact .inr ⟨e, List.mem_cons_self, rfl⟩
        · rcases ih (seen ++ [first.1.reading]) h with hSeen | ⟨leader, hLeader, hSame⟩
          · rcases List.mem_append.1 hSeen with hSeen | hFirst
            · exact .inl hSeen
            · exact .inr ⟨first, List.mem_cons_self, (List.mem_singleton.1 hFirst).symm⟩
          · exact .inr ⟨leader, List.mem_cons_of_mem first hLeader, hSame⟩

/-- Nothing is pruned of candidates that differ from each other and are within the limit. So
pruning twice is pruning once. -/
theorem firstDistinct_eq_self {limit : Nat} {seen ds : List (Derivation S)}
    (hLength : ds.length ≤ limit) (hDistinct : ((seen ++ ds).map reading).Nodup) :
    firstDistinct limit seen ds = ds := by
  induction ds generalizing limit seen with
  | nil => cases limit <;> rfl
  | cons d ds ih =>
      obtain ⟨limit, rfl⟩ := Nat.exists_eq_add_of_le' (Nat.le_trans (Nat.succ_pos _) hLength)
      have hNew : d.reading ∉ seen.map reading := by
        rw [List.map_append, List.map_cons] at hDistinct
        exact fun hSeen => List.disjoint_of_nodup_append hDistinct hSeen List.mem_cons_self
      rw [firstDistinct, if_neg (mt any_sameReading_iff.1 hNew)]
      congr 1
      exact ih (Nat.le_of_succ_le_succ hLength) (by simpa using hDistinct)

variable [Scalar S]

/-- Pruning leaves pruned candidates as they are. They are in order already, and sorting is
stable. -/
theorem IsPruned.prune_eq_self {limit : Nat} {ds : List (Derivation S)} (h : IsPruned limit ds) :
    prune limit ds = ds := by
  have hDistinct : (([] ++ ds).map reading).Nodup :=
    List.pairwise_map.2 (h.distinct.imp fun hNot hSame => hNot (sameReading_iff.2 hSame))
  have hSorted : ds.mergeSort precedes = ds := List.mergeSort_of_pairwise h.sorted
  rw [prune, hSorted, firstDistinct_eq_self h.length_le hDistinct]

/-- A candidate, given with its place, that stands for its reading: no candidate of the reading has
a higher score, and none with as high a score has an earlier place. -/
structure Represents (ds : List (Derivation S)) (entry : Derivation S × Nat) : Prop where
  listed : entry ∈ ds.zipIdx
  highest : ∀ other ∈ ds.zipIdx, other.1.sameReading entry.1 →
    (Scalar.order other.1.score entry.1.score).isLE
  earliest : ∀ other ∈ ds.zipIdx, other.1.sameReading entry.1 →
    (Scalar.order entry.1.score other.1.score).isLE → entry.2 ≤ other.2

/-- Two representatives of one reading are the same entry, since neither outranks the other. -/
theorem Represents.eq {ds : List (Derivation S)} {e other : Derivation S × Nat}
    (h : Represents ds e) (hOther : Represents ds other)
    (hReading : e.1.reading = other.1.reading) : e = other := by
  have hThere := sameReading_iff.2 hReading
  have hBack := sameReading_iff.2 hReading.symm
  have hPlaces : e.2 = other.2 := Nat.le_antisymm
    (h.earliest other hOther.listed hBack (hOther.highest e h.listed hThere))
    (hOther.earliest e h.listed hThere (h.highest other hOther.listed hBack))
  have hFirst := List.mem_zipIdx_iff_getElem?.1 h.listed
  rw [hPlaces, List.mem_zipIdx_iff_getElem?.1 hOther.listed] at hFirst
  exact Prod.ext (Option.some.inj hFirst).symm hPlaces

/-- The representatives of all readings in the order of their scores, of equal scores the earlier
candidate first. -/
structure IsRanking (ds : List (Derivation S)) (ranking : List (Derivation S × Nat)) : Prop where
  mem_iff (entry : Derivation S × Nat) : entry ∈ ranking ↔ Represents ds entry
  ordered : ranking.Pairwise Outranks

/-- Among entries each of which outranks those behind it, the leaders are those that no entry of
their reading outranks. Entries are taken with their places here, which tell candidates of the
same score apart. -/
theorem mem_leaders_iff {seen : List (SymbolId × Semantics)} {es : List (Derivation S × Nat)}
    {e : Derivation S × Nat} (hOrder : es.Pairwise Outranks) :
    e ∈ leaders seen es ↔ e ∈ es ∧ e.1.reading ∉ seen ∧
      ∀ other ∈ es, other.1.reading = e.1.reading → ¬Outranks other e := by
  -- Nothing outranks the first entry, so it leads its reading unless the reading has been seen.
  induction es generalizing seen with
  | nil => simp [leaders]
  | cons first es ih =>
      obtain ⟨hFirst, hRest⟩ := List.pairwise_cons.1 hOrder
      rw [leaders]
      split
      · next hSeen =>
        rw [ih hRest, List.mem_cons, List.forall_mem_cons]
        constructor
        · rintro ⟨hMem, hNew, hAhead⟩
          refine ⟨.inr hMem, hNew, fun hSame => ?_, hAhead⟩
          exact absurd (hSame ▸ hSeen) hNew
        · rintro ⟨rfl | hMem, hNew, -, hAhead⟩
          · exact absurd hSeen hNew
          · exact ⟨hMem, hNew, hAhead⟩
      · next hNew =>
        rw [List.mem_cons, List.mem_cons, ih hRest, List.forall_mem_cons, List.mem_append,
          List.mem_singleton, not_or]
        constructor
        · rintro (rfl | ⟨hMem, ⟨hUnseen, hOther⟩, hAhead⟩)
          · exact ⟨.inl rfl, hNew, fun _ => not_outranks_self e,
              fun other hMem _ => (hFirst other hMem).asymm⟩
          · exact ⟨.inr hMem, hUnseen, fun hSame => absurd hSame.symm hOther, hAhead⟩
        · rintro ⟨rfl | hMem, hUnseen, hNotFirst, hAhead⟩
          · exact .inl rfl
          · refine .inr ⟨hMem, ⟨hUnseen, fun hSame => ?_⟩, hAhead⟩
            exact hNotFirst hSame.symm (hFirst e hMem)

/-- The representatives have one order only. Ranks are strict, so no two of them can change
places. -/
theorem IsRanking.eq {ds : List (Derivation S)} {ranking other : List (Derivation S × Nat)}
    (h : IsRanking ds ranking) (hOther : IsRanking ds other) : ranking = other := by
  have hNodup {entries : List (Derivation S × Nat)} (hOrder : entries.Pairwise Outranks) :
      entries.Nodup :=
    hOrder.imp fun {a b} hOutranks => by
      rintro rfl
      exact not_outranks_self a hOutranks
  have hPerm : ranking.Perm other :=
    (List.perm_ext_iff_of_nodup (hNodup h.ordered) (hNodup hOther.ordered)).2
      fun entry => (h.mem_iff entry).trans (hOther.mem_iff entry).symm
  exact hPerm.eq_of_pairwise (fun _ _ _ _ hab hba => absurd hba hab.asymm) h.ordered hOther.ordered

variable [OrderedScalar S]

/-- The representatives are the candidates that none of their reading outranks. -/
theorem represents_iff {ds : List (Derivation S)} {e : Derivation S × Nat} :
    Represents ds e ↔ e ∈ ds.zipIdx ∧
      ∀ other ∈ ds.zipIdx, other.1.reading = e.1.reading → ¬Outranks other e := by
  constructor
  · rintro ⟨hListed, hHighest, hEarliest⟩
    refine ⟨hListed, fun other hOther hSame ⟨hAhead, hTie⟩ => ?_⟩
    have hReading := sameReading_iff.2 hSame
    have hLater := hEarliest other hOther hReading hAhead
    exact Nat.not_lt_of_le hLater (hTie (hHighest other hOther hReading))
  · rintro ⟨hListed, hAhead⟩
    have hHighest (other : Derivation S × Nat) (hOther : other ∈ ds.zipIdx)
        (hSame : other.1.sameReading e.1) : precedes e.1 other.1 := by
      by_contra hLower
      have hHigher : precedes other.1 e.1 :=
        (OrderedScalar.isLE_total other.1.score e.1.score).resolve_left hLower
      exact hAhead other hOther (sameReading_iff.1 hSame)
        ⟨hHigher, fun hBack => absurd hBack hLower⟩
    refine ⟨hListed, hHighest, fun other hOther hSame hTie => ?_⟩
    by_contra hEarlier
    exact hAhead other hOther (sameReading_iff.1 hSame) ⟨hTie, fun _ => Nat.not_le.1 hEarlier⟩

/-- The leaders of the sorted entries are the ranking. -/
theorem isRanking_leaders (ds : List (Derivation S)) : IsRanking ds (leaders [] (ranked ds)) where
  mem_iff entry := by
    rw [mem_leaders_iff (pairwise_ranked ds), represents_iff]
    simp only [mem_ranked_iff, List.not_mem_nil, not_false_eq_true, true_and]
  ordered := (pairwise_ranked ds).sublist (leaders_sublist [] _)

/-- Pruning keeps the first representatives in the order of their ranking. -/
theorem IsRanking.prune_eq {ds : List (Derivation S)} {ranking : List (Derivation S × Nat)}
    (h : IsRanking ds ranking) (limit : Nat) :
    prune limit ds = (ranking.take limit).map Prod.fst := by
  rw [h.eq (isRanking_leaders ds), prune, ← ranked_map_fst, firstDistinct_map_fst, List.map_nil]

/-- A reading has one representative. It need not be kept. -/
theorem existsUnique_represents {ds : List (Derivation S)} {d : Derivation S} (h : d ∈ ds) :
    ∃! entry, Represents ds entry ∧ entry.1.sameReading d := by
  obtain ⟨place, hPlace⟩ := List.getElem?_of_mem h
  have hListed : (d, place) ∈ ranked ds :=
    mem_ranked_iff.2 (List.mem_zipIdx_iff_getElem?.2 hPlace)
  obtain ⟨leader, hLeader, hSame⟩ := (exists_mem_leaders [] hListed).resolve_left List.not_mem_nil
  have hLeads := ((isRanking_leaders ds).mem_iff leader).1 hLeader
  refine ⟨leader, ⟨hLeads, sameReading_iff.2 hSame⟩, ?_⟩
  rintro other ⟨hOther, hOtherSame⟩
  exact hOther.eq hLeads ((sameReading_iff.1 hOtherSame).trans hSame.symm)

/-- A candidate is kept in its representative, or as many as the limit allows are kept and none of
them has a lower score. -/
theorem exists_mem_prune_or_forall_isLE (limit : Nat) {ds : List (Derivation S)} {d : Derivation S}
    (h : d ∈ ds) :
    (∃ kept ∈ prune limit ds, kept.sameReading d ∧ (Scalar.order d.score kept.score).isLE) ∨
      ((prune limit ds).length = limit ∧
        ∀ kept ∈ prune limit ds, (Scalar.order d.score kept.score).isLE) := by
  obtain ⟨entry, ⟨hEntry, hSame⟩, -⟩ := existsUnique_represents h
  obtain ⟨place, hPlace⟩ := List.getElem?_of_mem h
  have hScore : (Scalar.order d.score entry.1.score).isLE :=
    hEntry.highest (d, place) (List.mem_zipIdx_iff_getElem?.2 hPlace)
      (sameReading_iff.2 (sameReading_iff.1 hSame).symm)
  have hRanking := isRanking_leaders ds
  generalize leaders [] (ranked ds) = ranking at hRanking
  have hListed := (hRanking.mem_iff entry).2 hEntry
  have hOrder := hRanking.ordered
  rw [← List.take_append_drop limit ranking] at hListed hOrder
  rw [hRanking.prune_eq]
  rcases List.mem_append.1 hListed with hKept | hDropped
  · exact .inl ⟨entry.1, List.mem_map_of_mem hKept, hSame, hScore⟩
  · have hRoom := List.length_pos_of_mem hDropped
    rw [List.length_drop] at hRoom
    refine .inr ⟨by rw [List.length_map, List.length_take]; omega, fun kept hKept => ?_⟩
    obtain ⟨ahead, hAhead, rfl⟩ := List.mem_map.1 hKept
    have hOutranks := (List.pairwise_append.1 hOrder).2.2 ahead hAhead entry hDropped
    exact OrderedScalar.isLE_trans hScore hOutranks.1

/-- Each reading has one representative, the representatives have one ranking, and pruning keeps the
first of them up to the limit. A candidate is dropped only for one of its reading, or for as many as
the limit allows, whose scores are not lower. Pruning again changes nothing. -/
theorem prune_eq_take_ranking (ds : List (Derivation S)) :
    (∀ d ∈ ds, ∃! entry, Represents ds entry ∧ entry.1.sameReading d) ∧
    (∃! ranking, IsRanking ds ranking) ∧
    ∀ limit,
      (∀ ranking, IsRanking ds ranking → prune limit ds = (ranking.take limit).map Prod.fst) ∧
      (∀ d ∈ ds,
        (∃ kept ∈ prune limit ds, kept.sameReading d ∧
          (Scalar.order d.score kept.score).isLE) ∨
        ((prune limit ds).length = limit ∧
          ∀ kept ∈ prune limit ds, (Scalar.order d.score kept.score).isLE)) ∧
      prune limit (prune limit ds) = prune limit ds := by
  have hRanking := isRanking_leaders ds
  refine ⟨fun d hd => existsUnique_represents hd,
    ⟨_, hRanking, fun other hOther => hOther.eq hRanking⟩, fun limit => ⟨?_, ?_, ?_⟩⟩
  · exact fun ranking h => h.prune_eq limit
  · exact fun d hd => exists_mem_prune_or_forall_isLE limit hd
  · exact (isPruned_prune limit ds).prune_eq_self

def scored (value : String) (score : Float) : Derivation Float :=
  .leaf 0 (Semantics.empty.insert valueKey value) score

/-- Candidates with ties, both zeros, an infinite score and a score that is no number. -/
def tiedCandidates : List (Derivation Float) :=
  [scored "a" 0, scored "b" (1 / 0), scored "a" (-0), scored "c" 0.5, scored "d" (0 / 0),
    scored "e" 0.5, scored "c" 0.5, scored "f" (-0), scored "b" 2]

/-- Each reading is kept once, and candidates of the same score stay in the order in which they
were found. A score that is not a number comes first. -/
theorem prune_eq_take_ranking_tiedCandidates :
    (∃ ranking, IsRanking tiedCandidates ranking ∧
      prune 5 tiedCandidates = (ranking.take 5).map Prod.fst) ∧
    (prune 5 tiedCandidates).map (·.semantics.get? valueKey) =
      [some "d", some "b", some "c", some "e", some "a"] ∧
    prune 5 (prune 5 tiedCandidates) = prune 5 tiedCandidates := by
  obtain ⟨-, ⟨ranking, hRanking, -⟩, hPrune⟩ := prune_eq_take_ranking tiedCandidates
  obtain ⟨hTake, -, hAgain⟩ := hPrune 5
  refine ⟨⟨ranking, hRanking, hTake ranking hRanking⟩, ?_, hAgain⟩
  rw [prune_eq_pruneByInsertion]
  decide +kernel

end PlotQuery.Candidates
