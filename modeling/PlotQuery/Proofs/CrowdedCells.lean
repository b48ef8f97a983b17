import PlotQuery.Proofs.FinishedChart
import PlotQuery.Proofs.RuleNumbering
import PlotQuery.Proofs.SchemaClosure

/-! Cells with more candidates than they may hold. The limit counts the candidates of all symbols, so
a symbol that has been found for the whole query can be lost. It is kept just where one of its
candidates has fewer readings ahead of it than the limit allows. -/
namespace PlotQuery

theorem exists_split_cons_iff {α : Type} {P : List α → α → Prop} {a : α} {members : List α} :
    (∃ before b after, a :: members = before ++ b :: after ∧ P before b) ↔
      P [] a ∨ ∃ before b after, members = before ++ b :: after ∧ P (a :: before) b := by
  constructor
  · rintro ⟨before, b, after, hSplit, h⟩
    cases before with
    | nil =>
        obtain ⟨rfl, rfl⟩ := List.cons.inj hSplit
        exact .inl h
    | cons first before =>
        obtain ⟨rfl, rfl⟩ := List.cons.inj hSplit
        exact .inr ⟨before, b, after, rfl, h⟩
  · rintro (h | ⟨before, b, after, rfl, h⟩)
    · exact ⟨[], a, members, rfl, h⟩
    · exact ⟨a :: before, b, after, rfl, h⟩

theorem card_insert_sdiff_lt_succ_iff {α : Type} [DecidableEq α] {s t : Finset α} {a : α}
    {limit : Nat} (h : a ∉ t) :
    (insert a s \ t).card < limit + 1 ↔ (s \ insert a t).card < limit := by
  have hMem : a ∈ insert a (s \ t) := Finset.mem_insert_self a _
  rw [Finset.insert_sdiff_of_notMem s h, ← Finset.card_erase_add_one hMem,
    Finset.erase_insert_eq_erase, ← Finset.sdiff_insert, Nat.add_lt_add_iff_right]

namespace Candidates

open PlotQuery.Derivation

section Readings

variable {S : Type}

/-- A reading is kept where fewer others than the limit allows come before one of its candidates.
Those that come before it count once for each reading, however many candidates they have. -/
theorem mem_readings_firstDistinct_iff {limit : Nat} {seen ds : List (Derivation S)}
    {r : SymbolId × Semantics} :
    r ∈ (firstDistinct limit seen ds).map reading ↔ r ∉ seen.map reading ∧
      ∃ before d after, ds = before ++ d :: after ∧ d.reading = r ∧
        ((before.map reading).toFinset \ (seen.map reading).toFinset).card < limit := by
  induction ds generalizing limit seen with
  | nil => cases limit <;> simp [firstDistinct]
  | cons e ds ih =>
      cases limit with
      | zero => simp [firstDistinct]
      | succ limit =>
          rw [firstDistinct, exists_split_cons_iff]
          split
          · next hSeen =>
            have hOld : e.reading ∈ (seen.map reading).toFinset :=
              List.mem_toFinset.2 (any_sameReading_iff.1 hSeen)
            simp only [ih, List.map_cons, List.toFinset_cons, Finset.insert_sdiff_of_mem _ hOld]
            refine and_congr_right fun hNew => (or_iff_right ?_).symm
            rintro ⟨rfl, -⟩
            exact hNew (any_sameReading_iff.1 hSeen)
          · next hUnseen =>
            have hNew : e.reading ∉ (seen.map reading).toFinset := fun hOld =>
              hUnseen (any_sameReading_iff.2 (List.mem_toFinset.1 hOld))
            have hSeen : ((seen ++ [e]).map reading).toFinset =
                insert e.reading (seen.map reading).toFinset := by
              ext
              simp
            simp only [List.map_cons, List.mem_cons, ih, hSeen, List.toFinset_cons,
              card_insert_sdiff_lt_succ_iff hNew]
            by_cases hHere : e.reading = r
            · subst hHere
              refine iff_of_true (.inl rfl) ⟨fun hOld => hNew (List.mem_toFinset.2 hOld), .inl ?_⟩
              simp
            · simp [hHere, Ne.symm hHere]

/-- A symbol is kept where fewer readings than the limit allows come before one of its candidates.
It may be another candidate of the same reading that is kept. -/
theorem exists_mem_firstDistinct_iff {limit : Nat} {ds : List (Derivation S)} {symbol : SymbolId} :
    (∃ kept ∈ firstDistinct limit [] ds, kept.lhs = symbol) ↔
      ∃ before d after, ds = before ++ d :: after ∧ d.lhs = symbol ∧
        (before.map reading).toFinset.card < limit := by
  constructor
  · rintro ⟨kept, hKept, hSymbol⟩
    obtain ⟨-, before, d, after, hSplit, hReading, hFew⟩ :=
      mem_readings_firstDistinct_iff.1 (List.mem_map_of_mem hKept)
    refine ⟨before, d, after, hSplit, (reading_eq_iff.1 hReading).1.trans hSymbol, ?_⟩
    simpa using hFew
  · rintro ⟨before, d, after, hSplit, hSymbol, hFew⟩
    have hReading : d.reading ∈ (firstDistinct limit [] ds).map reading :=
      mem_readings_firstDistinct_iff.2
        ⟨by simp, before, d, after, hSplit, rfl, by simpa using hFew⟩
    obtain ⟨kept, hKept, hSame⟩ := List.mem_map.1 hReading
    exact ⟨kept, hKept, (reading_eq_iff.1 hSame).1.trans hSymbol⟩

end Readings

variable {S : Type} [Scalar S]

/-- There is a best tree for a symbol just where there is any. -/
theorem exists_best?_iff {ds : List (Derivation S)} {symbol : SymbolId} :
    (∃ best, best? symbol ds = some best) ↔ ∃ d ∈ ds, d.lhs = symbol := by
  rw [← Option.ne_none_iff_exists', Ne, best?_eq_none_iff]
  push Not
  rfl

/-- A reading is kept if there are no more readings than the limit. This does not depend on the
scores. -/
theorem exists_mem_prune_of_card_le {limit : Nat} {ds : List (Derivation S)} {d : Derivation S}
    (h : d ∈ ds) (hCard : (ds.map reading).toFinset.card ≤ limit) :
    ∃ kept ∈ prune limit ds, kept.reading = d.reading := by
  by_contra hLost
  have hReading : d.reading ∉ (prune limit ds).map reading := fun hMem =>
    hLost (List.mem_map.1 hMem)
  have hLength : (prune limit ds).length = limit :=
    ((reading_mem_or_length_eq limit [] (List.mem_mergeSort.2 h)).resolve_left (by simp)).resolve_left
      hReading
  have hSubset : insert d.reading ((prune limit ds).map reading).toFinset ⊆
      (ds.map reading).toFinset := by
    intro r hr
    rw [Finset.mem_insert, List.mem_toFinset, List.mem_map] at hr
    rw [List.mem_toFinset, List.mem_map]
    rcases hr with rfl | ⟨kept, hKept, rfl⟩
    · exact ⟨d, h, rfl⟩
    · exact ⟨kept, mem_of_mem_prune hKept, rfl⟩
  have hMore := Finset.card_le_card hSubset
  rw [Finset.card_insert_of_notMem (fun hMem => hReading (List.mem_toFinset.1 hMem)),
    List.toFinset_card_of_nodup (nodup_readings_prune limit ds), List.length_map, hLength] at hMore
  omega

/-- Whether a candidate, given with its place, goes ahead of another one: its score is higher, or not
lower and its place is earlier. -/
def Outranks (a b : Derivation S × Nat) : Prop :=
  precedes a.1 b.1 ∧ (precedes b.1 a.1 → a.2 < b.2)

instance (a b : Derivation S × Nat) : Decidable (Outranks a b) :=
  inferInstanceAs (Decidable (_ ∧ _))

/-- The readings of the candidates that go ahead of a given one. -/
def readingsAhead (ds : List (Derivation S)) (entry : Derivation S × Nat) :
    Finset (SymbolId × Semantics) :=
  ((ds.zipIdx.filter (Outranks · entry)).map (·.1.reading)).toFinset

/-- Candidates of the same rank are ordered by their places, as sorting is stable. -/
theorem zipIdxLE_precedes_iff {a b : Derivation S × Nat} :
    List.zipIdxLE precedes a b = true ↔ precedes a.1 b.1 ∧ (precedes b.1 a.1 → a.2 ≤ b.2) := by
  cases hab : precedes a.1 b.1 <;> cases hba : precedes b.1 a.1 <;> simp [List.zipIdxLE, hab, hba]

theorem not_outranks_self (a : Derivation S × Nat) : ¬Outranks a a :=
  fun h => Nat.lt_irrefl _ (h.2 h.1)

/-- No two candidates outrank each other, since one place is before the other. -/
theorem Outranks.asymm {a b : Derivation S × Nat} (h : Outranks a b) : ¬Outranks b a :=
  fun hBack => Nat.lt_asymm (h.2 hBack.1) (hBack.2 h.1)

/-- The candidates with their places, those ahead of others first. -/
def ranked (ds : List (Derivation S)) : List (Derivation S × Nat) :=
  ds.zipIdx.mergeSort (List.zipIdxLE precedes)

theorem ranked_map_fst (ds : List (Derivation S)) :
    (ranked ds).map Prod.fst = ds.mergeSort precedes :=
  List.mergeSort_zipIdx

theorem mem_ranked_iff {ds : List (Derivation S)} {entry : Derivation S × Nat} :
    entry ∈ ranked ds ↔ entry ∈ ds.zipIdx :=
  List.mem_mergeSort

variable [OrderedScalar S]

/-- In the sorted list each candidate outranks those behind it. -/
theorem pairwise_ranked (ds : List (Derivation S)) : (ranked ds).Pairwise Outranks := by
  have hSorted : (ranked ds).Pairwise fun a b => List.zipIdxLE precedes a b = true :=
    List.pairwise_mergeSort (List.zipIdxLE_trans precedes_trans)
      (List.zipIdxLE_total precedes_total) _
  have hPlaces : (ranked ds).Pairwise fun a b => a.2 ≠ b.2 := by
    apply List.pairwise_map.1
    change ((ranked ds).map Prod.snd).Nodup
    rw [ranked, ((List.mergeSort_perm _ _).map Prod.snd).nodup_iff, List.zipIdx_map_snd]
    exact List.nodup_range'
  refine (hSorted.and hPlaces).imp fun ⟨hLE, hNe⟩ => ?_
  obtain ⟨hPrecedes, hTie⟩ := zipIdxLE_precedes_iff.1 hLE
  exact ⟨hPrecedes, fun hBack => lt_of_le_of_ne (hTie hBack) hNe⟩

/-- What stands before an entry in the order of ranks is what goes ahead of it. So the readings in
front can be counted without sorting. -/
theorem readingsAhead_of_split {ds : List (Derivation S)} {entry : Derivation S × Nat}
    {before after : List (Derivation S × Nat)} (h : ranked ds = before ++ entry :: after) :
    readingsAhead ds entry = ((before.map Prod.fst).map reading).toFinset := by
  have hOrder := pairwise_ranked ds
  rw [h, List.pairwise_append, List.pairwise_cons] at hOrder
  obtain ⟨-, ⟨hAfter, -⟩, hBefore⟩ := hOrder
  have hAhead (other : Derivation S × Nat) :
      other ∈ ds.zipIdx ∧ Outranks other entry ↔ other ∈ before := by
    rw [← mem_ranked_iff, h, List.mem_append, List.mem_cons]
    constructor
    · rintro ⟨hOther | rfl | hOther, hOutranks⟩
      · exact hOther
      · exact absurd hOutranks (not_outranks_self other)
      · exact absurd hOutranks (hAfter other hOther).asymm
    · exact fun hOther => ⟨.inl hOther, hBefore other hOther entry List.mem_cons_self⟩
  ext r
  simp only [readingsAhead, List.mem_toFinset, List.mem_map, List.mem_filter, decide_eq_true_eq,
    hAhead]
  simp

/-- Pruning keeps a symbol just where a candidate of it has fewer readings ahead than the limit. -/
theorem exists_mem_prune_iff {limit : Nat} {ds : List (Derivation S)} {symbol : SymbolId} :
    (∃ kept ∈ prune limit ds, kept.lhs = symbol) ↔
      ∃ entry ∈ ds.zipIdx, entry.1.lhs = symbol ∧ (readingsAhead ds entry).card < limit := by
  rw [prune, exists_mem_firstDistinct_iff]
  constructor
  · rintro ⟨before, d, after, hSplit, hSymbol, hFew⟩
    rw [← ranked_map_fst] at hSplit
    obtain ⟨before, rest, hRanked, rfl, hRest⟩ := List.map_eq_append_iff.1 hSplit
    obtain ⟨entry, after, rfl, rfl, -⟩ := List.map_eq_cons_iff.1 hRest
    refine ⟨entry, mem_ranked_iff.1 (by simp [hRanked]), hSymbol, ?_⟩
    rwa [readingsAhead_of_split hRanked]
  · rintro ⟨entry, hEntry, hSymbol, hFew⟩
    obtain ⟨before, after, hRanked⟩ := List.mem_iff_append.1 (mem_ranked_iff.2 hEntry)
    refine ⟨before.map Prod.fst, entry.1, after.map Prod.fst, ?_, hSymbol, ?_⟩
    · rw [← ranked_map_fst, hRanked, List.map_append, List.map_cons]
    · rwa [← readingsAhead_of_split hRanked]

end Candidates

namespace Grammar

variable {S : Type} [Scalar S] (grammar : Grammar S) (schema : Schema S) (query : Query)

/-- The candidates for a whole query before they are pruned: what the annotators find, and what each
rule derives in its turn. A query without tokens has none. -/
def candidates : List (Derivation S) :=
  if 0 < query.size then
    grammar.gather schema query (grammar.chart schema query).cell 0 query.size grammar.rules
  else []

/-- The cell of a whole query is what pruning leaves of its candidates. -/
theorem cell_chart_eq_prune_candidates :
    (grammar.chart schema query).cell 0 query.size =
      Candidates.prune grammar.settings.cellLimit (grammar.candidates schema query) := by
  by_cases hSize : 0 < query.size
  · rw [candidates, if_pos hSize, cell_chart _ _ _ (Nat.zero_le _) le_rfl,
      spanCell_eq_prune_gather _ _ _ hSize]
    refine congrArg _ (grammar.gather_eq_of_cells schema query _ _ hSize _ ?_)
    intro a b _ hab hb _
    exact (grammar.cell_chart schema query (hab.le.trans hb) hb).symm
  · rw [candidates, if_neg hSize, grammar.cell_chart_eq_nil schema query (Nat.le_of_not_lt hSize)]
    exact (List.eq_nil_iff_forall_not_mem.2 fun d hd => List.not_mem_nil
      (Candidates.mem_of_mem_prune hd)).symm

/-- The parse is the best candidate of the root among those that pruning keeps. -/
theorem parseQuery_eq_best?_prune : grammar.parseQuery schema query =
    Candidates.best? grammar.root
      (Candidates.prune grammar.settings.cellLimit (grammar.candidates schema query)) := by
  rw [parseQuery, Chart.best?, size_chart, cell_chart_eq_prune_candidates]

variable [OrderedScalar S]

/-- A query has a parse just where a candidate of the root has fewer readings ahead of it than the
limit allows, be they of the root or not. The parse is one of the candidates. In particular a root
that is found is not lost where there are no more readings than the limit. -/
theorem exists_parseQuery_iff_fewer_ahead :
    (∀ best, grammar.parseQuery schema query = some best →
      best ∈ grammar.candidates schema query ∧ best.lhs = grammar.root) ∧
    ((∃ best, grammar.parseQuery schema query = some best) ↔
      ∃ entry ∈ (grammar.candidates schema query).zipIdx, entry.1.lhs = grammar.root ∧
        (Candidates.readingsAhead (grammar.candidates schema query) entry).card <
          grammar.settings.cellLimit) ∧
    (((grammar.candidates schema query).map Derivation.reading).toFinset.card ≤
        grammar.settings.cellLimit →
      ((∃ best, grammar.parseQuery schema query = some best) ↔
        ∃ d ∈ grammar.candidates schema query, d.lhs = grammar.root)) := by
  rw [parseQuery_eq_best?_prune, Candidates.exists_best?_iff]
  refine ⟨fun best hBest => ?_, Candidates.exists_mem_prune_iff, fun hCard => ⟨?_, ?_⟩⟩
  · obtain ⟨hMem, hRoot⟩ := Candidates.mem_of_best?_eq_some hBest
    exact ⟨Candidates.mem_of_mem_prune hMem, hRoot⟩
  · rintro ⟨kept, hMem, hRoot⟩
    exact ⟨kept, Candidates.mem_of_mem_prune hMem, hRoot⟩
  · rintro ⟨d, hd, hRoot⟩
    obtain ⟨kept, hMem, hReading⟩ := Candidates.exists_mem_prune_of_card_le hd hCard
    exact ⟨kept, hMem, (Derivation.reading_eq_iff.1 hReading).1.trans hRoot⟩

/-- The names of twenty-one symbols, the root first. -/
def crowdedNames : List String :=
  ["Root", "A", "B", "C", "D", "E", "F", "G", "H", "I", "J", "K", "L", "M", "N", "O", "P", "Q", "R",
    "S", "T"]

/-- A grammar that reads the same word as each of the symbols. -/
def crowdedText : String :=
  Text.join productionGlue (crowdedNames.map (· ++ " := \"plot\""))

def plotQuery : Query :=
  ⟨[⟨"plot", "plot"⟩]⟩

/-- The text has one production for each of the names, and they are numbered from the last to the
first. -/
theorem read_crowdedText (settings : Settings Float) : read settings [] crowdedText =
    ofProductions settings []
      (crowdedNames.map fun name => ⟨name, [⟨.words ["plot"], none⟩]⟩).reverse := by
  refine read_eq_ofProductions ?_
  rw [crowdedText, productionTexts_join (by decide) (by decide +kernel)]
  exact PlotGrammar.eq_ok_of_toOption (by decide +kernel)

/-- Settings under which a cell has room for one derivation more. -/
def roomierSettings : Settings Float :=
  { Settings.standard with cellLimit := 21 }

/-- A limit of one more makes room for the root. Nothing else in the settings differs. -/
theorem exists_parseQuery_roomierSettings :
    ∃ grammar, read roomierSettings [] crowdedText = .ok grammar ∧
      grammar.settings.cellLimit = 21 ∧
      ((grammar.candidates doubleBarSchema plotQuery).map Derivation.reading).toFinset.card = 21 ∧
      ∃ best, grammar.parseQuery doubleBarSchema plotQuery = some best ∧
        best.lhs = grammar.root := by
  have hRun : (read roomierSettings [] crowdedText).toOption.map (fun grammar =>
      (grammar.settings.cellLimit,
        ((grammar.candidates doubleBarSchema plotQuery).map Derivation.reading).toFinset.card,
        decide (∃ d ∈ grammar.candidates doubleBarSchema plotQuery, d.lhs = grammar.root))) =
          some (21, 21, true) := by
    rw [read_crowdedText]
    decide +kernel
  obtain ⟨grammar, hSome, hGrammar⟩ := Option.map_eq_some_iff.1 hRun
  simp only [Prod.mk.injEq, decide_eq_true_eq] at hGrammar
  obtain ⟨hLimit, hCard, hFound⟩ := hGrammar
  obtain ⟨hParse, -, hFew⟩ :=
    exists_parseQuery_iff_fewer_ahead grammar doubleBarSchema plotQuery
  obtain ⟨best, hBest⟩ := (hFew (by rw [hCard, hLimit])).2 hFound
  exact ⟨grammar, PlotGrammar.eq_ok_of_toOption hSome, hLimit, hCard, best, hBest,
    (hParse best hBest).2⟩

/-- With the usual limit the root is found and then lost. It is behind as many other readings of
the same word as the limit allows. -/
theorem root_is_lost_of_crowdedText :
    ∃ grammar, read (Settings.standard : Settings Float) [] crowdedText = .ok grammar ∧
      (∃ d ∈ grammar.candidates doubleBarSchema plotQuery, d.lhs = grammar.root) ∧
      grammar.parseQuery doubleBarSchema plotQuery = none := by
  have hRun : (read (Settings.standard : Settings Float) [] crowdedText).toOption.map
      (fun grammar =>
        (decide (∃ d ∈ grammar.candidates doubleBarSchema plotQuery, d.lhs = grammar.root),
          (Candidates.best? grammar.root
            (listedCell (grammar.cellList doubleBarSchema plotQuery) 0 1)).isNone)) =
              some (true, true) := by
    rw [read_crowdedText]
    decide +kernel
  obtain ⟨grammar, hSome, hGrammar⟩ := Option.map_eq_some_iff.1 hRun
  simp only [Prod.mk.injEq, decide_eq_true_eq, Option.isNone_iff_eq_none] at hGrammar
  refine ⟨grammar, PlotGrammar.eq_ok_of_toOption hSome, hGrammar.1, ?_⟩
  rw [parseQuery_eq_best?_listedCell]
  exact hGrammar.2

end Grammar

end PlotQuery
