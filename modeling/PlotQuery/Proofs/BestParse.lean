import Mathlib.Data.Set.Card
import PlotQuery.Proofs.MergeLaws
import PlotQuery.Proofs.SpanLocality

/-! The best parse. Under a condition on the order of the rules, and where the limit on candidates
is not exceeded, the parse of a query has the highest score of all trees that derive the root for
it. -/
namespace PlotQuery.Grammar

/-- Every rule stands before the unary rules whose child is its symbol. A unary rule then finds all
derivations of its child on its own span. -/
def Layered (rules : List Rule) : Prop :=
  ∀ earlier later : Fin rules.length,
    (rules.get later).body = .unary (rules.get earlier).lhs → earlier < later

instance (rules : List Rule) : Decidable (Layered rules) :=
  inferInstanceAs (Decidable (∀ earlier later : Fin rules.length,
    (rules.get later).body = .unary (rules.get earlier).lhs → earlier < later))

/-- Neither a unary rule nor any rule behind it is for the symbol of its child, so the trees for
the child are complete when the rule has its turn. -/
theorem Layered.lhs_ne {before after : List Rule} {rule : Rule} {symbol : SymbolId}
    (h : Layered (before ++ rule :: after)) (body : rule.body = .unary symbol) :
    ∀ later ∈ rule :: after, later.lhs ≠ symbol := by
  intro later hLater hSymbol
  obtain ⟨i, hi, rfl⟩ := List.mem_iff_getElem.1 hLater
  have hOrder := h ⟨before.length + i, by simpa using hi⟩ ⟨before.length, by simp⟩
  simp only [List.get_eq_getElem, List.getElem_append_right (Nat.le_add_right _ i),
    List.getElem_append_right (Nat.le_refl before.length), Nat.add_sub_cancel_left, Nat.sub_self,
    List.getElem_cons_zero, body, hSymbol, Fin.mk_lt_mk, forall_const] at hOrder
  omega

variable {S : Type} [Scalar S] {grammar : Grammar S} {schema : Schema S} {query : Query}
  {start stop : Nat} {d : Derivation S}

/-- No score and no factor that enters a score is negative. -/
structure NonnegativeScores (grammar : Grammar S) (schema : Schema S) : Prop where
  noisePenalty : Scalar.le Scalar.zero grammar.settings.noisePenalty
  repeatPenalty : Scalar.le Scalar.zero grammar.settings.merge.repeatPenalty
  findings : ∀ entry ∈ grammar.annotators, ∀ span finding,
    entry.2.annotate span schema = some finding → Scalar.le Scalar.zero finding.score

/-- The readings of all trees that derive a span. -/
def readings (grammar : Grammar S) (schema : Schema S) (query : Query) (start stop : Nat) :
    Set (SymbolId × Semantics) :=
  {reading | ∃ d, grammar.Derives schema query start stop d ∧ d.reading = reading}

/-- No span has more readings than a cell can hold. -/
def FitsLimit (grammar : Grammar S) (schema : Schema S) (query : Query) : Prop :=
  ∀ start stop, (grammar.readings schema query start stop).encard ≤ grammar.settings.cellLimit

/-- One of the trees has the reading of `d` and at least its score. -/
def Covers (ds : List (Derivation S)) (d : Derivation S) : Prop :=
  ∃ kept ∈ ds, kept.reading = d.reading ∧ Scalar.le d.score kept.score

/-- Pruning drops no tree without keeping one that covers it. -/
def Lossless (grammar : Grammar S) (schema : Schema S) (query : Query) : Prop :=
  ∀ start stop, start < stop → stop ≤ query.size →
    ∀ d ∈ grammar.gather schema query (grammar.spanCell schema query) start stop grammar.rules,
      Covers (grammar.spanCell schema query start stop) d

section Gather

variable {cell : Nat → Nat → List (Derivation S)}

/-- Later rules only add trees to a span. What is found at one turn is there at all turns after
it. -/
theorem mem_foldl_addRule {here : List (Derivation S)} (rules : List Rule) (h : d ∈ here) :
    d ∈ rules.foldl (grammar.addRule query cell start stop) here := by
  induction rules generalizing here with
  | nil => exact h
  | cons rule rules ih => exact ih (List.mem_append_left _ h)

/-- A tree that the rules add to a span is for the symbol of one of these rules. -/
theorem lhs_of_mem_foldl_addRule {here : List (Derivation S)} {rules : List Rule}
    (hStop : stop ≤ query.size)
    (h : d ∈ rules.foldl (grammar.addRule query cell start stop) here) :
    d ∈ here ∨ ∃ rule ∈ rules, rule.lhs = d.lhs := by
  induction rules generalizing here with
  | nil => exact Or.inl h
  | cons rule rules ih =>
      rcases ih h with hMem | ⟨later, hLater, hSymbol⟩
      · rcases List.mem_append.1 hMem with hMem | hMem
        · exact Or.inl hMem
        · exact Or.inr ⟨rule, List.mem_cons_self, ((Rule.mem_derive_iff hStop).1 hMem).lhs_eq.symm⟩
      · exact Or.inr ⟨later, List.mem_cons_of_mem rule hLater, hSymbol⟩

/-- What a rule yields with the help of the rules before it is among what is gathered. -/
theorem mem_gather_of_yields {before after : List Rule} {rule : Rule} (hStop : stop ≤ query.size)
    (h : rule.Yields grammar.settings
      (withCell cell start stop (grammar.gather schema query cell start stop before))
      query start stop d) :
    d ∈ grammar.gather schema query cell start stop (before ++ rule :: after) := by
  rw [gather, List.foldl_append, List.foldl_cons]
  exact mem_foldl_addRule after (List.mem_append_right _ ((Rule.mem_derive_iff hStop).2 h))

/-- The leaves come before all rules, so what the annotators find for a span is gathered for it.
-/
theorem mem_gather_of_mem_annotate (rules : List Rule)
    (h : d ∈ grammar.annotate schema (query.slice start stop)) :
    d ∈ grammar.gather schema query cell start stop rules :=
  mem_foldl_addRule rules h

/-- All trees for the child of a unary rule are there before the rule has its turn. -/
theorem mem_gather_before_of_layered {before after : List Rule} {rule : Rule}
    (hLayered : Layered (before ++ rule :: after)) (body : rule.body = .unary d.lhs)
    (hStop : stop ≤ query.size)
    (h : d ∈ grammar.gather schema query cell start stop (before ++ rule :: after)) :
    d ∈ grammar.gather schema query cell start stop before := by
  rw [gather, List.foldl_append] at h
  rcases lhs_of_mem_foldl_addRule hStop h with hMem | ⟨later, hLater, hSymbol⟩
  · exact hMem
  · exact absurd hSymbol (hLayered.lhs_ne body later hLater)

end Gather

/-- Trees of different readings that derive a span are not more than a cell can hold. The limit
counts readings and not trees, as trees of one reading are merged by pruning. -/
theorem FitsLimit.length_le {ds : List (Derivation S)} (h : grammar.FitsLimit schema query)
    (hNodup : (ds.map Derivation.reading).Nodup)
    (hDerives : ∀ d ∈ ds, grammar.Derives schema query start stop d) :
    ds.length ≤ grammar.settings.cellLimit := by
  have hSubset : ((ds.map Derivation.reading).toFinset : Set (SymbolId × Semantics)) ⊆
      grammar.readings schema query start stop := by
    intro reading hReading
    rw [Finset.mem_coe, List.mem_toFinset, List.mem_map] at hReading
    obtain ⟨d, hd, rfl⟩ := hReading
    exact ⟨d, hDerives d hd, rfl⟩
  have hCard := (Set.encard_le_encard hSubset).trans (h start stop)
  rwa [Set.encard_coe_eq_coe_finsetCard, List.toFinset_card_of_nodup hNodup, List.length_map,
    Nat.cast_le] at hCard

/-- The cells that a rule sees when it has its turn on a span. -/
def visibleCell (grammar : Grammar S) (schema : Schema S) (query : Query) (start stop : Nat)
    (before : List Rule) : Nat → Nat → List (Derivation S) :=
  withCell (grammar.spanCell schema query) start stop
    (grammar.gather schema query (grammar.spanCell schema query) start stop before)

/-- What a rule yields for a span from the cells it sees is covered by a tree that is kept, if
pruning drops nothing but repetitions. -/
theorem Lossless.covers {before after : List Rule} {rule : Rule}
    (h : grammar.Lossless schema query) (hRules : grammar.rules = before ++ rule :: after)
    (hSpan : start < stop) (hStop : stop ≤ query.size)
    (hYields : rule.Yields grammar.settings (grammar.visibleCell schema query start stop before)
      query start stop d) :
    Covers (grammar.spanCell schema query start stop) d := by
  refine h start stop hSpan hStop d ?_
  rw [hRules]
  exact mem_gather_of_yields hStop hYields

/-- On spans other than the one being filled a rule sees the finished cells. -/
theorem mem_visibleCell_of_ne {a b : Nat} (before : List Rule) (h : ¬(a = start ∧ b = stop))
    (hMem : d ∈ grammar.spanCell schema query a b) :
    d ∈ grammar.visibleCell schema query start stop before a b := by
  rw [visibleCell, withCell_of_ne _ _ h]
  exact hMem

/-- A unary rule sees what is kept for its child, also where this stands in the cell being filled.
This is where the order of the rules is needed: the trees for the child are complete by then. -/
theorem mem_visibleCell_of_layered {before after : List Rule} {rule : Rule} {a b : Nat}
    (hLayered : Layered grammar.rules) (hRules : grammar.rules = before ++ rule :: after)
    (body : rule.body = .unary d.lhs) (hSpan : start < stop) (hStop : stop ≤ query.size)
    (hMem : d ∈ grammar.spanCell schema query a b) :
    d ∈ grammar.visibleCell schema query start stop before a b := by
  by_cases hHere : a = start ∧ b = stop
  · obtain ⟨rfl, rfl⟩ := hHere
    rw [spanCell_eq_prune_gather _ _ _ hSpan] at hMem
    have hGathered := Candidates.mem_of_mem_prune hMem
    rw [hRules] at hLayered hGathered
    rw [visibleCell, withCell_self]
    exact mem_gather_before_of_layered hLayered body hStop hGathered
  · exact mem_visibleCell_of_ne before hHere hMem

variable [MonotoneScalar S]

/-- What covers a tree covers every tree of its reading with no higher score. -/
theorem Covers.trans {ds : List (Derivation S)} {d d' : Derivation S} (h : Covers ds d')
    (hReading : d'.reading = d.reading) (hScore : Scalar.le d.score d'.score) : Covers ds d := by
  obtain ⟨kept, hKept, hSame, hLe⟩ := h
  exact ⟨kept, hKept, hSame.trans hReading, MonotoneScalar.le_trans hScore hLe⟩

/-- The trees that a full cell holds have as many readings as the limit allows, so a tree of a
further reading would have been one too many. -/
theorem lossless_of_fitsLimit (h : grammar.FitsLimit schema query) :
    grammar.Lossless schema query := by
  intro start stop hSpan hStop d hd
  have hNodup := Candidates.nodup_readings_prune grammar.settings.cellLimit
    (grammar.gather schema query (grammar.spanCell schema query) start stop grammar.rules)
  have hPrune := Candidates.exists_mem_prune_or_length_eq grammar.settings.cellLimit hd
  rw [← spanCell_eq_prune_gather _ _ _ hSpan] at hNodup hPrune
  rcases hPrune with hKept | ⟨hLength, hNew⟩
  · exact hKept
  · have hDerives : grammar.Derives schema query start stop d :=
      derives_of_mem_gather hSpan hStop (fun _ hRule => hRule)
        (fun a b _ _ hb _ d hd => derives_of_mem_spanCell (hb.trans hStop) hd) hd
    have hAll : ∀ e ∈ d :: grammar.spanCell schema query start stop,
        grammar.Derives schema query start stop e := by
      intro e he
      rcases List.mem_cons.1 he with rfl | he
      · exact hDerives
      · exact derives_of_mem_spanCell hStop he
    have hReadings : ((d :: grammar.spanCell schema query start stop).map
        Derivation.reading).Nodup := List.nodup_cons.2 ⟨hNew, hNodup⟩
    have hMore := h.length_le hReadings hAll
    rw [List.length_cons, hLength] at hMore
    omega

/-- Where no cell is full, nothing has been dropped but repetitions. This can be checked on the
chart alone, without regard to the trees that might have been. -/
theorem lossless_of_length_lt
    (h : ∀ start stop, start < stop → stop ≤ query.size →
      (grammar.spanCell schema query start stop).length < grammar.settings.cellLimit) :
    grammar.Lossless schema query := by
  intro start stop hSpan hStop d hd
  have hLength := h start stop hSpan hStop
  rw [spanCell_eq_prune_gather _ _ _ hSpan] at hLength ⊢
  exact (Candidates.exists_mem_prune_or_length_eq grammar.settings.cellLimit hd).resolve_right
    fun hFull => absurd hFull.1 (Nat.ne_of_lt hLength)

namespace NonnegativeScores

variable (h : grammar.NonnegativeScores schema)

include h

/-- The penalty of merging two semantics is never negative, so merging makes no score negative. -/
theorem merge_nonneg (left right : Semantics) :
    Scalar.le Scalar.zero (Semantics.merge grammar.settings.merge left right).2 := by
  rw [Semantics.merge_snd]
  induction Semantics.repeats grammar.settings.merge left right with
  | zero => exact MonotoneScalar.one_nonneg
  | succ n ih => exact MonotoneScalar.mul_nonneg ih h.repeatPenalty

/-- No tree has a negative score if no finding has one. By induction on the tree, since every
factor on the way up is at least zero. -/
theorem score_nonneg (hDerives : grammar.Derives schema query start stop d) :
    Scalar.le Scalar.zero d.score := by
  induction hDerives with
  | finding _ _ registered found => exact h.findings _ registered _ _ found
  | words => exact MonotoneScalar.one_nonneg
  | unary _ _ _ _ _ _ _ _ _ ih => exact Noise.decay_nonneg _ _ h.noisePenalty ih
  | binary _ _ _ _ _ _ _ _ _ _ ihLeft ihRight =>
      exact MonotoneScalar.mul_nonneg (h.merge_nonneg _ _)
        (Noise.decay_nonneg _ _ h.noisePenalty (MonotoneScalar.mul_nonneg ihLeft ihRight))

end NonnegativeScores

/-- Every tree is covered by one in the cell of its span. By induction on the tree its children are
covered, and the rule at its root turns trees that cover them into one that covers the whole. -/
theorem covers_spanCell (hLayered : Layered grammar.rules)
    (hScores : grammar.NonnegativeScores schema) (hLossless : grammar.Lossless schema query)
    (h : grammar.Derives schema query start stop d) :
    Covers (grammar.spanCell schema query start stop) d := by
  induction h with
  | @finding start stop symbol annotator finding nonempty inside registered found =>
      refine hLossless start stop nonempty inside _ (mem_gather_of_mem_annotate _ ?_)
      exact mem_annotate_iff.2 ⟨symbol, annotator, finding, registered, found, rfl⟩
  | words nonempty inside listed body spelled acted =>
      obtain ⟨before, after, hRules⟩ := List.append_of_mem listed
      exact hLossless.covers hRules nonempty inside (.words body spelled acted)
  | @unary start a b stop rule child semantics inner leading trailing inside listed body
      leadingLimit limit acted ih =>
      have hInner := inner.start_lt_stop
      have hSpan : start < stop := by omega
      obtain ⟨before, after, hRules⟩ := List.append_of_mem listed
      obtain ⟨child', hChild, hReading, hScore⟩ := ih
      obtain ⟨hSymbol, hSemantics⟩ := Derivation.reading_eq_iff.1 hReading
      rw [← hSymbol] at body
      rw [← hSemantics] at acted
      have hSeen := mem_visibleCell_of_layered hLayered hRules body hSpan inside hChild
      have hCovers := hLossless.covers hRules hSpan inside (.unary hSeen leading hInner trailing
        body (leadingLimit.trans (Nat.min_le_left _ _)) limit acted)
      exact hCovers.trans rfl (Noise.decay_le_decay _ _ hScores.noisePenalty hScore)
  | @binary start a split next b stop rule first second semantics left right leading between
      trailing inside listed body limit acted ihLeft ihRight =>
      have hLeft := left.start_lt_stop
      have hRight := right.start_lt_stop
      obtain ⟨before, after, hRules⟩ := List.append_of_mem listed
      obtain ⟨first', hFirst, hFirstReading, hFirstScore⟩ := ihLeft
      obtain ⟨second', hSecond, hSecondReading, hSecondScore⟩ := ihRight
      obtain ⟨hFirstSymbol, hFirstSemantics⟩ := Derivation.reading_eq_iff.1 hFirstReading
      obtain ⟨hSecondSymbol, hSecondSemantics⟩ := Derivation.reading_eq_iff.1 hSecondReading
      rw [← hFirstSymbol, ← hSecondSymbol] at body
      rw [← hFirstSemantics, ← hSecondSemantics] at acted
      have hCovers := hLossless.covers hRules (by omega : start < stop) inside
        (.binary (mem_visibleCell_of_ne before (by omega) hFirst)
          (mem_visibleCell_of_ne before (by omega) hSecond) leading hLeft between hRight trailing
          body limit acted)
      have hProduct : Scalar.le (first.score * second.score) (first'.score * second'.score) :=
        MonotoneScalar.mul_le_mul (hScores.score_nonneg right)
          (MonotoneScalar.le_trans (hScores.score_nonneg left) hFirstScore) hFirstScore hSecondScore
      refine hCovers.trans rfl ?_
      simp only [Derivation.score, hFirstSemantics, hSecondSemantics]
      exact MonotoneScalar.mul_le_mul_left (hScores.merge_nonneg _ _)
        (Noise.decay_le_decay _ _ hScores.noisePenalty hProduct)

/-- Where no cell is full, no span has more readings than a cell can hold. All trees are covered
then by those in the chart, and these are few. -/
theorem fitsLimit_of_length_lt (hLayered : Layered grammar.rules)
    (hScores : grammar.NonnegativeScores schema)
    (h : ∀ start stop, start < stop → stop ≤ query.size →
      (grammar.spanCell schema query start stop).length < grammar.settings.cellLimit) :
    grammar.FitsLimit schema query := by
  intro start stop
  rcases Set.eq_empty_or_nonempty (grammar.readings schema query start stop) with
    hEmpty | ⟨_, d, hDerives, -⟩
  · rw [hEmpty, Set.encard_empty]
    exact zero_le
  · have hSubset : grammar.readings schema query start stop ⊆
        (((grammar.spanCell schema query start stop).map Derivation.reading).toFinset :
          Set (SymbolId × Semantics)) := by
      rintro _ ⟨d, hDerives, rfl⟩
      obtain ⟨kept, hKept, hReading, -⟩ :=
        covers_spanCell hLayered hScores (lossless_of_length_lt h) hDerives
      rw [Finset.mem_coe, List.mem_toFinset, List.mem_map]
      exact ⟨kept, hKept, hReading⟩
    have hLength := h start stop hDerives.start_lt_stop hDerives.stop_le_size
    have hCard := List.toFinset_card_le
      ((grammar.spanCell schema query start stop).map Derivation.reading)
    rw [List.length_map] at hCard
    refine (Set.encard_le_encard hSubset).trans ?_
    rw [Set.encard_coe_eq_coe_finsetCard, Nat.cast_le]
    omega

/-- There is no parse only if no tree derives the root for the whole query. A parse is such a tree,
and no other such tree has a higher score. -/
theorem parseQuery_best (hLayered : Layered grammar.rules)
    (hScores : grammar.NonnegativeScores schema) (hLimit : grammar.FitsLimit schema query) :
    (grammar.parseQuery schema query = none ↔
      ¬∃ d, grammar.Derives schema query 0 query.size d ∧ d.lhs = grammar.root) ∧
    ∀ best, grammar.parseQuery schema query = some best →
      grammar.Derives schema query 0 query.size best ∧ best.lhs = grammar.root ∧
      ∀ d, grammar.Derives schema query 0 query.size d → d.lhs = grammar.root →
        Scalar.le d.score best.score := by
  have hCovers (d : Derivation S) (hDerives : grammar.Derives schema query 0 query.size d) :=
    covers_spanCell hLayered hScores (lossless_of_fitsLimit hLimit) hDerives
  rw [parseQuery, Chart.best?, size_chart, cell_chart _ _ _ (Nat.zero_le _) le_rfl]
  constructor
  · rw [Candidates.best?_eq_none_iff]
    constructor
    · rintro hNone ⟨d, hDerives, hRoot⟩
      obtain ⟨kept, hKept, hReading, -⟩ := hCovers d hDerives
      exact hNone kept hKept ((Derivation.reading_eq_iff.1 hReading).1.trans hRoot)
    · intro hNone d hd hRoot
      exact hNone ⟨d, derives_of_mem_spanCell le_rfl hd, hRoot⟩
  · intro best hBest
    obtain ⟨hMem, hRoot, hAll⟩ := Candidates.best?_spec hBest
    refine ⟨derives_of_mem_spanCell le_rfl hMem, hRoot, fun d hDerives hLhs => ?_⟩
    obtain ⟨kept, hKept, hReading, hScore⟩ := hCovers d hDerives
    exact MonotoneScalar.le_trans hScore
      (hAll kept hKept ((Derivation.reading_eq_iff.1 hReading).1.trans hLhs))

/-- The annotator of columns finds nothing with a negative score when its threshold is not
negative. -/
theorem score_nonneg_of_column {threshold : S} (hThreshold : Scalar.le Scalar.zero threshold)
    {span : Query} {finding : Finding S}
    (h : (Annotator.column threshold).annotate span schema = some finding) :
    Scalar.le Scalar.zero finding.score := by
  obtain ⟨found, hFound, rfl⟩ := Option.map_eq_some_iff.1 h
  have hSimilar := (Option.filter_eq_some_iff.1 hFound).2
  exact MonotoneScalar.le_trans hThreshold hSimilar

/-- The only annotator is that of columns, whose threshold is not negative, and neither are the
penalties. -/
theorem nonnegativeScores_barGrammar : barGrammar.NonnegativeScores barSchema where
  noisePenalty := by decide +kernel
  repeatPenalty := by decide +kernel
  findings := by
    intro entry hEntry span finding hFound
    obtain rfl := List.mem_singleton.1 hEntry
    exact score_nonneg_of_column (by decide +kernel) hFound

/-- No cell of the query is full, which is seen by going through its cells. -/
theorem fitsLimit_barQuery : barGrammar.FitsLimit barSchema barQuery := by
  refine fitsLimit_of_length_lt (by decide) nonnegativeScores_barGrammar ?_
  intro start stop hSpan hStop
  have hLengths : ∀ start < 4, ∀ stop < 4, (barGrammar.cellBy barSchema barQuery
      (Candidates.pruneByInsertion 20) start stop).length < 20 := by decide +kernel
  have hSize : barQuery.size = 3 := rfl
  have hCell := hLengths start (by omega) stop (by omega)
  rwa [← Candidates.prune_eq_pruneByInsertion] at hCell

/-- The parse of the query stands beside all trees for it: its score is the greatest there is. -/
theorem parseQuery_best_barQuery :
    Layered barGrammar.rules ∧ barGrammar.NonnegativeScores barSchema ∧
      barGrammar.FitsLimit barSchema barQuery ∧
      ∃ best, barGrammar.parseQuery barSchema barQuery = some best ∧
        best.score = 2 / 3 * (19 / 20) ^ 6 ∧
        ∀ d, barGrammar.Derives barSchema barQuery 0 3 d → d.lhs = 3 → d.score ≤ best.score := by
  have hLayered : Layered barGrammar.rules := by decide
  have hBest := parseQuery_best hLayered nonnegativeScores_barGrammar fitsLimit_barQuery
  have hParse : barGrammar.parseQuery barSchema barQuery = Candidates.best? 3
      (barGrammar.cellBy barSchema barQuery (Candidates.pruneByInsertion 20) 0 3) := by
    rw [parseQuery, Chart.best?, size_chart, cell_chart_eq_cellBy _ _ _ (Nat.zero_le _) le_rfl]
    rfl
  have hRun : (barGrammar.parseQuery barSchema barQuery).map Derivation.score =
      some (2 / 3 * (19 / 20) ^ 6) := by
    rw [hParse]
    decide +kernel
  obtain ⟨best, hSome, hScore⟩ := Option.map_eq_some_iff.1 hRun
  refine ⟨hLayered, nonnegativeScores_barGrammar, fitsLimit_barQuery, best, hSome, hScore, ?_⟩
  intro d hDerives hLhs
  exact (Scalar.rat_le_iff _ _).1 ((hBest.2 best hSome).2.2 d hDerives hLhs)

end PlotQuery.Grammar
