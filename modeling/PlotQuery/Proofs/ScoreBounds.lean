import PlotQuery.Proofs.CellTable
import PlotQuery.Proofs.ExactShares
import PlotQuery.Proofs.NumberTexts

/-! Scores of trees in exact arithmetic. A tree scores at most what its children score together, and
the full score exactly if nothing in it is passed over, inexact or repeated. -/
namespace PlotQuery

namespace Query

variable (query : Query)

/-- The characters of two parts that follow each other are those of both together. -/
theorem charCount_slice_add {i j : Nat} (h : i ≤ j) :
    (query.slice 0 i).charCount + (query.slice i j).charCount = (query.slice 0 j).charCount := by
  have hTake : query.tokens.take j = query.tokens.take i ++ (query.tokens.drop i).take (j - i) := by
    rw [← List.take_add, Nat.add_sub_cancel' h]
  simp only [charCount, slice, Nat.sub_zero, List.drop_zero, ← List.sum_eq_foldl, hTake,
    List.map_append, List.sum_append]

theorem charCount_slice_zero_le (i : Nat) : (query.slice 0 i).charCount ≤ query.charCount := by
  have hAll : (query.slice 0 (max i query.size)).charCount = query.charCount := by
    rw [charCount, slice, List.drop_zero, List.take_of_length_le, charCount]
    exact Nat.le_max_right i query.size
  have hAdd := query.charCount_slice_add (Nat.le_max_left i query.size)
  omega

theorem tokens_noise_cons (gap : Nat × Nat) (gaps : List (Nat × Nat)) :
    (query.noise (gap :: gaps)).tokens = gap.2 - gap.1 + (query.noise gaps).tokens := by
  simp only [noise, ← List.sum_eq_foldl, List.map_cons, List.sum_cons]

theorem chars_noise_cons (gap : Nat × Nat) (gaps : List (Nat × Nat)) :
    (query.noise (gap :: gaps)).chars =
      (query.slice gap.1 gap.2).charCount + (query.noise gaps).chars := by
  simp only [noise, ← List.sum_eq_foldl, List.map_cons, List.sum_cons]

/-- Parts of a query that stand one after the other have no more tokens and characters together
than what follows the position from which on they stand. By induction on the parts, from the last
position on. -/
theorem noise_le_of_pairwise {gaps : List (Nat × Nat)} {start : Nat}
    (hOrder : gaps.Pairwise fun earlier later => earlier.2 ≤ later.1)
    (hGaps : ∀ gap ∈ gaps, start ≤ gap.1 ∧ gap.1 ≤ gap.2 ∧ gap.2 ≤ query.size)
    (hStart : start ≤ query.size) :
    start + (query.noise gaps).tokens ≤ query.size ∧
      (query.slice 0 start).charCount + (query.noise gaps).chars ≤ query.charCount := by
  induction gaps generalizing start with
  | nil => exact ⟨hStart, query.charCount_slice_zero_le start⟩
  | cons gap gaps ih =>
      obtain ⟨hFirst, hRest⟩ := List.pairwise_cons.1 hOrder
      obtain ⟨hBefore, hGap, hInside⟩ := hGaps gap List.mem_cons_self
      have hLater (later : Nat × Nat) (hMem : later ∈ gaps) :=
        hGaps later (List.mem_cons_of_mem gap hMem)
      obtain ⟨hTokens, hChars⟩ := ih hRest
        (fun later hMem => ⟨hFirst later hMem, (hLater later hMem).2⟩) hInside
      have hSkipped := query.charCount_slice_add hBefore
      have hPassed := query.charCount_slice_add hGap
      rw [tokens_noise_cons, chars_noise_cons]
      omega

/-- No token is passed over just if all gaps are empty. -/
theorem tokens_noise_eq_zero_iff {gaps : List (Nat × Nat)} :
    (query.noise gaps).tokens = 0 ↔ ∀ gap ∈ gaps, gap.2 ≤ gap.1 := by
  induction gaps with
  | nil => simp [noise]
  | cons gap gaps ih => rw [tokens_noise_cons, Nat.add_eq_zero_iff, ih, List.forall_mem_cons,
      Nat.sub_eq_zero_iff_le]

/-- Empty gaps make no noise. They have no characters either. -/
theorem noise_eq_none {gaps : List (Nat × Nat)} (h : ∀ gap ∈ gaps, gap.2 ≤ gap.1) :
    query.noise gaps = Noise.none := by
  have hChars : (query.noise gaps).chars = 0 := by
    induction gaps with
    | nil => rfl
    | cons gap gaps ih =>
        have hGap := h gap List.mem_cons_self
        have hNone : (query.slice gap.1 gap.2).charCount = 0 := by
          simp [charCount, slice, Nat.sub_eq_zero_of_le hGap]
        rw [chars_noise_cons, hNone, ih fun later hMem => h later (List.mem_cons_of_mem gap hMem)]
  exact congrArg₂ Noise.mk (query.tokens_noise_eq_zero_iff.2 h) hChars

/-- The tokens passed over on a span leave a share of the score, and all of it only if there are
none. The bound on the length of the query keeps the exponent from wrapping around. -/
theorem exists_share_of_gaps {gaps : List (Nat × Nat)} {start stop : Nat} {penalty : ℚ}
    (hOrder : gaps.Pairwise fun earlier later => earlier.2 ≤ later.1)
    (hGaps : ∀ gap ∈ gaps, gap.1 ≤ gap.2 ∧ gap.2 ≤ query.size)
    (hKept : (query.noise gaps).tokens < stop - start)
    (hPenalty : penalty ∈ shares) (hQuery : query.size + query.charCount < 2 ^ 31) :
    ∃ share ∈ shares,
      (∀ base, (query.noise gaps).decay penalty (stop - start) base = base * share) ∧
      (share = 1 → ∀ gap ∈ gaps, gap.2 ≤ gap.1) := by
  obtain ⟨hTokens, hChars⟩ := query.noise_le_of_pairwise hOrder
    (fun gap hGap => ⟨Nat.zero_le gap.1, hGaps gap hGap⟩) (Nat.zero_le query.size)
  refine ⟨_, Noise.share_mem_shares hPenalty hKept,
    Noise.decay_eq_mul_share (Nat.zero_lt_of_lt hKept) (by omega), fun hWhole => ?_⟩
  exact query.tokens_noise_eq_zero_iff.1
    (Noise.tokens_eq_zero_of_share_eq_one hPenalty hKept hWhole)

end Query

namespace Derivation

variable {S : Type}

/-- Whether the two children of the root both have a value under the key. -/
def joinsRepeated (key : String) : Derivation S → Bool
  | binary _ first second _ _ => first.semantics.contains key && second.semantics.contains key
  | _ => false

/-- The children of some node both have a value under the key. -/
def Repeats (d : Derivation S) (key : String) : Prop :=
  ∃ node ∈ d.subtrees, node.joinsRepeated key = true

instance (d : Derivation S) (key : String) : Decidable (d.Repeats key) :=
  inferInstanceAs (Decidable (∃ node ∈ d.subtrees, node.joinsRepeated key = true))

variable {rule : Rule} {first second child : Derivation S} {semantics : Semantics} {score : S}
  {key : String}

/-- A leaf repeats nothing, as there is nothing to merge. -/
theorem not_repeats_of_children_eq_nil {d : Derivation S} (h : d.children = []) :
    ¬d.Repeats key := by
  rw [Repeats, subtrees_of_children_eq_nil h]
  cases d with
  | leaf => simp [joinsRepeated]
  | words => simp [joinsRepeated]
  | unary => cases h
  | binary => cases h

/-- A rule with one child merges nothing, so a key is repeated below it or not at all. -/
theorem repeats_unary_iff : (unary rule child semantics score).Repeats key ↔ child.Repeats key := by
  simp [Repeats, subtrees, joinsRepeated]

/-- A rule with two children repeats the keys that both of them have, and what is repeated
below. -/
theorem repeats_binary_iff :
    (binary rule first second semantics score).Repeats key ↔
      (first.semantics.contains key = true ∧ second.semantics.contains key = true) ∨
        first.Repeats key ∨ second.Repeats key := by
  simp [Repeats, subtrees, joinsRepeated, or_and_right, exists_or]

end Derivation

namespace Grammar

/-- The grammar in which no token may be passed over. -/
def withoutNoise {S : Type} (grammar : Grammar S) : Grammar S :=
  { grammar with settings := { grammar.settings with maxNoise := 0 } }

section Bounds

variable {query : Query} {start a split next b stop : Nat}

/-- What the noise around the child of a unary rule leaves of the score. -/
theorem exists_share_unary {penalty : ℚ} (hPenalty : penalty ∈ shares)
    (hQuery : query.size + query.charCount < 2 ^ 31) (leading : start ≤ a) (nonempty : a < b)
    (trailing : b ≤ stop) (inside : stop ≤ query.size) :
    ∃ share ∈ shares, (∀ base,
        (query.noise [(start, a), (b, stop)]).decay penalty (stop - start) base = base * share) ∧
      (share = 1 → a = start ∧ b = stop) := by
  have hKept : (query.noise [(start, a), (b, stop)]).tokens < stop - start := by
    simp only [Query.noise, List.map_cons, List.map_nil, List.foldl_cons, List.foldl_nil]
    omega
  obtain ⟨share, hShare, hDecay, hWhole⟩ := query.exists_share_of_gaps
    (by simp; omega) (by simp; omega) hKept hPenalty hQuery
  refine ⟨share, hShare, hDecay, fun hOne => ?_⟩
  have hGaps := hWhole hOne
  simp only [List.forall_mem_cons] at hGaps
  omega

/-- What the noise around and between the children of a binary rule leaves of the score. -/
theorem exists_share_binary {penalty : ℚ} (hPenalty : penalty ∈ shares)
    (hQuery : query.size + query.charCount < 2 ^ 31) (leading : start ≤ a)
    (nonemptyFirst : a < split) (between : split ≤ next) (nonemptySecond : next < b)
    (trailing : b ≤ stop) (inside : stop ≤ query.size) :
    ∃ share ∈ shares, (∀ base,
        (query.noise [(start, a), (split, next), (b, stop)]).decay penalty (stop - start) base =
          base * share) ∧
      (share = 1 → a = start ∧ next = split ∧ b = stop) := by
  have hKept : (query.noise [(start, a), (split, next), (b, stop)]).tokens < stop - start := by
    simp only [Query.noise, List.map_cons, List.map_nil, List.foldl_cons, List.foldl_nil]
    omega
  obtain ⟨share, hShare, hDecay, hWhole⟩ := query.exists_share_of_gaps
    (by simp; omega) (by simp; omega) hKept hPenalty hQuery
  refine ⟨share, hShare, hDecay, fun hOne => ?_⟩
  have hGaps := hWhole hOne
  simp only [List.forall_mem_cons] at hGaps
  omega

variable {grammar : Grammar ℚ} {schema : Schema ℚ} {d : Derivation ℚ}

/-- Every tree has a positive score up to one, and at most the product of the scores of its
children. What a rule puts to this product are shares, for the noise and for the repetitions. The
bound on the query keeps the exponent of noise from wrapping around. -/
theorem Derives.score_bounds [ScalarText ℚ]
    (hSupplied : ∀ entry ∈ grammar.annotators, entry.2.Supplied)
    (hNoise : grammar.settings.noisePenalty ∈ shares)
    (hRepeat : grammar.settings.merge.repeatPenalty ∈ shares)
    (hQuery : query.size + query.charCount < 2 ^ 31)
    (h : grammar.Derives schema query start stop d) :
    d.score ∈ shares ∧ d.score ≤ (d.children.map Derivation.score).prod := by
  induction h with
  | finding nonempty inside registered found =>
      have hScore :=
        (Annotator.finds_of_annotate (hSupplied _ registered) found).score_mem_shares
      exact ⟨hScore, hScore.2⟩
  | words => exact ⟨⟨one_pos, le_rfl⟩, le_rfl⟩
  | unary inner leading trailing inside listed body leadingLimit limit acted ih =>
      obtain ⟨share, hShare, hDecay, -⟩ :=
        exists_share_unary hNoise hQuery leading inner.start_lt_stop trailing inside
      simp only [Derivation.score, Derivation.children, hDecay, List.map_cons, List.map_nil,
        List.prod_singleton]
      exact ⟨mul_mem_shares ih.1 hShare, mul_le_of_le_one_right ih.1.1.le hShare.2⟩
  | @binary start a split next b stop rule first second semantics left right leading between
      trailing inside listed body limit acted ihLeft ihRight =>
      obtain ⟨share, hShare, hDecay, -⟩ := exists_share_binary hNoise hQuery leading
        left.start_lt_stop between right.start_lt_stop trailing inside
      have hMerge :=
        Semantics.merge_snd_mem_shares hRepeat first.semantics second.semantics
      have hProduct := mul_mem_shares ihLeft.1 ihRight.1
      have hRest := mul_mem_shares hProduct hShare
      simp only [Derivation.score, Derivation.children, hDecay, List.map_cons, List.map_nil,
        List.prod_cons, List.prod_nil, mul_one]
      refine ⟨mul_mem_shares hMerge hRest, ?_⟩
      calc
        _ ≤ first.score * second.score * share := mul_le_of_le_one_left hRest.1.le hMerge.2
        _ ≤ first.score * second.score := mul_le_of_le_one_right hProduct.1.le hShare.2

/-- A tree with the full score passes over nothing, has findings with the full score only, and
repeats no key that is penalised. By induction on the tree, as a product of shares is one only if
all of them are. -/
theorem Derives.exact_of_score_eq_one [ScalarText ℚ]
    (hSupplied : ∀ entry ∈ grammar.annotators, entry.2.Supplied)
    (hNoise : grammar.settings.noisePenalty ∈ shares)
    (hRepeat : grammar.settings.merge.repeatPenalty ∈ shares)
    (hLess : grammar.settings.merge.repeatPenalty < 1)
    (hQuery : query.size + query.charCount < 2 ^ 31)
    (h : grammar.Derives schema query start stop d) (hScore : d.score = 1) :
    grammar.withoutNoise.Derives schema query start stop d ∧
      (∀ leaf ∈ d.leaves, leaf.rule? = none → leaf.score = 1) ∧
      ∀ key ∈ grammar.settings.merge.nonRepeated, key ≠ valueKey → ¬d.Repeats key := by
  induction h with
  | finding nonempty inside registered found =>
      refine ⟨.finding nonempty inside registered found, fun leaf hLeaf _ => ?_,
        fun key _ _ => Derivation.not_repeats_of_children_eq_nil rfl⟩
      rw [List.mem_singleton.1 hLeaf]
      exact hScore
  | words nonempty inside listed body spelled acted =>
      refine ⟨.words nonempty inside listed body spelled acted, fun leaf hLeaf hRule => ?_,
        fun key _ _ => Derivation.not_repeats_of_children_eq_nil rfl⟩
      rw [List.mem_singleton.1 hLeaf] at hRule
      cases hRule
  | unary inner leading trailing inside listed body leadingLimit limit acted ih =>
      obtain ⟨share, hShare, hDecay, hWhole⟩ :=
        exists_share_unary hNoise hQuery leading inner.start_lt_stop trailing inside
      obtain ⟨hChild, -⟩ := inner.score_bounds hSupplied hNoise hRepeat hQuery
      have hFactors := (mul_eq_one_iff_of_mem_shares hChild hShare).1 ((hDecay _).symm.trans hScore)
      obtain ⟨rfl, rfl⟩ := hWhole hFactors.2
      obtain ⟨hExact, hLeaves, hKeys⟩ := ih hFactors.1
      refine ⟨.unary hExact le_rfl le_rfl inside listed body (by simp) (by simp) acted, hLeaves, ?_⟩
      intro key hKey hNotValue
      rw [Derivation.repeats_unary_iff]
      exact hKeys key hKey hNotValue
  | @binary start a split next b stop rule first second semantics left right leading between
      trailing inside listed body limit acted ihLeft ihRight =>
      obtain ⟨share, hShare, hDecay, hWhole⟩ := exists_share_binary hNoise hQuery leading
        left.start_lt_stop between right.start_lt_stop trailing inside
      obtain ⟨hFirst, -⟩ := left.score_bounds hSupplied hNoise hRepeat hQuery
      obtain ⟨hSecond, -⟩ := right.score_bounds hSupplied hNoise hRepeat hQuery
      have hMerge :=
        Semantics.merge_snd_mem_shares hRepeat first.semantics second.semantics
      have hProduct := mul_mem_shares hFirst hSecond
      simp only [Derivation.score, hDecay] at hScore
      obtain ⟨hPenalty, hRest⟩ :=
        (mul_eq_one_iff_of_mem_shares hMerge (mul_mem_shares hProduct hShare)).1 hScore
      obtain ⟨hScores, hShareOne⟩ := (mul_eq_one_iff_of_mem_shares hProduct hShare).1 hRest
      obtain ⟨hFirstOne, hSecondOne⟩ := (mul_eq_one_iff_of_mem_shares hFirst hSecond).1 hScores
      obtain ⟨rfl, rfl, rfl⟩ := hWhole hShareOne
      obtain ⟨hExactFirst, hLeavesFirst, hKeysFirst⟩ := ihLeft hFirstOne
      obtain ⟨hExactSecond, hLeavesSecond, hKeysSecond⟩ := ihRight hSecondOne
      have hHere := (Semantics.merge_snd_eq_one_iff hRepeat hLess _ _).1 hPenalty
      refine ⟨.binary hExactFirst hExactSecond le_rfl le_rfl le_rfl inside listed body (by simp)
        acted, ?_, ?_⟩
      · rw [Derivation.leaves_binary]
        exact fun leaf hLeaf =>
          (List.mem_append.1 hLeaf).elim (hLeavesFirst leaf) (hLeavesSecond leaf)
      · intro key hKey hNotValue
        rw [Derivation.repeats_binary_iff, not_or, not_or]
        exact ⟨hHere key hKey hNotValue, hKeysFirst key hKey hNotValue,
          hKeysSecond key hKey hNotValue⟩

/-- Conversely such a tree has the full score. By the same induction, since each factor is one. -/
theorem score_eq_one_of_exact (hRepeat : grammar.settings.merge.repeatPenalty ∈ shares)
    (hLess : grammar.settings.merge.repeatPenalty < 1)
    (h : grammar.withoutNoise.Derives schema query start stop d)
    (hLeaves : ∀ leaf ∈ d.leaves, leaf.rule? = none → leaf.score = 1)
    (hKeys : ∀ key ∈ grammar.settings.merge.nonRepeated, key ≠ valueKey → ¬d.Repeats key) :
    d.score = 1 := by
  induction h with
  | finding => exact hLeaves _ List.mem_cons_self rfl
  | words => rfl
  | @unary start a b stop rule child semantics inner leading trailing inside listed body
      leadingLimit limit acted ih =>
      have hGaps : a - start + (stop - b) ≤ 0 := limit
      have hNone : query.noise [(start, a), (b, stop)] = Noise.none :=
        query.noise_eq_none (by simp; omega)
      rw [Derivation.score, hNone, Noise.decay_none]
      exact ih hLeaves fun key hKey hNotValue hChild =>
        hKeys key hKey hNotValue (Derivation.repeats_unary_iff.2 hChild)
  | @binary start a split next b stop rule first second semantics left right leading between
      trailing inside listed body limit acted ihLeft ihRight =>
      have hGaps : a - start + (next - split) + (stop - b) ≤ 0 := limit
      have hNone : query.noise [(start, a), (split, next), (b, stop)] = Noise.none :=
        query.noise_eq_none (by simp; omega)
      simp only [Derivation.repeats_binary_iff, not_or] at hKeys
      rw [Derivation.leaves_binary] at hLeaves
      have hFirst := ihLeft (fun leaf hLeaf => hLeaves leaf (List.mem_append_left _ hLeaf))
        fun key hKey hNotValue => (hKeys key hKey hNotValue).2.1
      have hSecond := ihRight (fun leaf hLeaf => hLeaves leaf (List.mem_append_right _ hLeaf))
        fun key hKey hNotValue => (hKeys key hKey hNotValue).2.2
      have hMerge := (Semantics.merge_snd_eq_one_iff hRepeat hLess first.semantics
        second.semantics).2 fun key hKey hNotValue => (hKeys key hKey hNotValue).1
      rw [Derivation.score, hNone, Noise.decay_none, hFirst, hSecond, one_mul, mul_one]
      exact hMerge

/-- In a chart every tree has a positive score up to one, which is at most the product of the scores
of its children. It is one exactly if no token is passed over in the tree, all its findings have the
score one, and no node joins two values under a key that is not expected twice, of which the key for
the value as a whole is none. -/
theorem score_bounds_of_mem_chart [ScalarText ℚ]
    (hSupplied : ∀ entry ∈ grammar.annotators, entry.2.Supplied)
    (hNoise : 0 < grammar.settings.noisePenalty ∧ grammar.settings.noisePenalty ≤ 1)
    (hRepeat : 0 < grammar.settings.merge.repeatPenalty ∧
      grammar.settings.merge.repeatPenalty < 1)
    (hQuery : query.size + query.charCount < 2 ^ 31) (hStart : start ≤ query.size)
    (hStop : stop ≤ query.size) (h : d ∈ (grammar.chart schema query).cell start stop) :
    0 < d.score ∧ d.score ≤ 1 ∧ d.score ≤ (d.children.map Derivation.score).prod ∧
      (d.score = 1 ↔
        grammar.withoutNoise.Derives schema query start stop d ∧
        (∀ leaf ∈ d.leaves, leaf.rule? = none → leaf.score = 1) ∧
        ∀ key ∈ grammar.settings.merge.nonRepeated, key ≠ valueKey → ¬d.Repeats key) := by
  rw [cell_chart _ _ _ hStart hStop] at h
  have hDerives := derives_of_mem_spanCell hStop h
  have hShare : grammar.settings.merge.repeatPenalty ∈ shares := ⟨hRepeat.1, hRepeat.2.le⟩
  obtain ⟨hScore, hProduct⟩ := hDerives.score_bounds hSupplied hNoise hShare hQuery
  refine ⟨hScore.1, hScore.2, hProduct, ?_, ?_⟩
  · exact hDerives.exact_of_score_eq_one hSupplied hNoise hShare hRepeat.2 hQuery
  · rintro ⟨hExact, hLeaves, hKeys⟩
    exact score_eq_one_of_exact hShare hRepeat.2 hExact hLeaves hKeys

end Bounds

theorem score_bounds_of_mem_chart_barQuery :
    ∃ d ∈ (barGrammar.chart barSchema barQuery).cell 1 3, d.lhs = barGrammar.root ∧
      d.score = 1 ∧ d.score ≤ (d.children.map Derivation.score).prod ∧
      barGrammar.withoutNoise.Derives barSchema barQuery 1 3 d := by
  have hRun : ((listedCell (barGrammar.cellList barSchema barQuery) 1 3).any fun d =>
      d.lhs == barGrammar.root && d.score == 1) = true := by decide +kernel
  rw [← cell_chart_eq_listedCell _ _ _ (by decide) (by decide)] at hRun
  simp only [Bool.and_eq_true, beq_iff_eq, List.any_eq_true] at hRun
  obtain ⟨d, hMem, hLhs, hScore⟩ := hRun
  have hSupplied : ∀ entry ∈ barGrammar.annotators, entry.2.Supplied := by
    intro entry hEntry
    rw [List.mem_singleton.1 hEntry]
    exact .column _
  obtain ⟨-, -, hProduct, hExact⟩ := score_bounds_of_mem_chart hSupplied (by decide +kernel)
    (by decide +kernel) (by decide) (by decide) (by decide) hMem
  exact ⟨d, hMem, hLhs, hScore, hProduct, (hExact.1 hScore).1⟩

/-- Settings in which the value as a whole is listed among the keys that are not expected twice. -/
def valueListedSettings : Settings ℚ :=
  { Settings.standard with merge := { MergePolicy.standard with nonRepeated := [valueKey] } }

/-- Both words of the query have a value, and the tree over them has the full score all the same.
The key for values is not penalised even where the policy names it. -/
theorem full_score_of_repeated_value :
    ∃ (grammar : Grammar ℚ) (d : Derivation ℚ),
      read valueListedSettings [Annotator.column Annotator.standardThreshold] barText =
        .ok grammar ∧
      grammar.settings = valueListedSettings ∧
      d ∈ (grammar.chart barSchema barQuery).cell 1 3 ∧
      ¬(d.score = 1 ↔
        grammar.withoutNoise.Derives barSchema barQuery 1 3 d ∧
        (∀ leaf ∈ d.leaves, leaf.rule? = none → leaf.score = 1) ∧
        ∀ key ∈ grammar.settings.merge.nonRepeated, ¬d.Repeats key) := by
  have hRun : (match (read valueListedSettings [Annotator.column Annotator.standardThreshold]
        barText : Except GrammarError (Grammar ℚ)) with
      | .ok grammar => (listedCell (grammar.cellList barSchema barQuery) 1 3).any fun d =>
          d.score == 1 && decide (d.Repeats valueKey)
      | .error _ => false) = true := by decide +kernel
  split at hRun
  · next grammar hRead =>
    rw [← cell_chart_eq_listedCell _ _ _ (by decide) (by decide)] at hRun
    simp only [Bool.and_eq_true, beq_iff_eq, List.any_eq_true, decide_eq_true_eq] at hRun
    obtain ⟨d, hMem, hScore, hRepeats⟩ := hRun
    have hSettings := (builtFrom_of_read hRead).settings_eq
    refine ⟨grammar, d, hRead, hSettings, hMem, fun hIff => ?_⟩
    obtain ⟨-, -, hKeys⟩ := hIff.1 hScore
    rw [hSettings] at hKeys
    exact hKeys valueKey List.mem_cons_self hRepeats
  · cases hRun

end Grammar

end PlotQuery
