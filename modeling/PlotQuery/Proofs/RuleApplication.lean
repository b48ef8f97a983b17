import Mathlib.Data.List.Basic
import PlotQuery.Chart.Application

/-! What an application of a rule yields, told by the positions of the children within the span, and
which part of the query and of the chart it depends on. -/
namespace PlotQuery

namespace Query

/-- A part of a query has as many tokens as its positions say, if it does not reach beyond the
query. -/
theorem size_slice (query : Query) {start stop : Nat} (hStop : stop ≤ query.size) :
    (query.slice start stop).size = stop - start := by
  simp only [size, slice, List.length_take, List.length_drop] at hStop ⊢
  omega

/-- A part of a part of a query is a part of the query. So positions in a part are added to the
position of the part. -/
theorem slice_slice (query : Query) {start stop i j : Nat} (h : start + j ≤ stop) :
    (query.slice start stop).slice i j = query.slice (start + i) (start + j) := by
  simp only [slice, List.drop_take, List.drop_drop, List.take_take, Query.mk.injEq]
  congr 1
  omega

/-- The noise of passing over the tokens between the given pairs of positions. -/
def noise (query : Query) (gaps : List (Nat × Nat)) : Noise where
  tokens := (gaps.map fun gap => gap.2 - gap.1).foldl (· + ·) 0
  chars := (gaps.map fun gap => (query.slice gap.1 gap.2).charCount).foldl (· + ·) 0

end Query

/-- The gaps around one child are those within both limits on noise that leave room for the
child. -/
theorem mem_outerGaps {maxLeading maxNoise span left right : Nat} :
    (left, right) ∈ outerGaps maxLeading maxNoise span ↔
      left ≤ maxLeading ∧ left + right ≤ maxNoise ∧ left + right < span := by
  simp only [outerGaps, List.mem_flatMap, List.mem_range, List.mem_map, List.mem_filter,
    decide_eq_true_eq, Prod.mk.injEq]
  constructor
  · rintro ⟨_, hLeft, _, ⟨hRight, hSpan⟩, rfl, rfl⟩
    omega
  · rintro ⟨hLeading, hNoise, hSpan⟩
    exact ⟨left, by omega, right, ⟨by omega, hSpan⟩, rfl, rfl⟩

/-- The gaps around and between two children are those within the limit on noise that leave
room. -/
theorem mem_innerGaps {maxNoise span left middle right : Nat} :
    (left, middle, right) ∈ innerGaps maxNoise span ↔
      left + middle + right ≤ maxNoise ∧ left + middle + right < span := by
  simp only [innerGaps, List.mem_flatMap, List.mem_range, List.mem_map, List.mem_filter,
    decide_eq_true_eq, Prod.mk.injEq]
  constructor
  · rintro ⟨_, hLeft, _, hMiddle, _, ⟨hRight, hSpan⟩, rfl, rfl, rfl⟩
    omega
  · rintro ⟨hNoise, hSpan⟩
    exact ⟨left, by omega, middle, by omega, right, ⟨by omega, hSpan⟩, rfl, rfl, rfl⟩

namespace Rule

variable {S : Type}

/-- A split leaves a token to each of the children, beside the gaps. -/
theorem mem_splits {start stop left middle right split : Nat} :
    split ∈ splits start stop (left, middle, right) ↔
      start + left < split ∧ split + middle + right < stop := by
  simp only [splits, List.mem_range'_1]
  omega

/-- A rule of words derives a span that reads as its words, unless its action fails. Nothing can
be passed over. -/
theorem mem_deriveWords {rule : Rule} {literals : List String} {span : Query} {d : Derivation S} :
    d ∈ rule.deriveWords literals span ↔
      span.normals = literals ∧ ∃ semantics,
        applyAction rule.action (Semantics.empty.insert valueKey span.rawText) [] =
          some semantics ∧ d = .words rule semantics := by
  rw [deriveWords]
  split
  · next hNormals =>
    cases hAction : applyAction rule.action (Semantics.empty.insert valueKey span.rawText) [] <;>
      simp [hNormals]
  · next hNormals => simp [hNormals]

/-- The noise around a child is counted on the span, which is the same as on the query. -/
theorem outerNoise_slice (query : Query) {start stop left right : Nat} (hStop : stop ≤ query.size)
    (hSpan : left + right < stop - start) :
    outerNoise (query.slice start stop) left right =
      query.noise [(start, start + left), (stop - right, stop)] := by
  have hLeft : (query.slice start stop).slice 0 left = query.slice start (start + left) :=
    query.slice_slice (by omega)
  have hRight : (query.slice start stop).slice (stop - start - right) (stop - start) =
      query.slice (stop - right) stop := by
    rw [query.slice_slice (by omega), show start + (stop - start - right) = stop - right by omega,
      show start + (stop - start) = stop by omega]
  rw [outerNoise, query.size_slice hStop, hLeft, hRight]
  simp only [Query.noise, List.map_cons, List.map_nil, List.foldl_cons, List.foldl_nil,
    Noise.mk.injEq]
  omega

theorem innerNoise_eq_noise (query : Query) {start stop left right : Nat} (middle split : Nat)
    (hSpan : left + right < stop - start) :
    innerNoise query start stop left middle right split =
      query.noise [(start, start + left), (split, split + middle), (stop - right, stop)] := by
  simp only [innerNoise, Query.noise, List.map_cons, List.map_nil, List.foldl_cons, List.foldl_nil,
    Noise.mk.injEq]
  omega

variable [Scalar S] (settings : Settings S) (rule : Rule)
  (cell : Nat → Nat → List (Derivation S)) (query : Query)

/-- Nothing is lost where the search for children stops early at an empty list. The search then is
a loop over gaps and derivations alone. -/
theorem deriveUnary_eq_flatMap (symbol : SymbolId) (start stop : Nat) :
    rule.deriveUnary settings symbol cell query start stop =
      (outerGaps settings.maxLeadingNoise settings.maxNoise (stop - start)).flatMap fun gaps =>
        ((cell (start + gaps.1) (stop - gaps.2)).filter (·.lhs == symbol)).filterMap
          (rule.deriveFromChild? settings (stop - start)
            (outerNoise (query.slice start stop) gaps.1 gaps.2)) := by
  rw [deriveUnary]
  congr 1
  funext gaps
  split
  · next hNone => rw [hNone, List.filterMap_nil]
  · rfl

/-- At a split the results are those of all pairs of derivations of the two children. An empty
list of either ends the search early and loses nothing. -/
theorem deriveAtSplit_eq_flatMap (left right : SymbolId) (start stop : Nat)
    (gaps : Nat × Nat × Nat) (split : Nat) :
    rule.deriveAtSplit settings left right cell query start stop gaps split =
      ((cell (start + gaps.1) split).filter (·.lhs == left)).flatMap fun first =>
        ((cell (split + gaps.2.1) (stop - gaps.2.2)).filter (·.lhs == right)).filterMap
          (rule.deriveFromChildren? settings (stop - start)
            (innerNoise query start stop gaps.1 gaps.2.1 gaps.2.2 split) first) := by
  rw [deriveAtSplit]
  split
  · next hNone => rw [hNone, List.flatMap_nil]
  · split
    · next hNone => simp [hNone]
    · rfl

variable {settings rule cell query}

/-- A unary rule derives a span from each derivation of its child on a part of the span, if the
tokens around the part are within the limits on noise. The limit in front of the child is a
separate one. -/
theorem mem_deriveUnary {symbol : SymbolId} {start stop : Nat} (hStop : stop ≤ query.size)
    {d : Derivation S} :
    d ∈ rule.deriveUnary settings symbol cell query start stop ↔
      ∃ a b, start ≤ a ∧ a < b ∧ b ≤ stop ∧ a - start ≤ settings.maxLeadingNoise ∧
        (a - start) + (stop - b) ≤ settings.maxNoise ∧ ∃ child ∈ cell a b, child.lhs = symbol ∧
          rule.deriveFromChild? settings (stop - start) (query.noise [(start, a), (b, stop)])
            child = some d := by
  simp only [deriveUnary_eq_flatMap, List.mem_flatMap, List.mem_filterMap, List.mem_filter,
    beq_iff_eq, and_assoc, Prod.exists]
  constructor
  · rintro ⟨left, right, hGaps, child, hChild, hSymbol, hDerive⟩
    obtain ⟨hLeading, hNoise, hSpan⟩ := mem_outerGaps.1 hGaps
    rw [outerNoise_slice query hStop hSpan] at hDerive
    exact ⟨start + left, stop - right, by omega, by omega, by omega, by omega, by omega,
      child, hChild, hSymbol, hDerive⟩
  · rintro ⟨a, b, hStart, hNonempty, hEnd, hLeading, hNoise, child, hChild, hSymbol, hDerive⟩
    have hSpan : (a - start) + (stop - b) < stop - start := by omega
    refine ⟨a - start, stop - b, mem_outerGaps.2 ⟨hLeading, hNoise, hSpan⟩, child, ?_⟩
    rw [outerNoise_slice query hStop hSpan, Nat.add_sub_cancel' hStart, Nat.sub_sub_self hEnd]
    exact ⟨hChild, hSymbol, hDerive⟩

/-- A binary rule derives a span from derivations of its children on two parts of the span, if the
tokens around and between the parts are within the limit on noise. The limit counts all three gaps
together. -/
theorem mem_deriveBinary {left right : SymbolId} {start stop : Nat} {d : Derivation S} :
    d ∈ rule.deriveBinary settings left right cell query start stop ↔
      ∃ a split next b, start ≤ a ∧ a < split ∧ split ≤ next ∧ next < b ∧ b ≤ stop ∧
        (a - start) + (next - split) + (stop - b) ≤ settings.maxNoise ∧
        ∃ first ∈ cell a split, first.lhs = left ∧ ∃ second ∈ cell next b, second.lhs = right ∧
          rule.deriveFromChildren? settings (stop - start)
            (query.noise [(start, a), (split, next), (b, stop)]) first second = some d := by
  simp only [deriveBinary, deriveAtSplit_eq_flatMap, List.mem_flatMap, List.mem_filterMap,
    List.mem_filter, beq_iff_eq, and_assoc, Prod.exists]
  constructor
  · rintro ⟨l, m, r, hGaps, split, hSplit, first, hFirst, hLeft, second, hSecond, hRight, hDerive⟩
    obtain ⟨hNoise, hSpan⟩ := mem_innerGaps.1 hGaps
    obtain ⟨hBefore, hAfter⟩ := mem_splits.1 hSplit
    rw [innerNoise_eq_noise query m split (by omega)] at hDerive
    exact ⟨start + l, split, split + m, stop - r, by omega, by omega, by omega, by omega,
      by omega, by omega, first, hFirst, hLeft, second, hSecond, hRight, hDerive⟩
  · rintro ⟨a, split, next, b, hStart, hFirstSpan, hGap, hSecondSpan, hEnd, hNoise,
      first, hFirst, hLeft, second, hSecond, hRight, hDerive⟩
    refine ⟨a - start, next - split, stop - b, mem_innerGaps.2 ⟨hNoise, by omega⟩, split,
      mem_splits.2 ⟨by omega, by omega⟩, first, ?_⟩
    rw [innerNoise_eq_noise query (next - split) split (by omega), Nat.add_sub_cancel' hStart,
      Nat.add_sub_cancel' hGap, Nat.sub_sub_self hEnd]
    exact ⟨hFirst, hLeft, second, hSecond, hRight, hDerive⟩

/-- A rule yields a tree for a span, given the trees in cells. The tree has the rule at its root and
trees of the cells below it, and the tokens that it passes over are within the limits on noise. -/
inductive Yields (settings : Settings S) (rule : Rule) (cell : Nat → Nat → List (Derivation S))
    (query : Query) (start stop : Nat) : Derivation S → Prop where
  | words {literals : List String} {semantics : Semantics} (body : rule.body = .words literals)
      (spelled : (query.slice start stop).normals = literals)
      (acted : applyAction rule.action
        (Semantics.empty.insert valueKey (query.slice start stop).rawText) [] = some semantics) :
      Yields settings rule cell query start stop (.words rule semantics)
  | unary {a b : Nat} {child : Derivation S} {semantics : Semantics} (found : child ∈ cell a b)
      (leading : start ≤ a) (nonempty : a < b) (trailing : b ≤ stop)
      (body : rule.body = .unary child.lhs)
      (leadingLimit : a - start ≤ settings.maxLeadingNoise)
      (limit : (a - start) + (stop - b) ≤ settings.maxNoise)
      (acted : applyAction rule.action child.semantics [child.semantics] = some semantics) :
      Yields settings rule cell query start stop
        (.unary rule child semantics ((query.noise [(start, a), (b, stop)]).decay
          settings.noisePenalty (stop - start) child.score))
  | binary {a split next b : Nat} {first second : Derivation S} {semantics : Semantics}
      (foundFirst : first ∈ cell a split) (foundSecond : second ∈ cell next b)
      (leading : start ≤ a) (nonemptyFirst : a < split) (between : split ≤ next)
      (nonemptySecond : next < b) (trailing : b ≤ stop)
      (body : rule.body = .binary first.lhs second.lhs)
      (limit : (a - start) + (next - split) + (stop - b) ≤ settings.maxNoise)
      (acted : applyAction rule.action
        (Semantics.merge settings.merge first.semantics second.semantics).1
        [first.semantics, second.semantics] = some semantics) :
      Yields settings rule cell query start stop
        (.binary rule first second semantics
          ((Semantics.merge settings.merge first.semantics second.semantics).2 *
            (query.noise [(start, a), (split, next), (b, stop)]).decay settings.noisePenalty
              (stop - start) (first.score * second.score)))

/-- What a rule derives on a span is what the relation says. This is the one place where the loops
of the search are taken apart. -/
theorem mem_derive_iff {start stop : Nat} (hStop : stop ≤ query.size) {d : Derivation S} :
    d ∈ rule.derive settings cell query start stop ↔
      rule.Yields settings cell query start stop d := by
  rw [derive]
  constructor
  · intro h
    cases hBody : rule.body with
    | words literals =>
        rw [hBody] at h
        obtain ⟨spelled, semantics, acted, rfl⟩ := mem_deriveWords.1 h
        exact .words hBody spelled acted
    | unary symbol =>
        rw [hBody] at h
        obtain ⟨a, b, leading, nonempty, trailing, leadingLimit, limit, child, found, rfl,
          hDerive⟩ := (mem_deriveUnary hStop).1 h
        obtain ⟨semantics, acted, rfl⟩ := Option.map_eq_some_iff.1 hDerive
        exact .unary found leading nonempty trailing hBody leadingLimit limit acted
    | binary left right =>
        rw [hBody] at h
        obtain ⟨a, split, next, b, leading, nonemptyFirst, between, nonemptySecond, trailing,
          limit, first, foundFirst, rfl, second, foundSecond, rfl, hDerive⟩ :=
          mem_deriveBinary.1 h
        obtain ⟨semantics, acted, rfl⟩ := Option.map_eq_some_iff.1 hDerive
        exact .binary foundFirst foundSecond leading nonemptyFirst between nonemptySecond trailing
          hBody limit acted
  · intro h
    cases h with
    | words body spelled acted =>
        rw [body]
        exact mem_deriveWords.2 ⟨spelled, _, acted, rfl⟩
    | unary found leading nonempty trailing body leadingLimit limit acted =>
        rw [body]
        refine (mem_deriveUnary hStop).2 ⟨_, _, leading, nonempty, trailing, leadingLimit, limit,
          _, found, rfl, ?_⟩
        rw [deriveFromChild?, acted, Option.map_some]
    | binary foundFirst foundSecond leading nonemptyFirst between nonemptySecond trailing body
        limit acted =>
        rw [body]
        refine mem_deriveBinary.2 ⟨_, _, _, _, leading, nonemptyFirst, between, nonemptySecond,
          trailing, limit, _, foundFirst, rfl, _, foundSecond, rfl, ?_⟩
        simp only [deriveFromChildren?, acted, Option.map_some]

/-- A tree has the symbol of the rule at its root. -/
theorem Yields.lhs_eq {start stop : Nat} {d : Derivation S}
    (h : rule.Yields settings cell query start stop d) : d.lhs = rule.lhs := by
  cases h <;> rfl

/-- The splits of a span move with the span. -/
theorem splits_add (start size : Nat) (gaps : Nat × Nat × Nat) :
    splits start (start + size) gaps = (splits 0 size gaps).map (start + ·) := by
  rw [splits, splits, List.map_add_range']
  congr 1 <;> omega

section Congruence

variable {cell' : Nat → Nat → List (Derivation S)} {query' : Query} {start start' size : Nat}

/-- Spans with the same tokens have the same parts. -/
theorem slice_congr (hTokens : query.slice start (start + size) =
      query'.slice start' (start' + size)) {i j : Nat} (hj : j ≤ size) :
    query.slice (start + i) (start + j) = query'.slice (start' + i) (start' + j) := by
  rw [← query.slice_slice (Nat.add_le_add_left hj start), hTokens,
    query'.slice_slice (Nat.add_le_add_left hj start')]

/-- A unary rule derives the same trees on two spans with the same tokens and the same cells
inside. -/
theorem deriveUnary_congr (symbol : SymbolId)
    (hTokens : query.slice start (start + size) = query'.slice start' (start' + size))
    (hCells : ∀ i j, i < j → j ≤ size →
      cell (start + i) (start + j) = cell' (start' + i) (start' + j)) :
    rule.deriveUnary settings symbol cell query start (start + size) =
      rule.deriveUnary settings symbol cell' query' start' (start' + size) := by
  simp only [deriveUnary_eq_flatMap, Nat.add_sub_cancel_left, hTokens]
  refine List.flatMap_congr fun gaps hGaps => ?_
  obtain ⟨-, -, hSpan⟩ := mem_outerGaps.1 hGaps
  rw [Nat.add_sub_assoc (by omega), Nat.add_sub_assoc (by omega),
    hCells gaps.1 (size - gaps.2) (by omega) (by omega)]

/-- The same gaps in spans with the same tokens make the same noise. -/
theorem innerNoise_congr
    (hTokens : query.slice start (start + size) = query'.slice start' (start' + size))
    {left middle right split : Nat} (hSpan : left + middle + right < size)
    (hSplit : split + middle + right < size) :
    innerNoise query start (start + size) left middle right (start + split) =
      innerNoise query' start' (start' + size) left middle right (start' + split) := by
  have hLeft := slice_congr hTokens (i := 0) (j := left) (by omega)
  have hRight := slice_congr hTokens (i := size - right) (j := size) (by omega)
  have hMiddle := slice_congr hTokens (i := split) (j := split + middle) (by omega)
  simp only [Nat.add_zero, ← Nat.add_assoc] at hLeft hMiddle
  rw [innerNoise, innerNoise, hLeft, hMiddle, Nat.add_sub_assoc (by omega), hRight,
    Nat.add_sub_assoc (by omega)]

/-- A binary rule derives the same trees on two spans with the same tokens and the same cells
inside. -/
theorem deriveBinary_congr (left right : SymbolId)
    (hTokens : query.slice start (start + size) = query'.slice start' (start' + size))
    (hCells : ∀ i j, i < j → j ≤ size →
      cell (start + i) (start + j) = cell' (start' + i) (start' + j)) :
    rule.deriveBinary settings left right cell query start (start + size) =
      rule.deriveBinary settings left right cell' query' start' (start' + size) := by
  simp only [deriveBinary, deriveAtSplit_eq_flatMap, Nat.add_sub_cancel_left, splits_add,
    List.flatMap_map]
  refine List.flatMap_congr fun gaps hGaps => List.flatMap_congr fun split hSplit => ?_
  obtain ⟨l, m, r⟩ := gaps
  obtain ⟨-, hSpan⟩ := mem_innerGaps.1 hGaps
  obtain ⟨hBefore, hAfter⟩ := mem_splits.1 hSplit
  dsimp only
  rw [innerNoise_congr hTokens hSpan hAfter, hCells l split (by omega) (by omega),
    Nat.add_assoc start, Nat.add_assoc start', Nat.add_sub_assoc (by omega),
    Nat.add_sub_assoc (by omega), hCells (split + m) (size - r) (by omega) (by omega)]

/-- What a rule derives on a span is settled by the tokens of the span and the cells of its parts.
Neither the position of the span nor anything outside it matters. The same trees come in the same
order. -/
theorem derive_congr
    (hTokens : query.slice start (start + size) = query'.slice start' (start' + size))
    (hCells : ∀ i j, i < j → j ≤ size →
      cell (start + i) (start + j) = cell' (start' + i) (start' + j)) :
    rule.derive settings cell query start (start + size) =
      rule.derive settings cell' query' start' (start' + size) := by
  rw [derive, derive]
  cases rule.body with
  | words literals => simp only [hTokens]
  | unary child => exact deriveUnary_congr child hTokens hCells
  | binary left right => exact deriveBinary_congr left right hTokens hCells

end Congruence

end Rule

end PlotQuery
