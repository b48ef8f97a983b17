import Mathlib.Order.Interval.Set.Basic
import Mathlib.Tactic.FieldSimp
import Mathlib.Tactic.Linarith
import Mathlib.Tactic.Positivity
import PlotQuery.Proofs.Findings
import PlotQuery.Proofs.MergeLaws

/-! The factors of a score in exact arithmetic. What noise, repetitions and inexact names leave of a
score is a positive share of it, and the whole of it only where there are none. -/
namespace PlotQuery

/-- The numbers above zero and up to one. -/
abbrev shares : Set ℚ :=
  Set.Ioc 0 1

theorem mul_mem_shares {a b : ℚ} (ha : a ∈ shares) (hb : b ∈ shares) : a * b ∈ shares :=
  ⟨mul_pos ha.1 hb.1, mul_le_one₀ ha.2 hb.1.le hb.2⟩

/-- A product of shares is the whole only if each of them is. So a score is the whole just where
no factor on the way to it has taken anything. -/
theorem mul_eq_one_iff_of_mem_shares {a b : ℚ} (ha : a ∈ shares) (hb : b ∈ shares) :
    a * b = 1 ↔ a = 1 ∧ b = 1 := by
  constructor
  · intro h
    have hFirst : a * b ≤ a := mul_le_of_le_one_right ha.1.le hb.2
    have hSecond : a * b ≤ b := mul_le_of_le_one_left hb.1.le ha.2
    exact ⟨le_antisymm ha.2 (h ▸ hFirst), le_antisymm hb.2 (h ▸ hSecond)⟩
  · rintro ⟨rfl, rfl⟩
    exact one_mul 1

theorem pow_mem_shares {a : ℚ} (ha : a ∈ shares) (n : Nat) : a ^ n ∈ shares :=
  ⟨pow_pos ha.1 n, pow_le_one₀ ha.1.le ha.2⟩

namespace Scalar

/-- Squaring the base for each binary digit of the exponent gives the power. In exact arithmetic
the order of the factors does not matter. -/
theorem powerBy_rat (base result : ℚ) (n : Nat) : powerBy base result n = result * base ^ n := by
  induction n using Nat.strongRecOn generalizing base result with
  | _ n ih =>
      have hDigits := Nat.div_add_mod n 2
      have hNext : (if n % 2 = 1 then result * base else result) = result * base ^ (n % 2) := by
        rcases Nat.mod_two_eq_zero_or_one n with h | h <;> simp [h]
      rw [powerBy, hNext]
      split
      · next hLast => rw [show n % 2 = n by omega]
      · rw [ih (n / 2) (by omega), ← pow_two, ← pow_mul, mul_assoc, ← pow_add,
          show n % 2 + 2 * (n / 2) = n by omega]

theorem power_rat (base : ℚ) (n : Nat) : power base n = base ^ n := by
  rw [power, powerBy_rat, if_neg (by omega), rat_one, one_mul, Int.natAbs_natCast]

end Scalar

namespace Noise

/-- The share of a score that is left on a span of the given size. -/
def share (noise : Noise) (penalty : ℚ) (span : Nat) : ℚ :=
  noise.kept span * penalty ^ (noise.tokens + noise.chars)

variable {noise : Noise} {penalty : ℚ} {span : Nat}

/-- Below the bound on signed integers of 32 bits nothing is wrapped around. -/
theorem bmod_of_lt {n : Nat} (h : n < 2 ^ 31) : Int.bmod n (Nat.pow 2 32) = n := by
  simp only [Int.bmod, Nat.pow_eq]
  omega

/-- Below the bound on signed integers of 32 bits the penalty counts once for each token and each
character. -/
theorem decay_eq_mul_share (hSpan : 0 < span) (hNoise : noise.tokens + noise.chars < 2 ^ 31)
    (base : ℚ) : noise.decay penalty span base = base * noise.share penalty span := by
  have hExponent : noise.exponent = (noise.tokens + noise.chars : Nat) := bmod_of_lt hNoise
  rw [decay, if_neg (by omega), hExponent, Scalar.power_rat, share, mul_assoc]

/-- As long as a token is left, noise leaves a positive share of the score. -/
theorem kept_mem_shares (h : noise.tokens < span) : (noise.kept span : ℚ) ∈ shares := by
  have hSpan : (0 : ℚ) < span := by exact_mod_cast Nat.zero_lt_of_lt h
  have hRest : (0 : ℚ) < (span - noise.tokens : Nat) := by exact_mod_cast Nat.sub_pos_of_lt h
  rw [kept, Scalar.rat_ofNat, Scalar.rat_ofNat]
  refine ⟨div_pos hRest hSpan, (div_le_one hSpan).2 ?_⟩
  exact_mod_cast Nat.sub_le span noise.tokens

/-- The share that noise leaves counts the tokens and the penalty together, and neither takes
everything. -/
theorem share_mem_shares (hPenalty : penalty ∈ shares) (h : noise.tokens < span) :
    noise.share penalty span ∈ shares :=
  mul_mem_shares (kept_mem_shares h) (pow_mem_shares hPenalty _)

/-- Every token that is passed over takes something of the score. Its characters need not, if the
penalty is one. -/
theorem tokens_eq_zero_of_share_eq_one (hPenalty : penalty ∈ shares) (h : noise.tokens < span)
    (hWhole : noise.share penalty span = 1) : noise.tokens = 0 := by
  have hKept := ((mul_eq_one_iff_of_mem_shares (kept_mem_shares h)
    (pow_mem_shares hPenalty _)).1 hWhole).1
  have hSpan : (span : ℚ) ≠ 0 := by exact_mod_cast (Nat.zero_lt_of_lt h).ne'
  rw [kept, Scalar.rat_ofNat, Scalar.rat_ofNat, div_eq_one_iff_eq hSpan] at hKept
  have hSame : span - noise.tokens = span := by exact_mod_cast hKept
  omega

theorem decay_none (penalty base : ℚ) (span : Nat) : none.decay penalty span base = base := by
  rw [decay]
  split
  · rfl
  · next hSpan =>
    have hKept : (none.kept span : ℚ) = 1 := by
      rw [kept, Scalar.rat_ofNat, Scalar.rat_ofNat]
      exact div_self (by exact_mod_cast hSpan)
    have hExponent : none.exponent = (0 : Nat) := by decide
    rw [hKept, hExponent, Scalar.power_rat, pow_zero, mul_one, mul_one]

end Noise

namespace Semantics

variable {policy : MergePolicy ℚ}

/-- The penalty counts once for each repetition. -/
theorem repeatFactor_rat (n : Nat) : repeatFactor policy n = policy.repeatPenalty ^ n := by
  induction n with
  | zero => exact (pow_zero _).symm
  | succ n ih => rw [repeatFactor, ih, pow_succ]

/-- There is nothing to penalise where both sides share none of the keys that must not be
repeated. The key of values is never counted. -/
theorem repeats_eq_zero_iff {left right : Semantics} :
    repeats policy left right = 0 ↔ ∀ key ∈ policy.nonRepeated, key ≠ valueKey →
      ¬(left.contains key = true ∧ right.contains key = true) := by
  rw [repeats, Finset.card_eq_zero, Finset.eq_empty_iff_forall_notMem]
  simp only [Finset.mem_inter, mem_penalizedKeys, penalizes, Bool.and_eq_true, bne_iff_ne,
    List.contains_iff_mem]
  grind

/-- Merging leaves a positive share of the score. -/
theorem merge_snd_mem_shares (hPenalty : policy.repeatPenalty ∈ shares) (left right : Semantics) :
    (merge policy left right).2 ∈ shares := by
  rw [merge_snd, repeatFactor_rat]
  exact pow_mem_shares hPenalty _

/-- Every repetition that the policy penalises takes something of the score. This needs a penalty
below one. -/
theorem merge_snd_eq_one_iff (hPenalty : policy.repeatPenalty ∈ shares)
    (hLess : policy.repeatPenalty < 1) (left right : Semantics) :
    (merge policy left right).2 = 1 ↔ ∀ key ∈ policy.nonRepeated, key ≠ valueKey →
      ¬(left.contains key = true ∧ right.contains key = true) := by
  rw [merge_snd, repeatFactor_rat, ← repeats_eq_zero_iff]
  refine ⟨fun hOne => by_contra fun hSome => ?_, fun hNone => by rw [hNone, pow_zero]⟩
  exact (pow_lt_one₀ hPenalty.1.le hLess hSome).ne hOne

end Semantics

namespace Annotator

/-- No name is more than fully similar to a text. -/
theorem similarity_le_one (text name : String) : (similarity text name : ℚ) ≤ 1 := by
  rw [similarity]
  split
  · simp
  · rw [Scalar.rat_one, Scalar.rat_ofNat, Scalar.rat_ofNat, sub_le_self_iff]
    positivity

/-- A name that is found has a positive similarity, as a name without any is not better than none
at all. -/
theorem similarity_mem_shares {span : Query} {schema : Schema ℚ} {threshold : ℚ}
    {found : NameMatch ℚ} (h : matchName threshold span schema = some found) :
    found.similarity ∈ shares := by
  have hFold := (Option.filter_eq_some_iff.1 h).1
  refine NameMatch.foldl_better_invariant (P := fun found => found.similarity ∈ shares)
    (fun best name hBest _ hLess => ⟨?_, similarity_le_one _ _⟩) (by simp) found hFold
  rw [Scalar.rat_lt_iff] at hLess
  refine lt_of_le_of_lt ?_ hLess
  cases best with
  | none => exact le_rfl
  | some best => exact (hBest best rfl).1.le

variable [ScalarText ℚ]

/-- A finding of an annotator of the library has a positive score up to one. That of a column is a
similarity, that of a list of numbers its share of the tokens, and all others are one. -/
theorem Finds.score_mem_shares {span : Query} {schema : Schema ℚ} {symbol : String}
    {finding : Finding ℚ} (h : Finds span schema symbol finding) : finding.score ∈ shares := by
  have hOne : (1 : ℚ) ∈ shares := ⟨one_pos, le_rfl⟩
  cases h with
  | numberList nonempty share =>
      have hTexts := List.length_pos_iff.2 nonempty
      have hSpan : (0 : ℚ) < span.size := by exact_mod_cast hTexts.trans_le share
      refine ⟨div_pos (Nat.cast_pos.2 hTexts) hSpan, (div_le_one hSpan).2 (Nat.cast_le.2 share)⟩
  | column matched => exact similarity_mem_shares matched
  | auxiliaryColumn matched => exact similarity_mem_shares matched
  | _ => exact hOne

end Annotator

end PlotQuery
