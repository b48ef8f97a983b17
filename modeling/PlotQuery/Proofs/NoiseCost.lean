import Mathlib.Algebra.Order.GroupWithZero.Basic
import PlotQuery.Proofs.ExactShares

/-! What noise costs, whatever there is of it. Every token that is passed over takes its share, and
the penalty counts once for each token and each character. The count is a signed integer of 32 bits:
from the bound on these integers on it is negative, and then the penalty is a reward. -/
namespace PlotQuery

namespace Scalar

/-- A negative exponent gives the power of the reciprocal. So it raises a score where the penalty
is below one. -/
theorem power_rat_int (base : ℚ) (n : Int) : power base n = base ^ n := by
  rw [power, powerBy_rat, rat_one, one_mul]
  split
  · next hNegative =>
    rw [one_div, ← zpow_natCast, ← zpow_neg, Int.ofNat_natAbs_of_nonpos hNegative.le, neg_neg]
  · next hNonneg =>
    rw [← zpow_natCast, Int.natAbs_of_nonneg (not_lt.1 hNonneg)]

end Scalar

namespace Noise

variable {noise less more : Noise} {penalty base : ℚ} {span : Nat}

theorem bmod_nonneg_iff {n : Nat} : 0 ≤ Int.bmod n (Nat.pow 2 32) ↔ n % 2 ^ 32 < 2 ^ 31 := by
  simp only [Int.bmod, Nat.pow_eq]
  omega

/-- The sign of the exponent is that of the count cut to 32 bits. -/
theorem exponent_nonneg_iff :
    0 ≤ noise.exponent ↔ (noise.tokens + noise.chars) % 2 ^ 32 < 2 ^ 31 :=
  bmod_nonneg_iff

/-- Below the bound the exponent is the count. Nothing is cut off there. -/
theorem exponent_of_lt (h : noise.tokens + noise.chars < 2 ^ 31) :
    noise.exponent = (noise.tokens + noise.chars : Nat) :=
  bmod_of_lt h

/-- Below the bound more noise has a greater exponent. -/
theorem exponent_le_exponent (hTokens : less.tokens ≤ more.tokens) (hChars : less.chars ≤ more.chars)
    (hCount : more.tokens + more.chars < 2 ^ 31) : less.exponent ≤ more.exponent := by
  have hLess : less.tokens + less.chars ≤ more.tokens + more.chars := Nat.add_le_add hTokens hChars
  rw [exponent_of_lt hCount, exponent_of_lt (hLess.trans_lt hCount)]
  exact Int.ofNat_le.2 hLess

/-- A score is left with two factors, one for the tokens that are kept and one power of the
penalty. -/
theorem decay_eq_mul_zpow (hSpan : 0 < span) (noise : Noise) (penalty base : ℚ) :
    noise.decay penalty span base = base * noise.kept span * penalty ^ noise.exponent := by
  rw [decay, if_neg hSpan.ne', Scalar.power_rat_int]

theorem kept_nonneg_rat (noise : Noise) (span : Nat) : (0 : ℚ) ≤ noise.kept span :=
  (Scalar.rat_le_iff _ _).1 (kept_nonneg noise span)

/-- The more tokens are passed over, the less is kept, and nothing where all are. Both may be as
many as the span has, or more. -/
theorem kept_le_kept (h : less.tokens ≤ more.tokens) (span : Nat) :
    (more.kept span : ℚ) ≤ less.kept span := by
  have hRest : ((span - more.tokens : Nat) : ℚ) ≤ (span - less.tokens : Nat) := by
    exact_mod_cast Nat.sub_le_sub_left h span
  rw [kept, kept]
  simp only [Scalar.rat_ofNat]
  gcongr

theorem kept_none (hSpan : 0 < span) (chars : Nat) : ((Noise.mk 0 chars).kept span : ℚ) = 1 := by
  rw [kept, Scalar.rat_ofNat, Scalar.rat_ofNat]
  exact div_self (by exact_mod_cast hSpan.ne')

theorem kept_le_one (hSpan : 0 < span) (noise : Noise) : (noise.kept span : ℚ) ≤ 1 := by
  rw [← kept_none hSpan 0]
  exact kept_le_kept (Nat.zero_le noise.tokens) span

/-- No noise makes a score negative, whatever the exponent. -/
theorem decay_nonneg_rat (hPenalty : penalty ∈ shares) (hBase : 0 ≤ base) (noise : Noise) :
    0 ≤ noise.decay penalty span base :=
  (Scalar.rat_le_iff _ _).1 (decay_nonneg noise span ((Scalar.rat_le_iff _ _).2 hPenalty.1.le)
    ((Scalar.rat_le_iff _ _).2 hBase))

/-- A score does not rise if the exponent is not negative. -/
theorem decay_le_base (hPenalty : penalty ∈ shares) (hBase : 0 ≤ base) (hSpan : 0 < span)
    (hExponent : 0 ≤ noise.exponent) : noise.decay penalty span base ≤ base := by
  rw [decay_eq_mul_zpow hSpan]
  have hPower : penalty ^ noise.exponent ≤ 1 := zpow_le_one₀ hPenalty.1 hPenalty.2 hExponent
  calc base * noise.kept span * penalty ^ noise.exponent
      ≤ base * noise.kept span :=
        mul_le_of_le_one_right (mul_nonneg hBase (kept_nonneg_rat noise span)) hPower
    _ ≤ base := mul_le_of_le_one_right hBase (kept_le_one hSpan noise)

/-- More tokens and a greater exponent leave less of a score. The exponents may be negative. -/
theorem decay_antitone (hPenalty : penalty ∈ shares) (hBase : 0 ≤ base) (hSpan : 0 < span)
    (hTokens : less.tokens ≤ more.tokens) (hExponent : less.exponent ≤ more.exponent) :
    more.decay penalty span base ≤ less.decay penalty span base := by
  rw [decay_eq_mul_zpow hSpan, decay_eq_mul_zpow hSpan]
  have hKept : base * more.kept span ≤ base * less.kept span :=
    mul_le_mul_of_nonneg_left (kept_le_kept hTokens span) hBase
  have hPower : penalty ^ more.exponent ≤ penalty ^ less.exponent :=
    zpow_le_zpow_right_of_le_one₀ hPenalty.1 hPenalty.2 hExponent
  exact mul_le_mul hKept hPower (zpow_pos hPenalty.1 _).le
    (mul_nonneg hBase (kept_nonneg_rat less span))

/-- Without a token that is passed over, only the sign of the exponent counts. All tokens of the
span are kept, and the power alone decides. -/
theorem decay_le_base_iff (hPenalty : penalty ∈ shares) (hLess : penalty < 1) (hBase : 0 < base)
    (hSpan : 0 < span) (hTokens : noise.tokens = 0) :
    noise.decay penalty span base ≤ base ↔ 0 ≤ noise.exponent := by
  obtain ⟨_, chars⟩ := noise
  obtain rfl := hTokens
  rw [decay_eq_mul_zpow hSpan, kept_none hSpan, mul_one, mul_le_iff_le_one_right hBase,
    zpow_le_one_iff_right_of_lt_one₀ hPenalty.1 hLess]

/-- A score never gets negative. It does not rise either, as long as the count of tokens and
characters stays in the lower half of its range of 32 bits, and more noise never costs less below
the upper half. In the upper half characters alone raise every score. The exponent is the count
cut to 32 bits, and that is why it may be negative. -/
theorem decay_bounds_and_order (hPenalty : penalty ∈ shares) (hBase : 0 ≤ base) (hSpan : 0 < span) :
    (∀ noise : Noise, 0 ≤ noise.decay penalty span base ∧
      ((noise.tokens + noise.chars) % 2 ^ 32 < 2 ^ 31 →
        noise.decay penalty span base ≤ base)) ∧
    (∀ less more : Noise, less.tokens ≤ more.tokens → less.chars ≤ more.chars →
      more.tokens + more.chars < 2 ^ 31 →
      more.decay penalty span base ≤ less.decay penalty span base) ∧
    (0 < base → penalty < 1 → ∀ noise : Noise, noise.tokens = 0 →
      (noise.decay penalty span base ≤ base ↔ noise.chars % 2 ^ 32 < 2 ^ 31)) := by
  refine ⟨fun noise => ⟨decay_nonneg_rat hPenalty hBase noise, fun hCount => ?_⟩, ?_, ?_⟩
  · exact decay_le_base hPenalty hBase hSpan (exponent_nonneg_iff.2 hCount)
  · intro less more hTokens hChars hCount
    exact decay_antitone hPenalty hBase hSpan hTokens
      (exponent_le_exponent hTokens hChars hCount)
  · intro hSome hLess noise hTokens
    rw [decay_le_base_iff hPenalty hLess hSome hSpan hTokens, exponent_nonneg_iff, hTokens,
      Nat.zero_add]

/-- Of a count beyond 32 bits only the excess counts, and a count in the upper half of the range raises
the score. -/
theorem decay_bounds_and_order_wrappedCount :
    (19 / 20 : ℚ) ∈ shares ∧
    (Noise.mk 1 4294967300).decay (19 / 20 : ℚ) 4 (3 / 4) ≤ 3 / 4 ∧
    (Noise.mk 2 9).decay (19 / 20 : ℚ) 4 (3 / 4) ≤ (Noise.mk 1 3).decay (19 / 20) 4 (3 / 4) ∧
    ¬(Noise.mk 0 2147483648).decay (19 / 20 : ℚ) 4 (3 / 4) ≤ 3 / 4 := by
  have hPenalty : (19 / 20 : ℚ) ∈ shares := by constructor <;> norm_num
  obtain ⟨hBounds, hOrder, hRange⟩ :=
    decay_bounds_and_order hPenalty (show (0 : ℚ) ≤ 3 / 4 by norm_num) (show 0 < 4 by decide)
  refine ⟨hPenalty, (hBounds ⟨1, 4294967300⟩).2 (by decide), ?_, ?_⟩
  · exact hOrder ⟨1, 3⟩ ⟨2, 9⟩ (by decide) (by decide) (by decide)
  · rw [hRange (by norm_num) (by norm_num) ⟨0, 2147483648⟩ rfl]
    decide

/-- The greatest count of 32 bits is an exponent of minus one, and doubles a score that no noise
leaves as it is. -/
theorem decay_rises_at_greatest_count :
    ¬∀ (base penalty : ℚ) (span : Nat), 0 ≤ base → penalty ∈ shares → 0 < span →
      ∀ noise : Noise, noise.tokens + noise.chars < 2 ^ 64 →
        noise.decay penalty span base ≤ base ∧
          noise.decay penalty span base ≤ none.decay penalty span base := by
  intro hNeverRises
  have hTwice : (Noise.mk 0 4294967295).decay (1 / 2 : ℚ) 1 1 = 2 := by decide +kernel
  have hLow := (hNeverRises 1 (1 / 2) 1 (by norm_num) (by constructor <;> norm_num) (by decide)
    ⟨0, 4294967295⟩ (by decide)).1
  rw [hTwice] at hLow
  exact absurd hLow (by norm_num)

end Noise

end PlotQuery
