import Mathlib.Algebra.Order.Field.Rat
import PlotQuery.Noise

/-! Laws of arithmetic under which scores can be reasoned about, and the rational numbers as exact
arithmetic. Doubles have the laws of the order by which candidates are sorted, but not those of the
arithmetic: they have values that are no number, and they round. -/
namespace PlotQuery

/-- A value that is a number. It is at most itself, and what is no number is not. -/
def Scalar.IsNumber {S : Type} [Scalar S] (a : S) : Prop :=
  Scalar.le a a

instance {S : Type} [Scalar S] (a : S) : Decidable (Scalar.IsNumber a) :=
  inferInstanceAs (Decidable (Scalar.le a a = true))

/-- Arithmetic in which the order for sorting arranges all values in one row. The other comparison
agrees with it on numbers, and may be more generous. -/
class OrderedScalar (S : Type) [Scalar S] : Prop where
  isLE_total (a b : S) : (Scalar.order a b).isLE ∨ (Scalar.order b a).isLE
  isLE_trans {a b c : S} : (Scalar.order a b).isLE → (Scalar.order b c).isLE →
    (Scalar.order a c).isLE
  le_of_isLE {a b : S} : Scalar.IsNumber a → Scalar.IsNumber b → (Scalar.order a b).isLE →
    Scalar.le a b

/-- Arithmetic in which numbers are compared by one total order, and in which a factor that is not
negative keeps the order. -/
class MonotoneScalar (S : Type) [Scalar S] : Prop where
  le_total (a b : S) : Scalar.le a b ∨ Scalar.le b a
  le_trans {a b c : S} : Scalar.le a b → Scalar.le b c → Scalar.le a c
  isLE_order (a b : S) : (Scalar.order a b).isLE = Scalar.le a b
  ofNat_nonneg (n : Nat) : Scalar.le Scalar.zero (Scalar.ofNat n : S)
  mul_nonneg {a b : S} : Scalar.le Scalar.zero a → Scalar.le Scalar.zero b →
    Scalar.le Scalar.zero (a * b)
  div_nonneg {a b : S} : Scalar.le Scalar.zero a → Scalar.le Scalar.zero b →
    Scalar.le Scalar.zero (a / b)
  mul_le_mul_right {a b c : S} : Scalar.le Scalar.zero c → Scalar.le a b →
    Scalar.le (a * c) (b * c)
  mul_le_mul_left {a b c : S} : Scalar.le Scalar.zero c → Scalar.le a b →
    Scalar.le (c * a) (c * b)

instance {S : Type} [Scalar S] [MonotoneScalar S] : OrderedScalar S where
  isLE_total a b := by
    rw [MonotoneScalar.isLE_order, MonotoneScalar.isLE_order]
    exact MonotoneScalar.le_total a b
  isLE_trans hab hbc := by
    rw [MonotoneScalar.isLE_order] at hab hbc ⊢
    exact MonotoneScalar.le_trans hab hbc
  le_of_isLE _ _ h := by rwa [MonotoneScalar.isLE_order] at h

/-- Arithmetic in which products do not depend on the order of evaluation. -/
class ExactScalar (S : Type) [Scalar S] : Prop where
  mul_assoc (a b c : S) : a * b * c = a * (b * c)
  one_mul (a : S) : Scalar.one * a = a
  mul_one (a : S) : a * Scalar.one = a

instance : Scalar ℚ where
  ofNat n := n
  abs := abs
  lt a b := decide (a < b)
  le a b := decide (a ≤ b)
  order := compare
  isFinite _ := true

namespace Scalar

@[simp] theorem rat_zero : (zero : ℚ) = 0 := rfl

@[simp] theorem rat_one : (one : ℚ) = 1 := rfl

@[simp] theorem rat_ofNat (n : Nat) : (ofNat n : ℚ) = n := rfl

@[simp] theorem rat_lt_iff (a b : ℚ) : lt a b = true ↔ a < b :=
  decide_eq_true_iff

@[simp] theorem rat_le_iff (a b : ℚ) : le a b = true ↔ a ≤ b :=
  decide_eq_true_iff

end Scalar

instance : MonotoneScalar ℚ where
  le_total a b := by simpa using le_total a b
  le_trans h h' := by
    simp only [Scalar.rat_le_iff] at h h' ⊢
    exact le_trans h h'
  isLE_order a b := by
    rw [Bool.eq_iff_iff, Scalar.rat_le_iff, ← compare_le_iff_le, Ordering.isLE_iff_ne_gt]
    rfl
  ofNat_nonneg n := by simp
  mul_nonneg ha hb := by
    simp only [Scalar.rat_le_iff, Scalar.rat_zero] at ha hb ⊢
    exact mul_nonneg ha hb
  div_nonneg ha hb := by
    simp only [Scalar.rat_le_iff, Scalar.rat_zero] at ha hb ⊢
    exact div_nonneg ha hb
  mul_le_mul_right hc h := by
    simp only [Scalar.rat_le_iff, Scalar.rat_zero] at hc h ⊢
    exact mul_le_mul_of_nonneg_right h hc
  mul_le_mul_left hc h := by
    simp only [Scalar.rat_le_iff, Scalar.rat_zero] at hc h ⊢
    exact mul_le_mul_of_nonneg_left h hc

instance : ExactScalar ℚ where
  mul_assoc := mul_assoc
  one_mul := one_mul
  mul_one := mul_one

variable {S : Type} [Scalar S] [MonotoneScalar S]

namespace MonotoneScalar

theorem le_refl (a : S) : Scalar.le a a :=
  (le_total a a).elim id id

theorem one_nonneg : Scalar.le Scalar.zero (Scalar.one : S) :=
  ofNat_nonneg 1

theorem mul_le_mul {a b c d : S} (hc : Scalar.le Scalar.zero c) (hb : Scalar.le Scalar.zero b)
    (h : Scalar.le a b) (h' : Scalar.le c d) : Scalar.le (a * c) (b * d) :=
  le_trans (mul_le_mul_right hc h) (mul_le_mul_left hb h')

/-- Squaring and multiplying never leaves the scores that are not negative, whatever rounding
does. -/
theorem powerBy_nonneg {base result : S} (hBase : Scalar.le Scalar.zero base)
    (hResult : Scalar.le Scalar.zero result) (n : Nat) :
    Scalar.le Scalar.zero (Scalar.powerBy base result n) := by
  induction n using Nat.strongRecOn generalizing base result with
  | _ n ih =>
      have hNext : Scalar.le Scalar.zero (if n % 2 = 1 then result * base else result) := by
        split
        · exact mul_nonneg hResult hBase
        · exact hResult
      rw [Scalar.powerBy]
      split
      · exact hNext
      · exact ih (n / 2) (by omega) (mul_nonneg hBase hBase) hNext

/-- A power of a score that is not negative is not negative, also with a negative exponent. -/
theorem power_nonneg {base : S} (hBase : Scalar.le Scalar.zero base) (n : Int) :
    Scalar.le Scalar.zero (Scalar.power base n) := by
  have hPower := powerBy_nonneg hBase one_nonneg n.natAbs
  rw [Scalar.power]
  split
  · exact div_nonneg one_nonneg hPower
  · exact hPower

end MonotoneScalar

namespace Noise

open MonotoneScalar

theorem kept_nonneg (noise : Noise) (span : Nat) :
    Scalar.le Scalar.zero (noise.kept span : S) :=
  div_nonneg (ofNat_nonneg _) (ofNat_nonneg _)

/-- Noise makes no score negative, if the penalty is not. -/
theorem decay_nonneg {penalty base : S} (noise : Noise) (span : Nat)
    (hPenalty : Scalar.le Scalar.zero penalty) (hBase : Scalar.le Scalar.zero base) :
    Scalar.le Scalar.zero (noise.decay penalty span base) := by
  rw [decay]
  split
  · exact hBase
  · exact mul_nonneg (mul_nonneg hBase (kept_nonneg noise span)) (power_nonneg hPenalty _)

/-- Of two scores on the same span with the same noise, the higher one stays the higher one. So
the best tree is made of best parts. -/
theorem decay_le_decay {penalty base base' : S} (noise : Noise) (span : Nat)
    (hPenalty : Scalar.le Scalar.zero penalty) (h : Scalar.le base base') :
    Scalar.le (noise.decay penalty span base) (noise.decay penalty span base') := by
  rw [decay, decay]
  split
  · exact h
  · exact mul_le_mul_right (power_nonneg hPenalty _)
      (mul_le_mul_right (kept_nonneg noise span) h)

end Noise

end PlotQuery
