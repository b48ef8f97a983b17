import PlotQuery.Proofs.DoubleOrder

/-! Finite numbers. Whatever the arithmetic, finite numbers stand in one row, and the magnitude of a
finite number is finite. Doubles have these laws because their bits are compared field by field, and
because a magnitude differs in the sign bit only. -/
namespace PlotQuery

/-- Arithmetic in which finite numbers are compared with one another and have finite magnitudes. -/
class FiniteScalar (S : Type) [Scalar S] : Prop where
  le_of_lt {a b : S} : Scalar.lt a b = true → Scalar.le a b = true
  le_of_not_lt {a b : S} : Scalar.isFinite a = true → Scalar.isFinite b = true →
    Scalar.lt a b = false → Scalar.le b a = true
  isFinite_abs {a : S} : Scalar.isFinite a = true → Scalar.isFinite (Scalar.abs a) = true

instance : FiniteScalar ℚ where
  le_of_lt h := by
    rw [Scalar.rat_lt_iff] at h
    rw [Scalar.rat_le_iff]
    exact h.le
  le_of_not_lt _ _ h := by
    rw [← Bool.not_eq_true, Scalar.rat_lt_iff] at h
    rw [Scalar.rat_le_iff]
    exact not_lt.1 h
  isFinite_abs _ := rfl

namespace Double

open Float.Model Float.Model.UnpackedFloat

variable {u v : UnpackedFloat}

theorem swap_then_compare (e f : Int) (m n : Nat) :
    ((compare e f).then (compare m n)).swap = (compare f e).then (compare n m) := by
  rw [Ordering.swap_then, Int.compare_swap, Nat.compare_swap]

theorem isLE_swap_of_ne_lt {order : Ordering} (h : order ≠ .lt) : order.swap.isLE = true := by
  cases order with
  | lt => exact absurd rfl h
  | eq => rfl
  | gt => rfl

/-- What is less is at most as great. This needs no condition on the two. -/
theorem le_of_lt_eq_true (h : u.lt v = true) : u.le v = true := by
  have hCompare : u.compare v = some .lt := beq_iff_eq.1 h
  rw [UnpackedFloat.le, hCompare]
  rfl

/-- Finite numbers are compared, and the other way round with the opposite answer. What is not a
number compares with nothing and is left out here. -/
theorem exists_compare_eq (hu : u.isFinite = true) (hv : v.isFinite = true) :
    ∃ order, u.compare v = some order ∧ v.compare u = some order.swap := by
  cases u with
  | notANumber => cases hu
  | infinity => cases hu
  | zero s =>
      cases v with
      | notANumber => cases hv
      | infinity => cases hv
      | zero t => exact ⟨.eq, rfl, rfl⟩
      | finite t n f hn =>
          cases t with
          | negative => exact ⟨.gt, rfl, rfl⟩
          | positive => exact ⟨.lt, rfl, rfl⟩
  | finite s m e hm =>
      cases v with
      | notANumber => cases hv
      | infinity => cases hv
      | zero t =>
          cases s with
          | negative => exact ⟨.lt, rfl, rfl⟩
          | positive => exact ⟨.gt, rfl, rfl⟩
      | finite t n f hn =>
          cases s with
          | negative =>
              cases t with
              | negative =>
                  refine ⟨_, rfl, ?_⟩
                  rw [swap_then_compare]
                  rfl
              | positive => exact ⟨.lt, rfl, rfl⟩
          | positive =>
              cases t with
              | negative => exact ⟨.gt, rfl, rfl⟩
              | positive =>
                  refine ⟨_, rfl, ?_⟩
                  rw [swap_then_compare]
                  rfl

/-- Of two finite numbers the second is at most the first unless the first is less. This fails for
what is not a number, which is neither. -/
theorem le_of_lt_eq_false (hu : u.isFinite = true) (hv : v.isFinite = true)
    (h : u.lt v = false) : v.le u = true := by
  obtain ⟨order, hCompare, hSwapped⟩ := exists_compare_eq hu hv
  have hNot : order ≠ .lt := by
    rintro rfl
    rw [UnpackedFloat.lt, hCompare] at h
    cases h
  rw [UnpackedFloat.le, hSwapped]
  exact isLE_swap_of_ne_lt hNot

/-- A double is finite unless all bits of its exponent field are set. -/
theorem isFinite_unpack_iff (bits : BitVec Format.binary64.numBits) :
    (UnpackedFloat.unpack Format.binary64 bits).isFinite = true ↔
      unpackExponent bits ≠ -BitVec.ofNat Format.binary64.exponentBits 1 := by
  rw [UnpackedFloat.unpack]
  dsimp only
  split
  · next hTop =>
    refine iff_of_false (fun hFinite => ?_) (not_not.2 hTop)
    split at hFinite <;> cases hFinite
  · next hTop =>
    refine iff_of_true ?_ hTop
    split
    · split <;> rfl
    · rfl

theorem unpackExponent_pack_abs (u : UnpackedFloat) :
    unpackExponent (UnpackedFloat.pack Format.binary64 u.abs) =
      unpackExponent (UnpackedFloat.pack Format.binary64 u) := by
  cases u with
  | notANumber => rfl
  | infinity s => cases s <;> rfl
  | zero s => cases s <;> rfl
  | finite s m e hm =>
      simp only [UnpackedFloat.abs, UnpackedFloat.pack]
      split
      · cases s <;> rfl
      · split <;> simp only [unpackExponent_packComponents]

/-- A magnitude has the exponent field of the double. Only the sign bit differs. -/
theorem isFinite_abs {x : Float} (h : x.isFinite = true) : x.abs.isFinite = true := by
  have hBits : UnpackedFloat.pack Format.binary64 x.toModel.unpack = x.toModel.toBits.toBitVec :=
    pack_unpack_of_valid x.toModel.valid
  have hExponent := unpackExponent_pack_abs x.toModel.unpack
  rw [hBits] at hExponent
  refine (isFinite_unpack_iff _).2 ?_
  exact hExponent ▸ (isFinite_unpack_iff _).1 h

/-- Doubles are compared by taking them apart. -/
theorem lt_iff_unpack {x y : Float} : x < y ↔ x.toModel.unpack.lt y.toModel.unpack = true := by
  change decide (x.toModel < y.toModel) = true ↔ _
  rw [decide_eq_true_iff]
  rfl

instance : FiniteScalar Float where
  le_of_lt h :=
    decide_eq_true (le_iff_unpack.2 (le_of_lt_eq_true (lt_iff_unpack.1 (of_decide_eq_true h))))
  le_of_not_lt hx hy h := by
    have hNot := mt lt_iff_unpack.2 (of_decide_eq_false h)
    exact decide_eq_true (le_iff_unpack.2 (le_of_lt_eq_false hx hy (Bool.eq_false_iff.2 hNot)))
  isFinite_abs := isFinite_abs

end Double

end PlotQuery
