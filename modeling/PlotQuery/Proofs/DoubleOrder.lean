import Mathlib
import PlotQuery.Double
import PlotQuery.Proofs.ScoreLaws

/-! The two orders of doubles. Candidates are sorted by the ranks of their scores, which are read off
the bits, and the best one is chosen by comparing numbers. The orders agree on all doubles that are
numbers, except that only the former tells the two zeros apart. -/
namespace PlotQuery.Double

open Float.Model Float.Model.UnpackedFloat

/-- A mantissa with an exponent in the form in which bits give them, and their place in the row of
all magnitudes. -/
structure IsPlaced (exponent : Int) (mantissa place : Nat) : Prop where
  positive : 0 < mantissa
  least : -1074 ≤ exponent
  short : mantissa < 2 ^ 53
  full : mantissa < 2 ^ 52 → exponent = -1074
  place_eq : (place : Int) = (exponent + 1074) * 2 ^ 52 + mantissa
  place_lt : place < 2047 * 2 ^ 52

/-- A double taken apart that is a number, with its sign and its place in the row of magnitudes. -/
inductive Placed : UnpackedFloat → Sign → Nat → Prop where
  | zero (sign : Sign) : Placed (.zero sign) sign 0
  | finite (sign : Sign) {exponent : Int} {mantissa place : Nat}
      (placed : IsPlaced exponent mantissa place) :
      Placed (.finite sign mantissa exponent placed.positive) sign place
  | infinity (sign : Sign) : Placed (.infinity sign) sign (2047 * 2 ^ 52)

section Place

variable {e f : Int} {m n p q : Nat} {u v : UnpackedFloat}

theorem IsPlaced.place_pos (h : IsPlaced e m p) : 0 < p := by
  obtain ⟨hPositive, hLeast, -, -, hPlace, -⟩ := h
  omega

/-- Places are in the order of exponents, and of mantissas where exponents are equal. A short
mantissa comes with the least exponent only, which is why no two places overlap. -/
theorem IsPlaced.isLE_compare (hm : IsPlaced e m p) (hn : IsPlaced f n q) (h : p ≤ q) :
    ((compare e f).then (compare m n)).isLE = true := by
  obtain ⟨-, hLeast, hShort, hFull, hPlace, -⟩ := hm
  obtain ⟨-, hLeast', hShort', hFull', hPlace', -⟩ := hn
  rw [Ordering.isLE_then_iff_or, Int.compare_eq_lt, Int.compare_eq_eq, Nat.isLE_compare]
  omega

theorem IsPlaced.isLE_swap_compare (hm : IsPlaced e m p) (hn : IsPlaced f n q) (h : q ≤ p) :
    ((compare e f).then (compare m n)).swap.isLE = true := by
  rw [Ordering.swap_then, Int.compare_swap, Nat.compare_swap]
  exact hn.isLE_compare hm h

/-- Above zero the greater place is that of the greater number. -/
theorem Placed.le_of_positive (hu : Placed u .positive m) (hv : Placed v .positive n)
    (h : m ≤ n) : u.le v = true := by
  cases hu with
  | zero => cases hv <;> rfl
  | finite _ hm =>
      cases hv with
      | zero => exact absurd hm.place_pos (by omega)
      | finite _ hn => exact hm.isLE_compare hn h
      | infinity => rfl
  | infinity =>
      cases hv with
      | zero => omega
      | finite _ hn => exact absurd hn.place_lt (by omega)
      | infinity => rfl

/-- Below zero the greater place is that of the lesser number. -/
theorem Placed.le_of_negative (hu : Placed u .negative m) (hv : Placed v .negative n)
    (h : n ≤ m) : u.le v = true := by
  cases hv with
  | zero => cases hu <;> rfl
  | finite _ hn =>
      cases hu with
      | zero => exact absurd hn.place_pos (by omega)
      | finite _ hm => exact hm.isLE_swap_compare hn h
      | infinity => rfl
  | infinity =>
      cases hu with
      | zero => omega
      | finite _ hm => exact absurd hm.place_lt (by omega)
      | infinity => rfl

/-- Numbers are in the order of their places with the signs put to them. The two zeros have the
place zero with either sign, and each is at most the other. -/
theorem Placed.le {s t : Sign} (hu : Placed u s m) (hv : Placed v t n)
    (h : s.apply m ≤ t.apply n) : u.le v = true := by
  cases s with
  | negative =>
      cases t with
      | negative => exact hu.le_of_negative hv (by simpa [Sign.apply] using h)
      | positive => cases hu <;> cases hv <;> rfl
  | positive =>
      cases t with
      | negative =>
          -- The two zeros are all that is left.
          simp only [Sign.apply] at h
          obtain ⟨rfl, rfl⟩ : m = 0 ∧ n = 0 := by omega
          cases hu with
          | finite _ hm => exact absurd hm.place_pos (by omega)
          | zero =>
              cases hv with
              | finite _ hn => exact absurd hn.place_pos (by omega)
              | zero => rfl
      | positive => exact hu.le_of_positive hv (by simpa [Sign.apply] using h)

end Place

section Fields

variable {field fraction : Nat}

/-- A subnormal double has no leading bit to add to its fraction, and its place is the
fraction. -/
theorem isPlaced_subnormal (hSome : fraction ≠ 0) (hFraction : fraction < 2 ^ 52) :
    IsPlaced (-1074) fraction fraction where
  positive := Nat.pos_of_ne_zero hSome
  least := Int.le_refl _
  short := by omega
  full _ := rfl
  place_eq := by omega
  place_lt := by omega

/-- A normal double has a leading bit in front of its fraction. The exponent field counts how many
times the fractions have been gone through. -/
theorem isPlaced_normal (hSome : field ≠ 0) (hField : field < 2047)
    (hFraction : fraction < 2 ^ 52) :
    IsPlaced (field - 1075) (2 ^ 52 + fraction) (field * 2 ^ 52 + fraction) where
  positive := by omega
  least := by omega
  short := by omega
  full := by omega
  place_eq := by omega
  place_lt := by omega

variable (bits : BitVec Format.binary64.numBits)

theorem toNat_unpackMantissa : (unpackMantissa bits).toNat = bits.toNat % 2 ^ 52 := by
  rw [unpackMantissa_def, BitVec.extractLsb'_toNat, Nat.shiftRight_zero]

theorem toNat_unpackExponent : (unpackExponent bits).toNat = bits.toNat / 2 ^ 52 % 2 ^ 11 := by
  rw [unpackExponent_def, BitVec.extractLsb'_toNat, Nat.shiftRight_eq_div_pow]

theorem toNat_unpackSign : (unpackSign bits).toNat = bits.toNat / 2 ^ 63 % 2 := by
  rw [unpackSign_def, BitVec.extractLsb'_toNat, Nat.shiftRight_eq_div_pow]
  rfl

theorem toNat_implicitBit (mantissa : BitVec 52) :
    (1#1 ++ mantissa).toNat = 2 ^ 52 + mantissa.toNat := by
  rw [BitVec.toNat_append, BitVec.toNat_ofNat, Nat.shiftLeft_eq, Nat.one_mod, Nat.one_mul]
  exact (Nat.two_pow_add_eq_or_of_lt mantissa.isLt 1).symm

/-- The bits without the sign bit are the place of a number. The field that is all ones has the
infinities, and what is not a number. -/
theorem placed_unpack : UnpackedFloat.unpack Format.binary64 bits = .notANumber ∨
    Placed (UnpackedFloat.unpack Format.binary64 bits) (Sign.ofBitVec (unpackSign bits))
      (bits.toNat % 2 ^ 63) := by
  have hFields : bits.toNat % 2 ^ 63 =
      (unpackExponent bits).toNat * 2 ^ 52 + (unpackMantissa bits).toNat := by
    rw [toNat_unpackExponent, toNat_unpackMantissa]
    omega
  have hField : (unpackExponent bits).toNat < 2048 := (unpackExponent bits).isLt
  have hFraction : (unpackMantissa bits).toNat < 2 ^ 52 := (unpackMantissa bits).isLt
  rw [UnpackedFloat.unpack, hFields]
  dsimp only
  split
  · next hTop =>
    split
    · next hZero =>
      rw [hTop, hZero]
      exact .inr (.infinity _)
    · exact .inl rfl
  · next hTop =>
    have hBelow : (unpackExponent bits).toNat ≠ 2047 := fun h => hTop (BitVec.eq_of_toNat_eq h)
    right
    split
    · next hBottom =>
      have hNone : (unpackExponent bits).toNat = 0 := congrArg BitVec.toNat hBottom
      rw [hNone, Nat.zero_mul, Nat.zero_add]
      split
      · next hZero =>
        rw [hZero]
        exact .zero _
      · next hSome =>
        have hPositive : (unpackMantissa bits).toNat ≠ 0 := fun h =>
          hSome (BitVec.eq_of_toNat_eq h)
        exact .finite _ (isPlaced_subnormal hPositive hFraction)
    · next hBottom =>
      have hAbove : (unpackExponent bits).toNat ≠ 0 := fun h => hBottom (BitVec.eq_of_toNat_eq h)
      have hPlaced := isPlaced_normal hAbove (by omega) hFraction
      rw [← toNat_implicitBit] at hPlaced
      exact .finite _ hPlaced

end Fields

variable {x y : Float}

theorem sign_unpackSign (x : Float) :
    Sign.ofBitVec (@unpackSign Format.binary64 x.toBits.toBitVec) =
      if isNegative x then .negative else .positive := by
  have hZero : @unpackSign Format.binary64 x.toBits.toBitVec = 0#1 ↔
      isNegative x = false := by
    have hBits := x.toBits.toNat_lt
    rw [← BitVec.toNat_inj, toNat_unpackSign, UInt64.toNat_toBitVec, isNegative]
    simp
    omega
  cases h : isNegative x <;> simp [Sign.ofBitVec, hZero, h]

/-- Doubles are compared by taking them apart. -/
theorem le_iff_unpack : x ≤ y ↔
    (UnpackedFloat.unpack Format.binary64 x.toBits.toBitVec).le
      (UnpackedFloat.unpack Format.binary64 y.toBits.toBitVec) = true := by
  change decide (x.toModel ≤ y.toModel) = true ↔ _
  rw [decide_eq_true_iff]
  rfl

/-- A double that is at most itself has a place. Only what is not a number is not at most
itself. -/
theorem placed_of_le_self (h : x ≤ x) :
    Placed (UnpackedFloat.unpack Format.binary64 x.toBits.toBitVec)
      (if isNegative x then .negative else .positive) (x.toBits.toNat % 2 ^ 63) := by
  rcases placed_unpack x.toBits.toBitVec with hNot | hPlaced
  · rw [le_iff_unpack, hNot] at h
    cases h
  · rwa [sign_unpackSign, UInt64.toNat_toBitVec] at hPlaced

/-- A number that is not ranked above another one is at most that one. The converse fails for the
two zeros alone. -/
theorem le_of_rank_le (hx : x ≤ x) (hy : y ≤ y) (h : rank x ≤ rank y) : x ≤ y := by
  refine le_iff_unpack.2 ((placed_of_le_self hx).le (placed_of_le_self hy) ?_)
  have hPower : Nat.pow 2 63 = 2 ^ 63 := rfl
  simp only [rank, hPower] at h
  cases hSign : isNegative x <;> cases hSign' : isNegative y <;>
    simp only [hSign, hSign', if_true, Bool.false_eq_true, if_false, Sign.apply, Int.negSucc_eq,
      Int.ofNat_eq_natCast] at h ⊢ <;>
    omega

/-- Sorting goes by the ranks. -/
theorem isLE_order_iff : (Scalar.order x y).isLE = true ↔ rank x ≤ rank y := by
  rw [Scalar.order]
  exact Int.isLE_compare

instance : OrderedScalar Float where
  isLE_total x y := by
    rw [isLE_order_iff, isLE_order_iff]
    exact Int.le_total _ _
  isLE_trans hxy hyz := by
    rw [isLE_order_iff] at hxy hyz ⊢
    exact Int.le_trans hxy hyz
  le_of_isLE hx hy h :=
    decide_eq_true (le_of_rank_le (of_decide_eq_true hx) (of_decide_eq_true hy)
      (isLE_order_iff.1 h))

end PlotQuery.Double
