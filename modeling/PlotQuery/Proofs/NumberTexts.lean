import Mathlib.Algebra.Order.Field.Rat
import PlotQuery.Double
import PlotQuery.Proofs.ListItems
import PlotQuery.Semantics.Merge

/-! Numbers as they are written. The text of a number is one word, for doubles and for the rational
numbers, which are written as fractions. -/
namespace PlotQuery

/-- Numbers whose text is one item of a list of values. -/
class WordNumbers (S : Type) [ScalarText S] : Prop where
  isWord_text (n : S) : Text.IsWord listSeparator (ScalarText.text n)

namespace Decimal

def isPositional (c : Char) : Bool :=
  c.isDigit || c == '.'

theorem forall_digits (n : Nat) : ∀ c ∈ digits n, isPositional c = true := by
  intro c hc
  simp [isPositional, Nat.isDigit_of_mem_toDigits (by decide) (by decide) hc]

theorem forall_replicate_zero (n : Nat) : ∀ c ∈ List.replicate n '0', isPositional c = true := by
  intro c hc
  rw [List.eq_of_mem_replicate hc]
  decide

/-- Wherever the point is put, digits with a point and zeros are the characters of a number. -/
theorem forall_placePoint {ds : List Char} (point : Int) (h : ∀ c ∈ ds, isPositional c = true) :
    ∀ c ∈ placePoint ds point, isPositional c = true := by
  have hZeros := forall_replicate_zero
  intro c hc
  rw [placePoint] at hc
  split at hc
  · rcases List.mem_cons.1 hc with rfl | hc
    · decide
    rcases List.mem_cons.1 hc with rfl | hc
    · decide
    exact (List.mem_append.1 hc).elim (hZeros _ c) (h c)
  · split at hc
    · exact (List.mem_append.1 hc).elim (h c) (hZeros _ c)
    · rcases List.mem_append.1 hc with hc | hc
      · exact h c (List.mem_of_mem_take hc)
      · rcases List.mem_cons.1 hc with rfl | hc
        · decide
        · exact h c (List.mem_of_mem_drop hc)

theorem placePoint_ne_nil {ds : List Char} (point : Int) (h : ds ≠ []) :
    placePoint ds point ≠ [] := by
  rw [placePoint]
  split
  · exact List.cons_ne_nil _ _
  · split
    · simp [h]
    · simp

/-- A number is written with digits and a point only. -/
theorem forall_positional (d : Scaled) : ∀ c ∈ d.positional, isPositional c = true := by
  rw [Scaled.positional]
  split
  · exact List.all_eq_true.1 (by decide)
  · exact forall_placePoint _ (forall_digits _)

theorem positional_ne_nil (d : Scaled) : d.positional ≠ [] := by
  rw [Scaled.positional]
  split
  · decide
  · exact placePoint_ne_nil _ Nat.toDigits_ne_nil

/-- The characters of a number are neither blanks nor the separator of lists. -/
theorem not_blank_of_isPositional {c : Char} (h : isPositional c = true) :
    c ≠ listSeparator ∧ Text.isBlank c = false := by
  rw [isPositional, Bool.or_eq_true] at h
  rcases h with hDigit | hPoint
  · have hRange : 48 ≤ c.toNat ∧ c.toNat ≤ 57 := by
      simpa [Char.isDigit, UInt32.le_iff_toNat_le] using hDigit
    refine ⟨?_, ?_⟩
    · rintro rfl
      revert hRange
      decide
    · simp [Text.isBlank]
      omega
  · rw [beq_iff_eq.1 hPoint]
    decide

end Decimal

theorem Text.forall_of_all_wordChar {cs : List Char}
    (h : (cs.all fun c => c != listSeparator && !Text.isBlank c) = true) :
    ∀ c ∈ cs, c ≠ listSeparator ∧ Text.isBlank c = false := by
  simpa using h

/-- A text without blanks and separators is a word, if it has any character. -/
theorem Text.isWord_ofList {cs : List Char} (hNonempty : cs ≠ [])
    (h : ∀ c ∈ cs, c ≠ listSeparator ∧ Text.isBlank c = false) :
    Text.IsWord listSeparator (String.ofList cs) := by
  rw [Text.IsWord, String.toList_ofList]
  exact ⟨hNonempty, h⟩

namespace Double

/-- A sign in front of a word makes a word. -/
theorem isWord_signed (x : Float) {cs : List Char} (hNonempty : cs ≠ [])
    (h : ∀ c ∈ cs, c ≠ listSeparator ∧ Text.isBlank c = false) :
    Text.IsWord listSeparator (signed x cs) := by
  rw [signed]
  refine Text.isWord_ofList ?_ ?_
  · split
    · exact List.cons_ne_nil _ _
    · exact hNonempty
  · split
    · exact List.forall_mem_cons.2 ⟨by decide, h⟩
    · exact h

instance : WordNumbers Float where
  isWord_text x := by
    change Text.IsWord listSeparator (write _ x)
    rw [write]
    split
    · exact ⟨by decide, Text.forall_of_all_wordChar (by decide)⟩
    split
    · exact isWord_signed x (by decide) (Text.forall_of_all_wordChar (by decide))
    split
    · exact isWord_signed x (by decide) (Text.forall_of_all_wordChar (by decide))
    · exact isWord_signed x (Decimal.positional_ne_nil _) fun c hc =>
        Decimal.not_blank_of_isPositional (Decimal.forall_positional _ c hc)

end Double

namespace Fraction

/-- The number that a text writes by digits, read without rounding. -/
def read? (text : String) : Option ℚ :=
  match Decimal.read? text.toList with
  | some (.finite negative value) =>
    let magnitude : ℚ :=
      value.coefficient * 10 ^ value.exponent.toNat / 10 ^ (-value.exponent).toNat
    some (if negative then -magnitude else magnitude)
  | _ => none

def signed (q : ℚ) (cs : List Char) : List Char :=
  if q.num < 0 then '-' :: cs else cs

/-- The characters of a number: its numerator, and its denominator unless that is one. -/
def chars (q : ℚ) : List Char :=
  signed q (Decimal.digits q.num.natAbs) ++
    if q.den = 1 then [] else '/' :: Decimal.digits q.den

instance : ScalarText ℚ where
  read? := read?
  text q := String.ofList (chars q)
  places n q := String.ofList
    (signed q (Decimal.fixed n (Decimal.roundDiv (q.num.natAbs * Nat.pow 10 n) q.den)))
  exchange? q := some (String.ofList (chars q))

instance : WordNumbers ℚ where
  isWord_text q := by
    have hDigits (n : Nat) : ∀ c ∈ Decimal.digits n, c ≠ listSeparator ∧ Text.isBlank c = false :=
      fun c hc => Decimal.not_blank_of_isPositional (Decimal.forall_digits n c hc)
    refine Text.isWord_ofList (List.append_ne_nil_of_left_ne_nil ?_ _) fun c hc => ?_
    · rw [signed]
      split
      · exact List.cons_ne_nil _ _
      · exact Nat.toDigits_ne_nil
    · rcases List.mem_append.1 hc with hc | hc
      · rw [signed] at hc
        split at hc
        · exact List.forall_mem_cons.2 ⟨by decide, hDigits _⟩ c hc
        · exact hDigits _ c hc
      · split at hc
        · cases hc
        · exact List.forall_mem_cons.2 ⟨by decide, hDigits _⟩ c hc

end Fraction

end PlotQuery
