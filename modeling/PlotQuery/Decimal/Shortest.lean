/-! The shortest decimal that reads back to a binary number. Among the decimals that lie nearer to
the number than to its neighbours the one with the fewest digits is taken, and of two with equally
many digits the nearer one. All arithmetic is on natural numbers. -/
namespace PlotQuery.Decimal

/-- The number `coefficient * 10 ^ exponent`. -/
structure Scaled where
  coefficient : Nat
  exponent : Int
  deriving DecidableEq, Repr

/-- The binary number `mantissa * 2 ^ exponent`. The gap to the next smaller number is half as wide
as the gap to the next larger one if `narrowBelow` holds. -/
structure Binary where
  mantissa : Nat
  exponent : Int
  narrowBelow : Bool
  deriving DecidableEq, Repr

/-- Which of two decimals at the same distance is taken. -/
inductive Tie where
  | upward
  | even
  deriving DecidableEq, Repr

def digitCount (n : Nat) : Nat :=
  (Nat.toDigits 10 n).length

/-- A number between two bounds, all three as numerators over one denominator. The bounds belong to
the interval if `closed` holds. -/
structure Interval where
  low : Nat
  value : Nat
  high : Nat
  denominator : Nat
  closed : Bool

/-- The reals that are rounded to a binary number. Bounds are rounded to the even mantissa. -/
def Binary.interval (b : Binary) : Interval :=
  let scale := Nat.pow 2 (b.exponent - 2).toNat
  { low := (4 * b.mantissa - if b.narrowBelow then 1 else 2) * scale
    value := 4 * b.mantissa * scale
    high := (4 * b.mantissa + 2) * scale
    denominator := Nat.pow 2 (2 - b.exponent).toNat
    closed := b.mantissa % 2 == 0 }

/-- The least `e` with the value below `10 ^ e`, for a positive value. -/
def Interval.magnitude (i : Interval) : Int :=
  let guess : Int := digitCount i.value - digitCount i.denominator
  if i.denominator * Nat.pow 10 guess.toNat ≤ i.value * Nat.pow 10 (-guess).toNat then guess + 1
  else guess

/-- Whether `n * 10 ^ exponent` lies in the interval. -/
def Interval.contains (i : Interval) (exponent : Int) (n : Nat) : Bool :=
  let point := n * Nat.pow 10 exponent.toNat * i.denominator
  let scale := Nat.pow 10 (-exponent).toNat
  if i.closed then i.low * scale ≤ point && point ≤ i.high * scale
  else i.low * scale < point && point < i.high * scale

/-- The multiple of `10 ^ exponent` in the interval that is nearest to the value, if a neighbour of
the value among these multiples lies in the interval. -/
def Interval.nearest? (tie : Tie) (i : Interval) (exponent : Int) : Option Scaled :=
  let unit := i.denominator * Nat.pow 10 exponent.toNat
  let value := i.value * Nat.pow 10 (-exponent).toNat
  let below := value / unit
  let rest := value % unit
  match i.contains exponent below, i.contains exponent (below + 1) with
  | false, false => none
  | true, false => some ⟨below, exponent⟩
  | false, true => some ⟨below + 1, exponent⟩
  | true, true =>
    let up : Bool :=
      if 2 * rest = unit then
        match tie with
        | .upward => true
        | .even => below % 2 == 1
      else unit < 2 * rest
    some ⟨if up then below + 1 else below, exponent⟩

/-- The same number without zeros at the end of its coefficient. The bound on the number of zeros is
the number of digits. -/
def Scaled.stripZeros : Nat → Scaled → Scaled
  | 0, d => d
  | fuel + 1, d =>
    if d.coefficient ≠ 0 ∧ d.coefficient % 10 = 0 then
      stripZeros fuel ⟨d.coefficient / 10, d.exponent + 1⟩
    else d

/-- The shortest decimal of a positive binary number. Seventeen digits always suffice for a double. -/
def Binary.shortest (tie : Tie) (b : Binary) : Scaled :=
  let i := b.interval
  let top := i.magnitude
  let found := (List.range 17).findSome? fun (k : Nat) => i.nearest? tie (top - (k + 1))
  let d := found.getD ⟨0, 0⟩
  d.stripZeros (digitCount d.coefficient)

/-- The quotient rounded to the nearest natural number, a half to the even one. -/
def roundDiv (numerator denominator : Nat) : Nat :=
  let below := numerator / denominator
  let rest := numerator % denominator
  if 2 * rest < denominator then below
  else if denominator < 2 * rest then below + 1
  else if below % 2 = 0 then below
  else below + 1

/-- The number of units of `10 ^ -places` in a binary number, rounded to the nearest. -/
def Binary.roundToPlaces (places : Nat) (b : Binary) : Nat :=
  roundDiv (b.mantissa * Nat.pow 2 b.exponent.toNat * Nat.pow 10 places)
    (Nat.pow 2 (-b.exponent).toNat)

end PlotQuery.Decimal
