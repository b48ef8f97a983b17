/-! The numbers in which scores, thresholds and column ranges are computed. The engine is written for
any of them. It runs on doubles, and what is proved of exact arithmetic is proved of an instance that
has the laws of an ordered field. -/
namespace PlotQuery

/-- Arithmetic with two comparisons of its own, in which a value that is no number compares false
with every value, and a total order beside them by which candidates are sorted. -/
class Scalar (S : Type) extends Sub S, Mul S, Div S where
  ofNat : Nat → S
  abs : S → S
  lt : S → S → Bool
  le : S → S → Bool
  order : S → S → Ordering
  isFinite : S → Bool

/-- The written form of numbers. -/
class ScalarText (S : Type) where
  /-- The number that a text writes, if it writes one. -/
  read? : String → Option S
  /-- The shortest text that reads back to the number, written by position. -/
  text : S → String
  /-- The number rounded to a given number of places. -/
  places : Nat → S → String
  /-- The number in data exchange, unless it has no form there. -/
  exchange? : S → Option String

namespace Scalar

variable {S : Type} [Scalar S]

def zero : S :=
  ofNat 0

def one : S :=
  ofNat 1

def hundredths (n : Nat) : S :=
  ofNat n / ofNat 100

/-- Multiply `result` by the power of `base` with exponent `n`, squaring the base for each binary
digit of the exponent. -/
def powerBy (base result : S) (n : Nat) : S :=
  let result := if n % 2 = 1 then result * base else result
  if n / 2 = 0 then result else powerBy (base * base) result (n / 2)
termination_by n
decreasing_by omega

/-- The power with an integer exponent. A negative one gives the reciprocal of the power. -/
def power (base : S) (n : Int) : S :=
  let p := powerBy base one n.natAbs
  if n < 0 then one / p else p

end Scalar

end PlotQuery
