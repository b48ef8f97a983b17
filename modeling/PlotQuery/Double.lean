import PlotQuery.Decimal.Layout
import PlotQuery.Decimal.Reading
import PlotQuery.Scalar

/-! Doubles as scalars. Their written forms are computed from the bits: the shortest digits that read
back, and exact rounding to a number of places. -/
namespace PlotQuery.Double

def isNegative (x : Float) : Bool :=
  x.toBits.toNat / Nat.pow 2 63 == 1

/-- The magnitude of a finite double. -/
def binary (x : Float) : Decimal.Binary :=
  let bits := x.toBits.toNat
  let fraction := bits % Nat.pow 2 52
  let biased : Nat := bits / Nat.pow 2 52 % Nat.pow 2 11
  if biased = 0 then ⟨fraction, -1074, false⟩
  else ⟨fraction + Nat.pow 2 52, (biased : Int) - 1075, fraction == 0 && biased != 1⟩

/-- Place on the line of all doubles: negative numbers first, then zero with either sign, the other
numbers, infinity, and last what is no number. -/
def rank (x : Float) : Int :=
  let magnitude := x.toBits.toNat % Nat.pow 2 63
  if isNegative x then Int.negSucc magnitude else Int.ofNat magnitude

/-- The double nearest to a decimal. Exponents far outside the range are decided at once. -/
def ofScaled (d : Decimal.Scaled) : Float :=
  let magnitude := Decimal.digitCount d.coefficient + d.exponent
  if d.coefficient = 0 ∨ magnitude < -330 then 0
  else if 310 < magnitude then 1 / 0
  else if d.exponent < 0 then Float.ofScientific d.coefficient true (-d.exponent).toNat
  else Float.ofScientific d.coefficient false d.exponent.toNat

def read? (text : String) : Option Float :=
  (Decimal.read? text.toList).map fun
    | .undefined => 0 / 0
    | .infinite negative => if negative then -1 / 0 else 1 / 0
    | .finite negative value => if negative then -ofScaled value else ofScaled value

/-- The text with the sign of the double in front. -/
def signed (x : Float) (cs : List Char) : String :=
  String.ofList (if isNegative x then '-' :: cs else cs)

/-- Write a double: the words for what is no number and for infinity, and else the magnitude by the
given rule. -/
def write (magnitude : Decimal.Binary → List Char) (x : Float) : String :=
  if x.isNaN then "NaN"
  else if x.isInf then signed x ['i', 'n', 'f']
  else signed x (magnitude (binary x))

/-- The double in data exchange, where only finite numbers have a form. -/
def exchange? (x : Float) : Option String :=
  if x.isFinite then
    some (write (fun b => if b.mantissa = 0 then ['0', '.', '0'] else (b.shortest .even).exchange) x)
  else none

instance : Scalar Float where
  ofNat := Float.ofNat
  abs := Float.abs
  lt x y := x < y
  le x y := x ≤ y
  order x y := compare (rank x) (rank y)
  isFinite := Float.isFinite

instance : ScalarText Float where
  read? := read?
  text := write fun b => if b.mantissa = 0 then ['0'] else (b.shortest .upward).positional
  places n := write fun b => Decimal.fixed n (b.roundToPlaces n)
  exchange? := exchange?

end PlotQuery.Double
