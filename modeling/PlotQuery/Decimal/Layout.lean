import PlotQuery.Decimal.Shortest

/-! How a decimal is written down: by position only, in the number format of data exchange, or with a
fixed number of places. -/
namespace PlotQuery.Decimal

def digits (n : Nat) : List Char :=
  Nat.toDigits 10 n

/-- The position of the point, counted from the front of the digits. -/
def Scaled.pointAt (d : Scaled) : Int :=
  (digits d.coefficient).length + d.exponent

/-- Digits with the point after the first `n`, without a point if no digit follows it. -/
def placePoint (ds : List Char) (point : Int) : List Char :=
  if point ≤ 0 then '0' :: '.' :: List.replicate (-point).toNat '0' ++ ds
  else if ds.length ≤ point.toNat then ds ++ List.replicate (point.toNat - ds.length) '0'
  else ds.take point.toNat ++ '.' :: ds.drop point.toNat

/-- By position, however large or small the number is. -/
def Scaled.positional (d : Scaled) : List Char :=
  if d.coefficient = 0 then ['0'] else placePoint (digits d.coefficient) d.pointAt

/-- The sign and digits of an exponent. -/
def exponentText (e : Int) : List Char :=
  (if e < 0 then '-' else '+') :: digits e.natAbs

/-- By position, with at least one place, if the leading digit stands between the fifth place and the
sixteenth digit before the point, and else with an exponent. -/
def Scaled.exchange (d : Scaled) : List Char :=
  if d.coefficient = 0 then ['0', '.', '0']
  else
    let ds := digits d.coefficient
    let lead := d.pointAt - 1
    if -5 ≤ lead ∧ lead ≤ 15 then
      let text := placePoint ds d.pointAt
      if text.contains '.' then text else text ++ ['.', '0']
    else
      let mantissa :=
        match ds with
        | [] => []
        | [c] => [c]
        | c :: cs => c :: '.' :: cs
      mantissa ++ 'e' :: exponentText lead

/-- A number of units of `10 ^ -places`, with all its places. -/
def fixed (places units : Nat) : List Char :=
  let ds := digits units
  let padded := List.replicate (places + 1 - ds.length) '0' ++ ds
  let whole := padded.length - places
  if places = 0 then padded else padded.take whole ++ '.' :: padded.drop whole

end PlotQuery.Decimal
