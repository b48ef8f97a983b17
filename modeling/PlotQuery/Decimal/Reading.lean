import PlotQuery.Decimal.Shortest

/-! Numbers read from text: an optional sign, then digits with an optional point among or beside them
and an optional exponent, or one of the words for infinity and for what is no number. -/
namespace PlotQuery.Decimal

/-- What a text says as a number. -/
inductive Reading where
  | undefined
  | infinite (negative : Bool)
  | finite (negative : Bool) (value : Scaled)
  deriving DecidableEq, Repr

def isDigit (c : Char) : Bool :=
  '0' ≤ c && c ≤ '9'

def ofDigits (ds : List Char) : Nat :=
  ds.foldl (fun n c => 10 * n + (c.toNat - '0'.toNat)) 0

/-- A natural number: one digit or more, perhaps after a plus sign. -/
def readNat? (text : List Char) : Option Nat :=
  let ds := match text with
    | '+' :: rest => rest
    | _ => text
  if ds.isEmpty || !ds.all isDigit then none else some (ofDigits ds)

/-- The sign in front of a text, negative or not, and the rest. -/
def splitSign (text : List Char) : Bool × List Char :=
  match text with
  | '-' :: rest => (true, rest)
  | '+' :: rest => (false, rest)
  | _ => (false, text)

/-- An exponent: nothing, or a mark, an optional sign and digits. -/
def readExponent? (text : List Char) : Option Int :=
  match text with
  | [] => some 0
  | c :: rest =>
    if c == 'e' || c == 'E' then
      let (negative, ds) := splitSign rest
      if ds.isEmpty || !ds.all isDigit then none
      else some (if negative then -(ofDigits ds : Int) else ofDigits ds)
    else none

/-- A number without its sign, in digits. -/
def readScaled? (text : List Char) : Option Scaled :=
  let whole := text.takeWhile isDigit
  let rest := text.dropWhile isDigit
  let places := match rest with
    | '.' :: more => more.takeWhile isDigit
    | _ => []
  let tail := match rest with
    | '.' :: more => more.dropWhile isDigit
    | _ => rest
  if whole.isEmpty && places.isEmpty then none
  else (readExponent? tail).map fun e => ⟨ofDigits (whole ++ places), e - places.length⟩

/-- A capital letter of the English alphabet as a small one. -/
def smallLetter (c : Char) : Char :=
  if 'A' ≤ c && c ≤ 'Z' then Char.ofNat (c.toNat + 32) else c

def read? (text : List Char) : Option Reading :=
  let (negative, rest) := splitSign text
  let word := String.ofList (rest.map smallLetter)
  if word = "nan" then some .undefined
  else if word = "inf" ∨ word = "infinity" then some (.infinite negative)
  else (readScaled? rest).map (.finite negative)

end PlotQuery.Decimal
