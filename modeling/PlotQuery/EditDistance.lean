import PlotQuery.Text.Casing

/-! The edit distance between texts without regard to case. Inserting or deleting a character costs
one and replacing a character costs two, as much as deleting it and inserting the other. -/
namespace PlotQuery.EditDistance

/-- The cost of inserting or deleting a character. -/
def indelCost : Nat := 1

/-- The cost of replacing a character by another one. -/
def substitutionCost : Nat := 2

/-- The distances from the empty text to each beginning of a text. -/
def firstRow (bs : List Char) : List Nat :=
  (List.range (bs.length + 1)).map (· * indelCost)

/-- The rest of a row, from the distance `left` on. The row above starts with the distance above
`left`. -/
def extendRow (a : Char) (left : Nat) : List Char → List Nat → List Nat
  | b :: bs, diagonal :: up :: above =>
    let cost := if a = b then 0 else substitutionCost
    let here := min (min (up + indelCost) (left + indelCost)) (diagonal + cost)
    here :: extendRow a here bs (up :: above)
  | _, _ => []

/-- The distances from a text with `a` at its end to each beginning of `bs`, given those from the text
without it. -/
def nextRow (a : Char) (bs : List Char) (above : List Nat) : List Nat :=
  match above with
  | [] => []
  | top :: _ => (top + indelCost) :: extendRow a (top + indelCost) bs above

def between (as bs : List Char) : Nat :=
  ((as.foldl (fun row a => nextRow a bs row) (firstRow bs)).getLast?).getD 0

/-- The distance between two texts, each character of which is put into lower case by itself. -/
def ofTexts (a b : String) : Nat :=
  between (Text.lowerEach a.toList) (Text.lowerEach b.toList)

end PlotQuery.EditDistance
