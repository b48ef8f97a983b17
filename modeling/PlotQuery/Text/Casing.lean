import PlotQuery.Text.CaseTable

/-! Lower case. A character that the tables do not list is its own lower case. Two rules look beyond
them: a dotted capital I becomes two characters, and a capital sigma that ends a word becomes a final
sigma when a whole text is put into lower case. -/
namespace PlotQuery.Text

/-- The distance to the lower case of a letter that stands in one of the rows. -/
def lowerOffset? (rows : List (Nat × Nat × Nat × Int)) (n : Nat) : Option Int :=
  (rows.find? fun (first, last, step, _) =>
    first ≤ n && n ≤ last && (n - first) % step == 0).map fun row => row.2.2.2

/-- The code point of the lower case of a character that has a lower case of one character. -/
def lowerCode (n : Nat) : Nat :=
  if n < 0x80 then if 0x41 ≤ n && n ≤ 0x5A then n + 32 else n
  else (n + (lowerOffset? lowerRows n).getD 0).toNat

/-- The lower case of one character by itself: one character, or two for a dotted capital I. -/
def lowerChar (c : Char) : List Char :=
  if c.toNat == 0x130 then ['i', Char.ofNat 0x307] else [Char.ofNat (lowerCode c.toNat)]

/-- The text with each character put into lower case by itself. -/
def lowerEach (cs : List Char) : List Char :=
  cs.flatMap lowerChar

def inRanges (ranges : List (Nat × Nat)) (c : Char) : Bool :=
  ranges.any fun (first, last) => first ≤ c.toNat && c.toNat ≤ last

/-- Whether the first character that casing does not look through is a letter with a case. -/
def startsCased (cs : List Char) : Bool :=
  match cs.dropWhile (inRanges ignorableRanges) with
  | [] => false
  | c :: _ => inRanges casedRanges c

def capitalSigma : Char :=
  Char.ofNat 0x3A3

/-- A small sigma inside a word. -/
def smallSigma : Char :=
  Char.ofNat 0x3C3

/-- A small sigma at the end of a word. -/
def finalSigma : Char :=
  Char.ofNat 0x3C2

/-- Lower case of what follows `before`, the characters already passed, the last one first. A capital
sigma with a letter with a case before it and none after it ends a word. -/
def lowerAfter (before : List Char) : List Char → List Char
  | [] => []
  | c :: cs =>
    if c = capitalSigma then
      (if startsCased before && !startsCased cs then finalSigma else smallSigma)
        :: lowerAfter (c :: before) cs
    else lowerChar c ++ lowerAfter (c :: before) cs

/-- The text in lower case, by the rules for whole texts. -/
def lower (text : String) : String :=
  String.ofList (lowerAfter [] text.toList)

end PlotQuery.Text
