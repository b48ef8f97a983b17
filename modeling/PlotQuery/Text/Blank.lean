/-! Blank characters, and text cut or trimmed at them. A blank is any character with the Unicode
property White_Space, so a no-break space is one and a zero-width space is not. -/
namespace PlotQuery.Text

/-- The Unicode property White_Space. -/
def isBlank (c : Char) : Bool :=
  let n := c.toNat
  (0x09 ≤ n && n ≤ 0x0D) || n == 0x20 || n == 0x85 || n == 0xA0 || n == 0x1680
    || (0x2000 ≤ n && n ≤ 0x200A) || n == 0x2028 || n == 0x2029 || n == 0x202F
    || n == 0x205F || n == 0x3000

/-- Drop the longest run at the end of the list whose members all satisfy `p`. -/
def dropEndWhile (p : Char → Bool) (cs : List Char) : List Char :=
  (cs.reverse.dropWhile p).reverse

def trimEnd (cs : List Char) : List Char :=
  dropEndWhile isBlank cs

def trim (cs : List Char) : List Char :=
  trimEnd (cs.dropWhile isBlank)

/-- A text of blanks only, the empty text included. -/
def allBlank (cs : List Char) : Bool :=
  cs.all isBlank

/-- The maximal runs of characters that are not blank, from left to right. -/
def words (cs : List Char) : List (List Char) :=
  (cs.splitOnP isBlank).filter (!·.isEmpty)

end PlotQuery.Text
