import PlotQuery.Proofs.CheckedSteps
import PlotQuery.Proofs.EditScripts

/-! The edit distance by positions. Only two rows of the table of distances are kept, and the row that
is filled still holds entries of an earlier one. All positions are within the texts and within the
rows, and the last entry is the distance. -/
namespace PlotQuery.EditDistance

/-- Fill in an entry of the current row. Positions in the table are one more than those of the
characters they stand for. -/
def checkedEntry (as bs : List Char) (i : Nat) (above current : List Nat) (j : Nat) :
    Except Fault (List Nat) := do
  let a ← Checked.read as (← Checked.sub i 1)
  let b ← Checked.read bs (← Checked.sub j 1)
  let up ← Checked.read above j
  let left ← Checked.read current (← Checked.sub j 1)
  let diagonal ← Checked.read above (← Checked.sub j 1)
  let cost := if a = b then 0 else substitutionCost
  Checked.write current j (min (min (up + indelCost) (left + indelCost)) (diagonal + cost))

/-- Fill the second of two rows from the first one, and exchange them. -/
def checkedRow (as bs : List Char) (rows : List Nat × List Nat) (i : Nat) :
    Except Fault (List Nat × List Nat) := do
  let current ← Checked.write rows.2 0 (i * indelCost)
  let filled ← (List.range' 1 bs.length).foldlM (checkedEntry as bs i rows.1) current
  return (filled, rows.1)

def initialRows (bs : List Char) : List Nat × List Nat :=
  (firstRow bs, List.replicate (bs.length + 1) 0)

def checkedBetween (as bs : List Char) : Except Fault Nat :=
  if as.length = 0 then return bs.length * indelCost
  else if bs.length = 0 then return as.length * indelCost
  else do
    let rows ← (List.range' 1 as.length).foldlM (checkedRow as bs) (initialRows bs)
    Checked.read rows.1 bs.length

def checkedOfTexts (a b : String) : Except Fault Nat :=
  checkedBetween (Text.lowerEach a.toList) (Text.lowerEach b.toList)

/-- The distance of the first `i` characters of a text to the first `j` characters of another one. -/
def startDistance (as bs : List Char) (i j : Nat) : Nat :=
  fromEnds (as.take i).reverse (bs.take j).reverse

/-- The distances of the first `i` characters of a text to all beginnings of another one. -/
def row (as bs : List Char) (i : Nat) : List Nat :=
  (List.range (bs.length + 1)).map (startDistance as bs i)

/-- A row that has been filled up to an entry and is left as it was behind it. -/
def filledUpTo (as bs : List Char) (i : Nat) (before : List Nat) (j : Nat) : List Nat :=
  (row as bs i).take (j + 1) ++ before.drop (j + 1)

def rowsAfter (as bs : List Char) : Nat → List Nat × List Nat
  | 0 => initialRows bs
  | i + 1 => (row as bs (i + 1), row as bs i)

section Rows

variable (as bs : List Char) {i j : Nat}

/-- From no characters at all, each character is an insertion. -/
theorem startDistance_zero (hj : j ≤ bs.length) : startDistance as bs 0 j = j := by
  simp [startDistance, fromEnds, hj]

/-- To no characters at all, each character is a deletion. -/
theorem startDistance_zero_right (hi : i ≤ as.length) : startDistance as bs i 0 = i := by
  have hLength : (as.take i).reverse.length = i := by simp [hi]
  rw [startDistance, List.take_zero, List.reverse_nil]
  cases hTaken : (as.take i).reverse with
  | nil => rw [← hLength, hTaken, fromEnds]
  | cons a rest => rw [fromEnds, ← hTaken, hLength]

/-- The distance between two beginnings by the distances between shorter ones. A substitution
costs nothing where the characters are the same. -/
theorem startDistance_succ {a b : Char} (ha : as[i]? = some a) (hb : bs[j]? = some b) :
    startDistance as bs (i + 1) (j + 1) =
      min (min (startDistance as bs i (j + 1) + indelCost)
          (startDistance as bs (i + 1) j + indelCost))
        (startDistance as bs i j + if a = b then 0 else substitutionCost) := by
  have hTakeA : (as.take (i + 1)).reverse = a :: (as.take i).reverse := by
    rw [List.take_add_one, ha, Option.toList_some, List.reverse_concat]
  have hTakeB : (bs.take (j + 1)).reverse = b :: (bs.take j).reverse := by
    rw [List.take_add_one, hb, Option.toList_some, List.reverse_concat]
  simp only [startDistance, hTakeA, hTakeB]
  rw [fromEnds]
  rfl

/-- The beginnings that have all characters are the lists themselves. -/
theorem startDistance_all : startDistance as bs as.length bs.length = between as bs := by
  rw [startDistance, List.take_length, List.take_length, between_eq_fromEnds]

theorem length_row (i : Nat) : (row as bs i).length = bs.length + 1 := by
  simp [row]

/-- A row has at each position the distance from the beginning it stands for. -/
theorem getElem?_row (i : Nat) (hj : j ≤ bs.length) :
    (row as bs i)[j]? = some (startDistance as bs i j) := by
  rw [row, List.getElem?_map, List.getElem?_range (Nat.lt_succ_of_le hj), Option.map_some]

/-- The row to start with needs no earlier row, since all its steps are insertions. -/
theorem firstRow_eq_row : firstRow bs = row as bs 0 := by
  refine List.map_congr_left fun j hj => ?_
  rw [startDistance_zero as bs (Nat.le_of_lt_succ (List.mem_range.1 hj)), indelCost, Nat.mul_one]

/-- Where the entries before a position come from one list and the others from another list, the
entry at the position is taken over from the first list. The row being filled is of this kind: its
later entries are still those of the row before the last. -/
theorem set_take_append_drop {xs ys : List Nat} {place x : Nat} (hx : xs[place]? = some x)
    (hy : place < ys.length) :
    (xs.take place ++ ys.drop place).set place x =
      xs.take (place + 1) ++ ys.drop (place + 1) := by
  have hPlace : place < xs.length := (List.getElem?_eq_some_iff.1 hx).1
  have hLength : (xs.take place).length = place := List.length_take_of_le hPlace.le
  rw [List.set_append_right _ _ hLength.le, hLength, Nat.sub_self, List.drop_eq_getElem_cons hy,
    List.set_cons_zero, List.take_add_one, hx, Option.toList_some, List.append_assoc,
    List.singleton_append]

/-- What has been filled in so far are distances of the new row, whatever the old entries were. -/
theorem getElem?_filledUpTo (i : Nat) (before : List Nat) (hj : j ≤ bs.length) :
    (filledUpTo as bs i before j)[j]? = some (startDistance as bs i j) := by
  have hLength : j < ((row as bs i).take (j + 1)).length := by
    rw [List.length_take, length_row]
    omega
  rw [filledUpTo, List.getElem?_append_left hLength, List.getElem?_take_of_lt (Nat.lt_succ_self j),
    getElem?_row as bs i hj]

variable {as bs} {before : List Nat} (hBefore : before.length = bs.length + 1)
include hBefore

theorem length_filledUpTo (hj : j ≤ bs.length) :
    (filledUpTo as bs i before j).length = bs.length + 1 := by
  rw [filledUpTo, List.length_append, List.length_take, List.length_drop, length_row, hBefore]
  omega

/-- Nothing is left of the old entries when the end of the row is reached. -/
theorem filledUpTo_length : filledUpTo as bs i before bs.length = row as bs i := by
  rw [filledUpTo, ← hBefore, List.drop_length, List.append_nil, hBefore, ← length_row as bs i,
    List.take_length]

/-- The entries that a step reads are there, and it fills in the next distance. Three entries are
read: the one above, the one before, and the one before the one above. -/
theorem checkedEntry_eq_ok (hi : i < as.length) (hj : j < bs.length) :
    checkedEntry as bs (1 + i) (row as bs i) (filledUpTo as bs (i + 1) before j) (1 + j) =
      .ok (filledUpTo as bs (i + 1) before (j + 1)) := by
  have ha := List.getElem?_eq_getElem hi
  have hb := List.getElem?_eq_getElem hj
  have hUp := getElem?_row as bs i (Nat.succ_le_of_lt hj)
  have hLeft := getElem?_filledUpTo as bs (i + 1) before hj.le
  have hDiagonal := getElem?_row as bs i hj.le
  have hNew := getElem?_row as bs (i + 1) (Nat.succ_le_of_lt hj)
  have hPlace : j + 1 < (filledUpTo as bs (i + 1) before j).length := by
    rw [length_filledUpTo hBefore hj.le]
    omega
  rw [checkedEntry, Nat.add_comm 1 i, Nat.add_comm 1 j]
  simp only [Checked.sub_eq_ok (Nat.le_add_left 1 _), Nat.add_sub_cancel, Checked.ok_bind,
    Checked.read_eq_ok ha, Checked.read_eq_ok hb, Checked.read_eq_ok hUp, Checked.read_eq_ok hLeft,
    Checked.read_eq_ok hDiagonal]
  rw [← startDistance_succ as bs ha hb, Checked.write_eq_ok _ hPlace, filledUpTo,
    set_take_append_drop hNew (by omega), filledUpTo]

/-- One pass of the inner loop makes the next row out of the last one, and keeps the last one for
the pass after it. -/
theorem checkedRow_eq_ok (hi : i < as.length) :
    checkedRow as bs (row as bs i, before) (1 + i) = .ok (row as bs (i + 1), row as bs i) := by
  have hFirst : before.set 0 ((1 + i) * indelCost) = filledUpTo as bs (i + 1) before 0 := by
    have hEntry := getElem?_row as bs (i + 1) (Nat.zero_le bs.length)
    rw [startDistance_zero_right as bs hi] at hEntry
    rw [indelCost, Nat.mul_one, Nat.add_comm 1 i, filledUpTo,
      ← set_take_append_drop hEntry (by omega), List.take_zero, List.drop_zero, List.nil_append]
  have hRun := Checked.foldlM_range'_eq_ok (filledUpTo as bs (i + 1) before) 1 bs.length
    fun j hj => checkedEntry_eq_ok hBefore hi hj
  have hPlace : 0 < before.length := by omega
  rw [checkedRow, Checked.write_eq_ok _ hPlace, Checked.ok_bind, hFirst, hRun, Checked.ok_bind,
    filledUpTo_length hBefore, Checked.pure_eq_ok]

omit hBefore in
/-- The outer loop goes from the rows after so many characters to the rows after one character
more. -/
theorem checkedRow_rowsAfter (hi : i < as.length) :
    checkedRow as bs (rowsAfter as bs i) (1 + i) = .ok (rowsAfter as bs (i + 1)) := by
  cases i with
  | zero =>
      rw [rowsAfter, initialRows, firstRow_eq_row as]
      exact checkedRow_eq_ok List.length_replicate hi
  | succ i => exact checkedRow_eq_ok (length_row as bs i) hi

end Rows

/-- The distance by positions in two rows is the edit distance. -/
theorem checkedBetween_eq_ok (as bs : List Char) : checkedBetween as bs = .ok (between as bs) := by
  rw [checkedBetween, ← startDistance_all]
  split
  · next hNone =>
    rw [hNone, startDistance_zero as bs le_rfl, indelCost, Nat.mul_one, Checked.pure_eq_ok]
  · next hSome =>
    split
    · next hNone =>
      rw [hNone, startDistance_zero_right as bs le_rfl, indelCost, Nat.mul_one, Checked.pure_eq_ok]
    · have hRun := Checked.foldlM_range'_eq_ok (rowsAfter as bs) 1 as.length
        fun i hi => checkedRow_rowsAfter hi
      obtain ⟨last, hLast⟩ := Nat.exists_eq_succ_of_ne_zero hSome
      rw [rowsAfter] at hRun
      rw [hRun, Checked.ok_bind, hLast, rowsAfter]
      exact Checked.read_eq_ok (getElem?_row as bs (last + 1) le_rfl)

/-- The distance of two texts is computed without an index out of range. -/
theorem checkedOfTexts_eq_ok (a b : String) : checkedOfTexts a b = .ok (ofTexts a b) :=
  checkedBetween_eq_ok _ _

end PlotQuery.EditDistance
