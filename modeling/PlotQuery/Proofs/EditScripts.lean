import Mathlib.Data.List.Basic
import Mathlib.Order.Bounds.Basic
import PlotQuery.EditDistance

/-! What the edit distance measures. It is the least cost of any sequence of edits that turns one
text into the other, and what two texts have most in common decides it. The rows that are computed
agree with a recursion on both texts from their ends. -/
namespace PlotQuery.EditDistance

/-- One edit of a text with its cost. It may take place anywhere in the text. -/
inductive Edit : List Char → List Char → Nat → Prop where
  | insertion (before : List Char) (c : Char) (after : List Char) :
      Edit (before ++ after) (before ++ c :: after) 1
  | deletion (before : List Char) (c : Char) (after : List Char) :
      Edit (before ++ c :: after) (before ++ after) 1
  | substitution (before : List Char) (c d : Char) (after : List Char) :
      Edit (before ++ c :: after) (before ++ d :: after) 2

/-- A sequence of edits that turns one text into another, with its total cost. -/
inductive Script : List Char → List Char → Nat → Prop where
  | done (text : List Char) : Script text text 0
  | edit {a b c : List Char} {cost rest : Nat} (first : Edit a b cost) (others : Script b c rest) :
      Script a c (cost + rest)

/-- The lengths of the texts that are left of both of two texts by leaving characters out. -/
def commonLengths (as bs : List Char) : Set Nat :=
  {length | ∃ common : List Char, common.Sublist as ∧ common.Sublist bs ∧ common.length = length}

section Scripts

variable {a b c common : List Char} {m n cost : Nat}

/-- An insertion is undone by a deletion, and a substitution by another one, at the same cost. -/
theorem Edit.symm (h : Edit a b cost) : Edit b a cost := by
  cases h with
  | insertion before c after => exact .deletion before c after
  | deletion before c after => exact .insertion before c after
  | substitution before c d after => exact .substitution before d c after

/-- An edit may be made behind one more character as well. -/
theorem Edit.cons (first : Char) (h : Edit a b cost) : Edit (first :: a) (first :: b) cost := by
  cases h with
  | insertion before c after => exact .insertion (first :: before) c after
  | deletion before c after => exact .deletion (first :: before) c after
  | substitution before c d after => exact .substitution (first :: before) c d after

theorem Edit.cost_pos (h : Edit a b cost) : 0 < cost := by
  cases h <;> decide

theorem Script.single (h : Edit a b cost) : Script a b cost :=
  .edit h (.done b)

theorem Script.trans (left : Script a b m) (right : Script b c n) : Script a c (m + n) := by
  induction left with
  | done => rwa [Nat.zero_add]
  | edit first _ ih =>
      rw [Nat.add_assoc]
      exact .edit first (ih right)

/-- A sequence of edits can be gone through backwards at the same cost. -/
theorem Script.symm (h : Script a b cost) : Script b a cost := by
  induction h with
  | done text => exact .done text
  | edit first _ ih =>
      rw [Nat.add_comm]
      exact ih.trans (.single first.symm)

/-- A sequence of edits may be made behind one more character as well. -/
theorem Script.cons (first : Char) (h : Script a b cost) :
    Script (first :: a) (first :: b) cost := by
  induction h with
  | done text => exact .done (first :: text)
  | edit next _ ih => exact .edit (next.cons first) ih

/-- Where nothing is paid, nothing has been edited. -/
theorem Script.eq_of_cost_eq_zero (h : Script a b cost) (hCost : cost = 0) : a = b := by
  cases h with
  | done => rfl
  | edit first _ =>
      have hPositive := first.cost_pos
      omega

/-- Characters are left out at the cost of one each. So a text can be reduced to anything that
stands in it in the same order. -/
theorem exists_script_of_sublist (h : common.Sublist a) :
    ∃ cost, Script a common cost ∧ cost + common.length = a.length := by
  induction h with
  | slnil => exact ⟨0, .done [], rfl⟩
  | @cons common text c _ ih =>
      obtain ⟨cost, hScript, hCost⟩ := ih
      refine ⟨1 + cost, .edit (.deletion [] c text) hScript, ?_⟩
      rw [List.length_cons]
      omega
  | @cons_cons common text c _ ih =>
      obtain ⟨cost, hScript, hCost⟩ := ih
      refine ⟨cost, hScript.cons c, ?_⟩
      rw [List.length_cons, List.length_cons]
      omega

/-- One way from a text to another is by what they have in common. The rest of the one text is
left out, and the rest of the other is put in. -/
theorem exists_script_of_common (ha : common.Sublist a) (hb : common.Sublist b) :
    ∃ cost, Script a b cost ∧ cost + 2 * common.length = a.length + b.length := by
  obtain ⟨m, hLeft, hm⟩ := exists_script_of_sublist ha
  obtain ⟨n, hRight, hn⟩ := exists_script_of_sublist hb
  exact ⟨m + n, hLeft.trans hRight.symm, by omega⟩

/-- Without one character of a text, at most one character is lost of what is left of the text. By
induction on how the rest lies in the text. -/
theorem exists_sublist_of_insertion {before after : List Char} {c : Char}
    (h : common.Sublist (before ++ c :: after)) :
    ∃ rest : List Char, rest.Sublist (before ++ after) ∧ rest.Sublist common ∧
      common.length ≤ rest.length + 1 := by
  obtain ⟨left, right, rfl, hLeft, hRight⟩ := List.sublist_append_iff.1 h
  rcases List.sublist_cons_iff.1 hRight with hRight | ⟨rest, rfl, hRest⟩
  · exact ⟨left ++ right, hLeft.append hRight, List.Sublist.refl _, Nat.le_succ _⟩
  · refine ⟨left ++ rest, hLeft.append hRest, (List.sublist_cons_self c rest).append_left left, ?_⟩
    simp only [List.length_append, List.length_cons]
    omega

/-- An edit takes away no more of what a text has in common with others than it costs. A
substitution loses one character of either text at the cost of two. -/
theorem Edit.exists_sublist (h : Edit a b cost) (hCommon : common.Sublist b) :
    ∃ rest : List Char, rest.Sublist a ∧ rest.Sublist common ∧
      a.length + 2 * common.length ≤ cost + b.length + 2 * rest.length := by
  cases h with
  | insertion before c after =>
      obtain ⟨rest, hRest, hPart, hLength⟩ := exists_sublist_of_insertion hCommon
      refine ⟨rest, hRest, hPart, ?_⟩
      simp only [List.length_append, List.length_cons]
      omega
  | deletion before c after =>
      refine ⟨common, hCommon.trans ((List.sublist_cons_self c after).append_left before),
        List.Sublist.refl common, ?_⟩
      simp only [List.length_append, List.length_cons]
      omega
  | substitution before c d after =>
      obtain ⟨rest, hRest, hPart, hLength⟩ := exists_sublist_of_insertion hCommon
      refine ⟨rest, hRest.trans ((List.sublist_cons_self c after).append_left before), hPart, ?_⟩
      simp only [List.length_append, List.length_cons]
      omega

/-- Every sequence of edits leaves something in common that accounts for its cost. By induction on
the edits, each of which takes away what it costs at most. -/
theorem Script.exists_common (h : Script a b cost) :
    ∃ common : List Char, common.Sublist a ∧ common.Sublist b ∧
      a.length + b.length ≤ cost + 2 * common.length := by
  induction h with
  | done text => exact ⟨text, List.Sublist.refl text, List.Sublist.refl text, by omega⟩
  | edit first _ ih =>
      obtain ⟨common, hMiddle, hLast, hLength⟩ := ih
      obtain ⟨rest, hRest, hPart, hEdit⟩ := first.exists_sublist hMiddle
      exact ⟨rest, hRest, hPart.trans hLast, by omega⟩

end Scripts

section Rows

/-- The distance of two texts by their last characters. Both are given from their ends. -/
def fromEnds : List Char → List Char → Nat
  | [], bs => bs.length
  | a :: as, [] => (a :: as).length
  | a :: as, b :: bs =>
    min (min (fromEnds as (b :: bs) + 1) (fromEnds (a :: as) bs + 1))
      (fromEnds as bs + if a = b then 0 else 2)
termination_by as bs => as.length + bs.length

/-- The distances of a text to `passed` and to each text that goes on from there. What has been read
of both texts is given from its end. -/
def rowFrom (as passed : List Char) : List Char → List Nat
  | [] => [fromEnds as passed]
  | b :: bs => fromEnds as passed :: rowFrom as (b :: passed) bs

/-- A row begins with the distance from all that has been passed. -/
theorem rowFrom_eq_cons (as passed bs : List Char) :
    rowFrom as passed bs = fromEnds as passed :: (rowFrom as passed bs).tail := by
  cases bs <;> rfl

/-- A row ends with the distance of the whole texts, which is the one to be read in the end. -/
theorem getLast?_rowFrom (as passed bs : List Char) :
    (rowFrom as passed bs).getLast? = some (fromEnds as (bs.reverse ++ passed)) := by
  induction bs generalizing passed with
  | nil => rfl
  | cons b bs ih =>
      rw [rowFrom, rowFrom_eq_cons, List.getLast?_cons_cons, ← rowFrom_eq_cons, ih,
        List.reverse_cons, List.append_assoc, List.singleton_append]

/-- From no characters at all, the distances go up by one insertion at a time. -/
theorem rowFrom_nil (passed bs : List Char) :
    rowFrom [] passed bs =
      (List.range' passed.length (bs.length + 1)).map (· * indelCost) := by
  induction bs generalizing passed with
  | nil => simp [rowFrom, fromEnds, indelCost]
  | cons b bs ih =>
      have hRange : List.range' passed.length (bs.length + 1 + 1) =
          passed.length :: List.range' (passed.length + 1) (bs.length + 1) := List.range'_succ
      rw [rowFrom, ih, fromEnds, List.length_cons, List.length_cons, hRange, List.map_cons,
        indelCost, Nat.mul_one]

theorem firstRow_eq (bs : List Char) : firstRow bs = rowFrom [] [] bs := by
  rw [firstRow, rowFrom_nil, List.range_eq_range', List.length_nil]

/-- The recursion from the ends is what extends a row. By induction on the row above, which is
taken apart from its front. -/
theorem extendRow_rowFrom (a : Char) (as passed bs : List Char) :
    extendRow a (fromEnds (a :: as) passed) bs (rowFrom as passed bs) =
      (rowFrom (a :: as) passed bs).tail := by
  induction bs generalizing passed with
  | nil => rfl
  | cons b bs ih =>
      have hHere : fromEnds (a :: as) (b :: passed) =
          min (min (fromEnds as (b :: passed) + indelCost) (fromEnds (a :: as) passed + indelCost))
            (fromEnds as passed + if a = b then 0 else substitutionCost) := by
        rw [fromEnds]
        rfl
      -- The step looks at the first two entries above, so the row above is taken apart for it.
      rw [rowFrom, rowFrom_eq_cons, extendRow, ← rowFrom_eq_cons, ← hHere, ih, ← rowFrom_eq_cons]
      rfl

/-- One more character of the first text leads from a row to the next one. -/
theorem nextRow_rowFrom (a : Char) (as bs : List Char) :
    nextRow a bs (rowFrom as [] bs) = rowFrom (a :: as) [] bs := by
  have hFirst : fromEnds (a :: as) [] = fromEnds as [] + indelCost := by
    cases as <;> simp [fromEnds, indelCost]
  rw [rowFrom_eq_cons, nextRow, ← rowFrom_eq_cons, ← hFirst, extendRow_rowFrom, ← rowFrom_eq_cons]

/-- After some characters have been read, the row is that of those characters. They are read from
the front while the recursion goes from the ends, so the text is reversed. -/
theorem foldl_nextRow (read as bs : List Char) :
    as.foldl (fun row a => nextRow a bs row) (rowFrom read [] bs) =
      rowFrom (as.reverse ++ read) [] bs := by
  induction as generalizing read with
  | nil => rfl
  | cons a as ih =>
      rw [List.foldl_cons, nextRow_rowFrom, ih, List.reverse_cons, List.append_assoc,
        List.singleton_append]

/-- The row algorithm computes the recursion from the ends of both texts. -/
theorem between_eq_fromEnds (as bs : List Char) :
    between as bs = fromEnds as.reverse bs.reverse := by
  rw [between, firstRow_eq, foldl_nextRow, getLast?_rowFrom, Option.getD_some, List.append_nil,
    List.append_nil]

end Rows

section Common

variable {common as bs : List Char}

/-- The distance is reached in one of three ways. Two of them leave out a character, and the third
one keeps or replaces one. -/
theorem fromEnds_cons_cases (a : Char) (as : List Char) (b : Char) (bs : List Char) :
    fromEnds (a :: as) (b :: bs) = fromEnds as (b :: bs) + 1 ∨
      fromEnds (a :: as) (b :: bs) = fromEnds (a :: as) bs + 1 ∨
      fromEnds (a :: as) (b :: bs) = fromEnds as bs + if a = b then 0 else 2 := by
  rw [fromEnds]
  omega

/-- What two texts have in common is no longer than their distance allows. Twice its length is at
most what both texts have beyond the distance. -/
theorem fromEnds_add_le (ha : common.Sublist as) (hb : common.Sublist bs) :
    fromEnds as bs + 2 * common.length ≤ as.length + bs.length := by
  induction as, bs using fromEnds.induct generalizing common with
  | case1 bs =>
      rw [List.sublist_nil.1 ha, fromEnds, List.length_nil]
      omega
  | case2 a as =>
      rw [List.sublist_nil.1 hb, fromEnds, List.length_nil]
  | case3 a as b bs ihUp ihLeft ihDiagonal =>
      rw [fromEnds]
      -- A last character is outside what is in common, or it ends both texts and what is in common.
      rcases List.sublist_cons_iff.1 ha with ha' | ⟨left, rfl, hLeft⟩
      · have hUp := ihUp ha' hb
        simp only [List.length_cons] at hUp ⊢
        omega
      · rcases List.sublist_cons_iff.1 hb with hb' | ⟨right, hSame, hRight⟩
        · have hShorter := ihLeft ha hb'
          simp only [List.length_cons] at hShorter ⊢
          omega
        · obtain ⟨rfl, rfl⟩ := List.cons.inj hSame
          have hDiagonal := ihDiagonal hLeft hRight
          rw [if_pos rfl]
          simp only [List.length_cons]
          omega

/-- The distance accounts for all that two texts do not have in common at best. By the same
recursion, with what the shorter texts have in common. -/
theorem exists_common_fromEnds (as bs : List Char) :
    ∃ common : List Char, common.Sublist as ∧ common.Sublist bs ∧
      fromEnds as bs + 2 * common.length = as.length + bs.length := by
  induction as, bs using fromEnds.induct with
  | case1 bs => exact ⟨[], List.nil_sublist _, List.nil_sublist bs, by simp [fromEnds]⟩
  | case2 a as => exact ⟨[], List.nil_sublist _, List.nil_sublist _, by simp [fromEnds]⟩
  | case3 a as b bs ihUp ihLeft ihDiagonal =>
      rcases fromEnds_cons_cases a as b bs with hCost | hCost | hCost
      · obtain ⟨common, ha, hb, hLength⟩ := ihUp
        refine ⟨common, ha.cons a, hb, ?_⟩
        rw [hCost, List.length_cons]
        omega
      · obtain ⟨common, ha, hb, hLength⟩ := ihLeft
        refine ⟨common, ha, hb.cons b, ?_⟩
        rw [hCost]
        simp only [List.length_cons] at hLength ⊢
        omega
      · obtain ⟨common, ha, hb, hLength⟩ := ihDiagonal
        by_cases hSame : a = b
        · subst hSame
          refine ⟨a :: common, ha.cons_cons a, hb.cons_cons a, ?_⟩
          rw [hCost, if_pos rfl]
          simp only [List.length_cons]
          omega
        · refine ⟨common, ha.cons a, hb.cons b, ?_⟩
          rw [hCost, if_neg hSame, List.length_cons, List.length_cons]
          omega

/-- The longest text that two texts have in common decides their distance. -/
theorem exists_isGreatest_commonLengths (as bs : List Char) :
    ∃ longest, IsGreatest (commonLengths as bs) longest ∧
      between as bs + 2 * longest = as.length + bs.length := by
  obtain ⟨longest, ha, hb, hLength⟩ := exists_common_fromEnds as.reverse bs.reverse
  rw [← between_eq_fromEnds, List.length_reverse, List.length_reverse] at hLength
  refine ⟨longest.length, ⟨⟨longest.reverse, ?_, ?_, List.length_reverse⟩, ?_⟩, hLength⟩
  · exact List.reverse_sublist.1 (by rwa [List.reverse_reverse])
  · exact List.reverse_sublist.1 (by rwa [List.reverse_reverse])
  · rintro length ⟨common, ha, hb, rfl⟩
    have hBound := fromEnds_add_le (List.reverse_sublist.2 ha) (List.reverse_sublist.2 hb)
    simp only [← between_eq_fromEnds, List.length_reverse] at hBound
    omega

/-- The distance makes up for what one text is longer than the other. So the difference in length
is a lower bound for the distance. -/
theorem length_le_between_add (as bs : List Char) : as.length ≤ between as bs + bs.length := by
  obtain ⟨longest, ⟨⟨common, -, hb, rfl⟩, -⟩, hLength⟩ := exists_isGreatest_commonLengths as bs
  have hShorter := hb.length_le
  omega

/-- The distance is the least cost of a sequence of edits. It is reached by the longest common
part and cannot be undercut, as every sequence of edits leaves a common part. -/
theorem isLeast_between (as bs : List Char) :
    IsLeast {cost | Script as bs cost} (between as bs) := by
  obtain ⟨longest, ⟨⟨common, ha, hb, rfl⟩, hGreatest⟩, hLength⟩ :=
    exists_isGreatest_commonLengths as bs
  constructor
  · obtain ⟨cost, hScript, hCost⟩ := exists_script_of_common ha hb
    obtain rfl : cost = between as bs := by omega
    exact hScript
  · intro cost hScript
    obtain ⟨rest, hRestLeft, hRestRight, hCost⟩ := Script.exists_common hScript
    have hShorter := hGreatest ⟨rest, hRestLeft, hRestRight, rfl⟩
    omega

end Common

/-- The edit distance is the least cost of a sequence of edits between the texts in lower case,
and it counts the characters of both that are outside the longest text that they have in common.
Nothing is asked of the texts. -/
theorem ofTexts_isLeast_and_common (a b : String) :
    IsLeast {cost | Script (Text.lowerEach a.toList) (Text.lowerEach b.toList) cost}
      (ofTexts a b) ∧
    ∃ longest,
      IsGreatest (commonLengths (Text.lowerEach a.toList) (Text.lowerEach b.toList)) longest ∧
      ofTexts a b + 2 * longest =
        (Text.lowerEach a.toList).length + (Text.lowerEach b.toList).length :=
  ⟨isLeast_between _ _, exists_isGreatest_commonLengths _ _⟩

/-- The edit distance is a metric on texts without regard to case. Texts at no distance are those
that are the same in lower case. -/
theorem ofTexts_metric (a b c : String) :
    ofTexts a b = ofTexts b a ∧
    (ofTexts a b = 0 ↔ Text.lowerEach a.toList = Text.lowerEach b.toList) ∧
    ofTexts a c ≤ ofTexts a b + ofTexts b c := by
  have hLeast (a b : String) := isLeast_between (Text.lowerEach a.toList) (Text.lowerEach b.toList)
  have hSymm (a b : String) : ofTexts a b ≤ ofTexts b a := (hLeast a b).2 (hLeast b a).1.symm
  refine ⟨Nat.le_antisymm (hSymm a b) (hSymm b a), ⟨?_, ?_⟩, ?_⟩
  · exact (hLeast a b).1.eq_of_cost_eq_zero
  · intro hSame
    have hDone : Script (Text.lowerEach a.toList) (Text.lowerEach b.toList) 0 := hSame ▸ .done _
    exact Nat.le_zero.1 ((hLeast a b).2 hDone)
  · exact (hLeast a c).2 ((hLeast a b).1.trans (hLeast b c).1)

end PlotQuery.EditDistance
