import PlotQuery.Proofs.SchemaClosure

/-! The choice of axes among the plotted columns. The horizontal axis takes the first column with the
greatest weight and the vertical one the last column with the least weight, so of several columns
without repetition the axes take different ones. -/
namespace PlotQuery

section Choice

variable {α : Type} (replaces : α → α → Prop) [DecidableRel replaces]
  {choose : Option α → α → Option α} {members : List α} {chosen : α}

/-- A choice over members is missing only where there are no members, as the first one is taken
whatever the condition says. -/
theorem foldl_choose_eq_none_iff (hNone : ∀ a, choose none a = some a)
    (hSome : ∀ kept a, choose (some kept) a = if replaces kept a then some a else some kept) :
    members.foldl choose none = none ↔ members = [] := by
  induction members using List.reverseRecOn with
  | nil => simp
  | append_singleton members a =>
      rw [List.foldl_append, List.foldl_cons, List.foldl_nil]
      cases members.foldl choose none with
      | none => simp [hNone]
      | some kept =>
          rw [hSome]
          split <;> simp

/-- A choice that the next member replaces under a condition: all members before it were replaced
by it, and none behind it replaces it. Both axes are chosen in this way and differ in the
condition alone. -/
theorem exists_split_of_foldl_choose (hNone : ∀ a, choose none a = some a)
    (hSome : ∀ kept a, choose (some kept) a = if replaces kept a then some a else some kept)
    (hTrans : ∀ a b c, replaces a b → replaces b c → replaces a c)
    (hOver : ∀ kept a c, ¬replaces kept a → replaces kept c → replaces a c)
    (h : members.foldl choose none = some chosen) :
    ∃ before after, members = before ++ chosen :: after ∧
      (∀ a ∈ before, replaces a chosen) ∧ ∀ a ∈ after, ¬replaces chosen a := by
  induction members using List.reverseRecOn generalizing chosen with
  | nil => cases h
  | append_singleton members a ih =>
      rw [List.foldl_append, List.foldl_cons, List.foldl_nil] at h
      cases hKept : members.foldl choose none with
      | none =>
          rw [hKept, hNone] at h
          obtain rfl := Option.some.inj h
          obtain rfl := (foldl_choose_eq_none_iff replaces hNone hSome).1 hKept
          exact ⟨[], [], rfl, by simp, by simp⟩
      | some kept =>
          rw [hKept, hSome] at h
          obtain ⟨before, after, rfl, hBefore, hAfter⟩ := ih hKept
          split at h
          · next hReplaced =>
            obtain rfl := Option.some.inj h
            refine ⟨before ++ kept :: after, [], rfl, fun b hb => ?_, by simp⟩
            rcases List.mem_append.1 hb with hb | hb
            · exact hTrans b kept a (hBefore b hb) hReplaced
            · rcases List.mem_cons.1 hb with rfl | hb
              · exact hReplaced
              · exact hOver kept b a (hAfter b hb) hReplaced
          · next hStays =>
            obtain rfl := Option.some.inj h
            refine ⟨before, after ++ [a], by simp, hBefore, fun b hb => ?_⟩
            rcases List.mem_append.1 hb with hb | hb
            · exact hAfter b hb
            · rw [List.mem_singleton.1 hb]
              exact hStays

end Choice

/-- In a list without repetition a member has one place. -/
theorem append_cons_inj_of_nodup {before before' after after' : List String} {name : String}
    (hNodup : (before ++ name :: after).Nodup)
    (h : before ++ name :: after = before' ++ name :: after') :
    before = before' ∧ after = after' := by
  have hPlace {before after : List String} (hNodup : (before ++ name :: after).Nodup) :
      (before ++ name :: after).idxOf name = before.length := by
    have hNew : name ∉ before := fun hMem =>
      (List.nodup_append.1 hNodup).2.2 name hMem name List.mem_cons_self rfl
    rw [List.idxOf_append_of_notMem hNew, List.idxOf_cons_self, Nat.add_zero]
  have hLength : before.length = before'.length := by
    rw [← hPlace hNodup, h, hPlace (h ▸ hNodup)]
  obtain ⟨hBefore, hRest⟩ := List.append_inj h hLength
  exact ⟨hBefore, (List.cons.inj hRest).2⟩

namespace Schema

variable {S : Type} [Scalar S] {schema : Schema S} {columns : List String} {x y name : String}

/-- The horizontal axis takes the first column with the greatest weight. All columns in front of
it weigh less, and none behind it weighs more. -/
theorem exists_split_of_xAxis (h : schema.xAxis columns = some x) :
    ∃ before after, columns = before ++ x :: after ∧
      (∀ column ∈ before, schema.axisWeight column < schema.axisWeight x) ∧
      ∀ column ∈ after, schema.axisWeight column ≤ schema.axisWeight x := by
  obtain ⟨before, after, hSplit, hBefore, hAfter⟩ := exists_split_of_foldl_choose
    (fun kept column => schema.axisWeight kept < schema.axisWeight column)
    (fun _ => rfl) (fun _ _ => rfl) (fun _ _ _ => Nat.lt_trans)
    (fun _ _ _ hNot => Nat.lt_of_le_of_lt (Nat.le_of_not_lt hNot)) h
  exact ⟨before, after, hSplit, hBefore,
    fun column hColumn => Nat.le_of_not_lt (hAfter column hColumn)⟩

/-- The vertical axis takes the last column with the least weight. None in front of it weighs
less, and all behind it weigh more. -/
theorem exists_split_of_yAxis (h : schema.yAxis columns = some y) :
    ∃ before after, columns = before ++ y :: after ∧
      (∀ column ∈ before, schema.axisWeight y ≤ schema.axisWeight column) ∧
      ∀ column ∈ after, schema.axisWeight y < schema.axisWeight column := by
  obtain ⟨before, after, hSplit, hBefore, hAfter⟩ := exists_split_of_foldl_choose
    (fun kept column => schema.axisWeight column ≤ schema.axisWeight kept)
    (fun _ => rfl) (fun _ _ => rfl) (fun _ _ _ hFirst hSecond => Nat.le_trans hSecond hFirst)
    (fun _ _ _ hNot hLe => Nat.le_trans hLe (Nat.le_of_not_le hNot)) h
  exact ⟨before, after, hSplit, hBefore,
    fun column hColumn => Nat.lt_of_not_le (hAfter column hColumn)⟩

/-- No column outweighs the one on the horizontal axis, wherever it stands among the columns. -/
theorem axisWeight_le_of_xAxis (h : schema.xAxis columns = some x) (hName : name ∈ columns) :
    schema.axisWeight name ≤ schema.axisWeight x := by
  obtain ⟨before, after, rfl, hBefore, hAfter⟩ := exists_split_of_xAxis h
  rcases List.mem_append.1 hName with hName | hName
  · exact Nat.le_of_lt (hBefore name hName)
  · rcases List.mem_cons.1 hName with rfl | hName
    · exact Nat.le_refl _
    · exact hAfter name hName

/-- The weight of categories is beyond what a name that tells time gives to a column without them.
So the two parts of a weight can be told apart from their sum. -/
theorem five_le_axisWeight_iff : 5 ≤ schema.axisWeight name ↔ schema.isCategoryLike name = true := by
  rw [axisWeight]
  split
  · next hCategory => simp [hCategory]
  · next hPlain =>
    have hSmall : (if tellsTime name then 2 else 0) < 5 := by split <;> decide
    constructor
    · omega
    · exact fun hCategory => absurd hCategory hPlain

/-- If any of the columns holds categories, then the one on the horizontal axis does. -/
theorem isCategoryLike_of_xAxis (h : schema.xAxis columns = some x) (hName : name ∈ columns)
    (hCategory : schema.isCategoryLike name = true) : schema.isCategoryLike x = true :=
  five_le_axisWeight_iff.1
    (Nat.le_trans (five_le_axisWeight_iff.2 hCategory) (axisWeight_le_of_xAxis h hName))

/-- Several columns without repetition give different ones to the two axes: a column that is both
the first with the greatest weight and the last with the least one stands alone. Without
repetition nothing else is needed: the weights may all be the same. -/
theorem xAxis_ne_yAxis (hNodup : columns.Nodup) (hMore : 1 < columns.length)
    (hX : schema.xAxis columns = some x) (hY : schema.yAxis columns = some y) : x ≠ y := by
  rintro rfl
  obtain ⟨before, after, hSplit, hBefore, hAfter⟩ := exists_split_of_xAxis hX
  obtain ⟨before', after', hSplit', hBefore', hAfter'⟩ := exists_split_of_yAxis hY
  obtain ⟨rfl, rfl⟩ := append_cons_inj_of_nodup (hSplit ▸ hNodup) (hSplit.symm.trans hSplit')
  have hNoBefore : before = [] := List.eq_nil_iff_forall_not_mem.2 fun column hColumn =>
    Nat.not_lt_of_le (hBefore' column hColumn) (hBefore column hColumn)
  have hNoAfter : after = [] := List.eq_nil_iff_forall_not_mem.2 fun column hColumn =>
    Nat.not_lt_of_le (hAfter column hColumn) (hAfter' column hColumn)
  rw [hSplit, hNoBefore, hNoAfter] at hMore
  exact Nat.lt_irrefl _ hMore

end Schema

end PlotQuery
