import PlotQuery.Proofs.SchemaClosure
import PlotQuery.Proofs.Conditions

/-! Conditions of merged maps. Operators and values are put one after the other and stay paired. The
column is one for all of them: where two maps have conditions on different columns, the column of the
left map is lost, and its conditions turn into conditions on the other column. -/
namespace PlotQuery

def RowFilter.onColumn (column : String) (filter : RowFilter) : RowFilter :=
  { filter with column := column }

namespace Semantics

/-- The map has conditions, and an operator for each of their values. -/
structure PairsConditions (s : Semantics) : Prop where
  column : s.contains "filter_col" = true
  op : s.contains "filter_op" = true
  value : s.contains "filter_v" = true
  paired : s.itemCount "filter_op" = s.itemCount "filter_v"

instance (s : Semantics) : Decidable s.PairsConditions :=
  decidable_of_iff (s.contains "filter_col" = true ∧ s.contains "filter_op" = true ∧
    s.contains "filter_v" = true ∧ s.itemCount "filter_op" = s.itemCount "filter_v")
    ⟨fun ⟨h, h', h'', hPaired⟩ => ⟨h, h', h'', hPaired⟩,
      fun ⟨h, h', h'', hPaired⟩ => ⟨h, h', h'', hPaired⟩⟩

variable {s left right : Semantics} {column : String} {key : String}

/-- The operators and values of the conditions, equally many of both. -/
theorem PairsConditions.exists_items (h : s.PairsConditions) :
    ∃ ops values, s.items? "filter_op" = some ops ∧ s.items? "filter_v" = some values ∧
      ops.length = values.length := by
  obtain ⟨op, hOp⟩ := Option.isSome_iff_exists.1 h.op
  obtain ⟨value, hValue⟩ := Option.isSome_iff_exists.1 h.value
  have hPaired := h.paired
  simp only [itemCount, items?, hOp, hValue, Option.map_some, Option.getD_some] at hPaired ⊢
  exact ⟨_, _, rfl, rfl, hPaired⟩

variable {S : Type} [Scalar S] {policy : MergePolicy S}

/-- Under a key whose values are put one after the other, the items are those of the left map and
then those of the right one. -/
theorem items?_merge (hConcat : ∀ a b, mergeValue policy key a b = concatValue a b)
    {first second : List String} (hLeft : left.items? key = some first)
    (hRight : right.items? key = some second) :
    (merge policy left right).1.items? key = some (first ++ second) := by
  obtain ⟨a, ha, rfl⟩ := Option.map_eq_some_iff.1 hLeft
  obtain ⟨b, hb, rfl⟩ := Option.map_eq_some_iff.1 hRight
  rw [items?, get?_merge, ha, hb, mergedValue?, hConcat, Option.map_some, items_concatValue]

/-- The column of conditions is that of the right map, as no law of the standard policy keeps the
other one. -/
theorem get?_merge_filter_col (hColumn : right.get? "filter_col" = some column) :
    (merge (MergePolicy.standard : MergePolicy S) left right).1.get? "filter_col" =
      some column := by
  rw [get?_merge, hColumn]
  cases left.get? "filter_col" <;> rfl

end Semantics

namespace RowFilter

variable {s left right : Semantics} {column : String} {ops values : List String}

/-- Conditions pair operators and values in order, all on the one column of the map. -/
theorem ofSemantics_eq (hColumn : s.get? "filter_col" = some column)
    (hOps : s.items? "filter_op" = some ops) (hValues : s.items? "filter_v" = some values) :
    ofSemantics s = List.zipWith (RowFilter.mk column) ops values := by
  rw [ofSemantics, hColumn, hOps, hValues]

theorem map_onColumn_zipWith (other : String) :
    (List.zipWith (RowFilter.mk other) ops values).map (onColumn column) =
      List.zipWith (RowFilter.mk column) ops values := by
  rw [List.map_zipWith]
  rfl

/-- Putting conditions on a column changes nothing just if all of them are on it. -/
theorem map_onColumn_eq_self_iff {filters : List RowFilter} :
    filters.map (onColumn column) = filters ↔ ∀ filter ∈ filters, filter.column = column := by
  induction filters with
  | nil => simp
  | cons filter filters ih =>
      have hHead : onColumn column filter = filter ↔ filter.column = column := by
        cases filter
        simp [onColumn, eq_comm]
      rw [List.map_cons, List.cons.injEq, ih, hHead, List.forall_mem_cons]

variable {S : Type} [Scalar S]

/-- The conditions of a merged map are those of both maps in order, all of them on the column of the
right map. So each of them keeps its own column just where the columns are the same. -/
theorem ofSemantics_merge (hLeft : left.PairsConditions) (hRight : right.PairsConditions)
    (hColumn : right.get? "filter_col" = some column) :
    ofSemantics (Semantics.merge (MergePolicy.standard : MergePolicy S) left right).1 =
        (ofSemantics left).map (onColumn column) ++ ofSemantics right ∧
      (ofSemantics (Semantics.merge (MergePolicy.standard : MergePolicy S) left right).1 =
          ofSemantics left ++ ofSemantics right ↔
        ofSemantics left = [] ∨ left.get? "filter_col" = some column) := by
  obtain ⟨own, hOwn⟩ := Option.isSome_iff_exists.1 hLeft.column
  obtain ⟨ops, values, hOps, hValues, hLength⟩ := hLeft.exists_items
  obtain ⟨ops', values', hOps', hValues', -⟩ := hRight.exists_items
  have hMerged : ofSemantics (Semantics.merge (MergePolicy.standard : MergePolicy S) left right).1 =
      (ofSemantics left).map (onColumn column) ++ ofSemantics right := by
    rw [ofSemantics_eq (Semantics.get?_merge_filter_col hColumn)
        (Semantics.items?_merge (fun _ _ => rfl) hOps hOps')
        (Semantics.items?_merge (fun _ _ => rfl) hValues hValues'),
      ofSemantics_eq hOwn hOps hValues, ofSemantics_eq hColumn hOps' hValues',
      map_onColumn_zipWith, List.zipWith_append hLength]
  refine ⟨hMerged, ?_⟩
  rw [hMerged, List.append_left_inj, map_onColumn_eq_self_iff, hOwn, Option.some.injEq]
  have hColumns (filter : RowFilter) (hFilter : filter ∈ ofSemantics left) :
      filter.column = own :=
    Option.some.inj ((PlotRequest.column_of_mem_filters hFilter).symm.trans hOwn)
  constructor
  · intro hSame
    cases hFilters : ofSemantics left with
    | nil => exact .inl rfl
    | cons filter filters =>
        rw [hFilters] at hColumns hSame
        exact .inr ((hColumns filter List.mem_cons_self).symm.trans
          (hSame filter List.mem_cons_self))
  · rintro (hNone | rfl)
    · simp [hNone]
    · exact hColumns

/-- Two conditions on one column. -/
def ageConditions : Semantics :=
  Semantics.ofList [("filter_col", "Age"), ("filter_op", ">;<="), ("filter_v", "3;9")]

/-- A condition on another column. -/
def incomeCondition : Semantics :=
  Semantics.ofList [("filter_col", "Income"), ("filter_op", "<"), ("filter_v", "5")]

theorem ofSemantics_merge_ageConditions :
    ageConditions.PairsConditions ∧ incomeCondition.PairsConditions ∧
      incomeCondition.get? "filter_col" = some "Income" ∧
      ofSemantics (Semantics.merge (MergePolicy.standard : MergePolicy ℚ) ageConditions
          incomeCondition).1 =
        [⟨"Income", ">", "3"⟩, ⟨"Income", "<=", "9"⟩, ⟨"Income", "<", "5"⟩] := by
  have hLeft : ageConditions.PairsConditions := by decide +kernel
  have hRight : incomeCondition.PairsConditions := by decide +kernel
  have hColumn : incomeCondition.get? "filter_col" = some "Income" := by decide +kernel
  refine ⟨hLeft, hRight, hColumn, ?_⟩
  rw [(ofSemantics_merge hLeft hRight hColumn).1]
  decide +kernel

/-- Conditions on different columns do not keep their own ones. The first ones are put on the
column of the last. -/
theorem conditions_lose_column :
    ageConditions.PairsConditions ∧ incomeCondition.PairsConditions ∧
      ofSemantics ageConditions ++ ofSemantics incomeCondition =
        [⟨"Age", ">", "3"⟩, ⟨"Age", "<=", "9"⟩, ⟨"Income", "<", "5"⟩] ∧
      ofSemantics (Semantics.merge (MergePolicy.standard : MergePolicy ℚ) ageConditions
          incomeCondition).1 ≠
        ofSemantics ageConditions ++ ofSemantics incomeCondition := by
  refine ⟨?_, ?_, ?_, ?_⟩ <;> decide +kernel

end RowFilter

end PlotQuery
