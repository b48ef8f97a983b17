import PlotQuery.Proofs.ConservedNames

/-! Groupings that are in order. Putting a grouping in order infers a group, lets a category change
places with a group, and adds an aggregate function, each only where the map gives a reason for it.
No reason is left afterwards and none comes up on the way, so a second time nothing changes. -/
namespace PlotQuery

namespace Semantics

variable {s : Semantics} {key other value : String}

theorem contains_insert_self : (s.insert key value).contains key = true := by
  rw [contains, get?_insert, if_pos rfl]
  rfl

theorem contains_insert_of_contains (h : s.contains other = true) :
    (s.insert key value).contains other = true := by
  rw [contains, get?_insert]
  split
  · rfl
  · exact h

theorem get?_insert_of_ne (h : other ≠ key) : (s.insert key value).get? other = s.get? other := by
  rw [get?_insert, if_neg h]

end Semantics

namespace Schema

open Semantics

variable {S : Type} [Scalar S] {schema : Schema S} {kind : PlotKind} {s : Semantics}
  {columns groups columns' groups' : List String} {plotted grouped column key : String}

/-- There is an aggregate function without groups, and a plotted category to be its group. -/
structure ImpliesGroup (schema : Schema S) (kind : PlotKind) (s : Semantics) (column : String) :
    Prop where
  aggregated : s.contains "group_op" = true
  ungrouped : s.contains "group_col" = false
  hasRoom : kind = .line ∨ kind = .scatter
  category : schema.categoryUnder s "ColName" = some column

/-- There is no aggregate function, and what is plotted can be averaged. -/
structure LacksOperation (schema : Schema S) (kind : PlotKind) (s : Semantics) : Prop where
  plain : s.contains "group_op" = false
  drawn : kind ≠ .histogram
  numeric : ∀ column, schema.yAxis (schema.knownItems s "ColName") = some column →
    schema.isCategoryLike column = false

/-- The grouping of a map is in order: nothing is left to infer, to exchange or to add. -/
structure Resolved (schema : Schema S) (kind : PlotKind) (s : Semantics) : Prop where
  noGroup : ∀ column, ¬schema.ImpliesGroup kind s column
  noExchange : ∀ plotted grouped, ¬schema.Swaps (schema.knownItems s "ColName")
    (schema.knownItems s "group_col") plotted grouped
  noOperation : s.contains "group_col" = true → s.contains "ColName" = true →
    ¬schema.LacksOperation kind s

/-- Where a plotted category implies a group, the category is put in as the group. -/
theorem inferGroup_of_impliesGroup (h : schema.ImpliesGroup kind s column) :
    schema.inferGroup kind s = s.insert "group_col" column := by
  simp only [inferGroup, h.aggregated, h.ungrouped, h.category]
  rcases h.hasRoom with rfl | rfl <;> rfl

/-- Where nothing implies a group, the map stays as it is. -/
theorem inferGroup_of_not_impliesGroup (h : ∀ column, ¬schema.ImpliesGroup kind s column) :
    schema.inferGroup kind s = s := by
  rw [inferGroup]
  split
  · next hInfers =>
    split
    · next column hColumn =>
      simp only [Bool.and_eq_true, Bool.not_eq_true', Bool.or_eq_true, decide_eq_true_eq]
        at hInfers
      obtain ⟨⟨hAggregated, hUngrouped⟩, hRoom⟩ := hInfers
      exact absurd ⟨hAggregated, hUngrouped, hRoom, hColumn⟩ (h column)
    · rfl
  · rfl

/-- An inferred group is a group, so no other one is inferred. So the first step has nothing to do
a second time. -/
theorem not_impliesGroup_inferGroup :
    ¬schema.ImpliesGroup kind (schema.inferGroup kind s) column := by
  by_cases hImplies : ∃ inferred, schema.ImpliesGroup kind s inferred
  · obtain ⟨inferred, hInferred⟩ := hImplies
    rw [inferGroup_of_impliesGroup hInferred]
    exact fun h => Bool.false_ne_true (h.ungrouped.symm.trans contains_insert_self)
  · rw [not_exists] at hImplies
    rw [inferGroup_of_not_impliesGroup hImplies]
    exact hImplies column

theorem get?_inferGroup_of_ne (h : key ≠ "group_col") :
    (schema.inferGroup kind s).get? key = s.get? key := by
  rcases schema.inferGroup_eq with hSame | ⟨column, -, -, hInferred⟩
  · rw [hSame]
  · rw [hInferred, get?_insert_of_ne h]

/-- After the exchange there is a category among the groups, so none of them changes places again.
The second step has nothing to do a second time either. -/
theorem Swaps.not_swaps_swapped {plotted' grouped' : String}
    (h : schema.Swaps columns groups plotted grouped) :
    ¬schema.Swaps columns' (groups.filter (· != grouped) ++ [plotted]) plotted' grouped' := by
  intro hAgain
  have hPlain := hAgain.isCategoryLike_of_mem (List.mem_append_right _ List.mem_cons_self)
  exact Bool.false_ne_true (hPlain.symm.trans h.category)

/-- However the columns and groups have come about, no two of them are left to change places. -/
theorem Rearranged.not_swaps (h : schema.Rearranged columns groups columns' groups') :
    ¬schema.Swaps columns' groups' plotted grouped := by
  cases h with
  | kept hStays => exact hStays plotted grouped
  | inferred _ _ hCategory => exact not_swaps_singleton hCategory
  | swapped hSwaps => exact hSwaps.not_swaps_swapped

/-- A category and a group that are to change places do so. No group can be inferred in their
case, as there is one. -/
theorem Rearranged.eq_of_swaps (h : schema.Rearranged columns groups columns' groups')
    (hSwaps : schema.Swaps columns groups plotted grouped) :
    columns' = columns.filter (· != plotted) ++ [grouped] ∧
      groups' = groups.filter (· != grouped) ++ [plotted] := by
  cases h with
  | kept hStays => exact absurd hSwaps (hStays plotted grouped)
  | inferred hNone => exact absurd (hNone ▸ hSwaps) not_swaps_nil_right
  | swapped hOther =>
      obtain rfl := Option.some.inj (hSwaps.plottedAxis.symm.trans hOther.plottedAxis)
      obtain rfl := Option.some.inj (hSwaps.groupedAxis.symm.trans hOther.groupedAxis)
      exact ⟨rfl, rfl⟩

/-- An exchange is made on both sides or not at all. -/
theorem swapCategory_eq :
    schema.swapCategory s = s ∨ ∃ plotted grouped, schema.swapCategory s =
      swapMember (swapMember s "ColName" plotted grouped) "group_col" grouped plotted := by
  by_cases hSwaps : ∃ plotted grouped, schema.Swaps (schema.knownItems s "ColName")
      (schema.knownItems s "group_col") plotted grouped
  · obtain ⟨plotted, grouped, h⟩ := hSwaps
    exact .inr ⟨plotted, grouped, swapCategory_of_swaps h⟩
  · simp only [not_exists] at hSwaps
    exact .inl (swapCategory_of_not_swaps hSwaps)

/-- An exchange takes no key away. -/
theorem contains_swapCategory (h : s.contains key = true) :
    (schema.swapCategory s).contains key = true := by
  rcases schema.swapCategory_eq with hSame | ⟨plotted, grouped, hExchanged⟩
  · rwa [hSame]
  · rw [hExchanged]
    exact contains_insert_of_contains (contains_insert_of_contains h)

theorem get?_swapCategory_of_ne (hColumns : key ≠ "ColName") (hGroups : key ≠ "group_col") :
    (schema.swapCategory s).get? key = s.get? key := by
  rcases schema.swapCategory_eq with hSame | ⟨plotted, grouped, hExchanged⟩
  · rw [hSame]
  · rw [hExchanged]
    exact (get?_insert_of_ne hGroups).trans (get?_insert_of_ne hColumns)

/-- The mean is put in for a missing function. -/
theorem defaultOperation_of_lacksOperation (h : schema.LacksOperation kind s) :
    schema.defaultOperation kind s = s.insert "group_op" "mean" := by
  simp only [defaultOperation, h.plain, h.drawn, decide_false, Bool.or_self, Bool.false_eq_true,
    if_false]
  split
  · next column hColumn => rw [h.numeric column hColumn, if_neg Bool.false_ne_true]
  · rfl

theorem defaultOperation_of_not_lacksOperation (h : ¬schema.LacksOperation kind s) :
    schema.defaultOperation kind s = s := by
  rw [defaultOperation]
  split
  · rfl
  · next hAdds =>
    simp only [Bool.or_eq_true, decide_eq_true_eq, not_or, Bool.not_eq_true] at hAdds
    split
    · next column hColumn =>
      split
      · rfl
      · next hPlain =>
        refine absurd ⟨hAdds.1, hAdds.2, fun other hOther => ?_⟩ h
        rw [← Option.some.inj (hColumn.symm.trans hOther)]
        exact Bool.eq_false_iff.2 hPlain
    · next hNone =>
      refine absurd ⟨hAdds.1, hAdds.2, fun other hOther => ?_⟩ h
      rw [hNone] at hOther
      cases hOther

/-- After the last step no function is missing, so it has nothing to do a second time. -/
theorem not_lacksOperation_defaultOperation :
    ¬schema.LacksOperation kind (schema.defaultOperation kind s) := by
  by_cases hLacks : schema.LacksOperation kind s
  · rw [defaultOperation_of_lacksOperation hLacks]
    exact fun h => Bool.false_ne_true (h.plain.symm.trans contains_insert_self)
  · rwa [defaultOperation_of_not_lacksOperation hLacks]

theorem contains_defaultOperation (h : s.contains key = true) :
    (schema.defaultOperation kind s).contains key = true := by
  by_cases hLacks : schema.LacksOperation kind s
  · rw [defaultOperation_of_lacksOperation hLacks]
    exact contains_insert_of_contains h
  · rwa [defaultOperation_of_not_lacksOperation hLacks]

theorem get?_defaultOperation_of_ne (h : key ≠ "group_op") :
    (schema.defaultOperation kind s).get? key = s.get? key := by
  by_cases hLacks : schema.LacksOperation kind s
  · rw [defaultOperation_of_lacksOperation hLacks, get?_insert_of_ne h]
  · rw [defaultOperation_of_not_lacksOperation hLacks]

/-- After all three steps the grouping is in order. The later steps do not undo what the earlier
ones have done. -/
theorem resolved_resolveGrouping : schema.Resolved kind (schema.resolveGrouping kind s) where
  noGroup column := by
    rw [resolveGrouping]
    split
    · next hBoth =>
      -- Neither the exchange nor the default takes the groups away.
      rw [Bool.and_eq_true] at hBoth
      intro hImplies
      have hGroups := hImplies.ungrouped
      rw [contains_defaultOperation (contains_swapCategory hBoth.1)] at hGroups
      cases hGroups
    · exact not_impliesGroup_inferGroup
  noExchange _ _ := rearranged_resolveGrouping.not_swaps
  noOperation := by
    rw [resolveGrouping]
    split
    · exact fun _ _ => not_lacksOperation_defaultOperation
    · next hMissing =>
      intro hGroups hColumns
      rw [hGroups, hColumns] at hMissing
      exact absurd rfl hMissing

/-- The maps that stay as they are when their grouping is put in order are those where it is. So
being in order is the same as being left alone. -/
theorem resolveGrouping_eq_self_iff :
    schema.resolveGrouping kind s = s ↔ schema.Resolved kind s := by
  constructor
  · intro hSame
    exact hSame ▸ resolved_resolveGrouping
  · intro hResolved
    rw [resolveGrouping, inferGroup_of_not_impliesGroup hResolved.noGroup]
    split
    · next hBoth =>
      rw [Bool.and_eq_true] at hBoth
      rw [swapCategory_of_not_swaps hResolved.noExchange,
        defaultOperation_of_not_lacksOperation (hResolved.noOperation hBoth.1 hBoth.2)]
    · rfl

/-- Only three keys are ever touched. -/
theorem get?_resolveGrouping_of_not_mem (h : key ∉ ["ColName", "group_col", "group_op"]) :
    (schema.resolveGrouping kind s).get? key = s.get? key := by
  simp only [List.mem_cons, List.not_mem_nil, or_false, not_or] at h
  obtain ⟨hColumns, hGroups, hOperation⟩ := h
  rw [resolveGrouping]
  split
  · rw [get?_defaultOperation_of_ne hOperation, get?_swapCategory_of_ne hColumns hGroups,
      get?_inferGroup_of_ne hGroups]
  · exact get?_inferGroup_of_ne hGroups

/-- Putting a grouping in order a second time changes nothing. A plotted category and a group
without categories have changed places, and no such pair is there any more. Only the columns, the
groups and the aggregate function are touched. This holds for every map, also one that names
unknown columns or repeats some. -/
theorem resolveGrouping_idempotent (schema : Schema S) (kind : PlotKind) (s : Semantics) :
    let resolved := schema.resolveGrouping kind s
    schema.resolveGrouping kind resolved = resolved ∧
    (∀ plotted grouped,
      schema.Swaps (schema.knownItems s "ColName") (schema.knownItems s "group_col") plotted
          grouped →
        schema.knownItems resolved "ColName" =
            (schema.knownItems s "ColName").filter (· != plotted) ++ [grouped] ∧
          schema.knownItems resolved "group_col" =
            (schema.knownItems s "group_col").filter (· != grouped) ++ [plotted]) ∧
    (∀ plotted grouped, ¬schema.Swaps (schema.knownItems resolved "ColName")
      (schema.knownItems resolved "group_col") plotted grouped) ∧
    ∀ key ∉ ["ColName", "group_col", "group_op"], resolved.get? key = s.get? key := by
  intro resolved
  have hResolved : schema.Resolved kind resolved := resolved_resolveGrouping
  exact ⟨resolveGrouping_eq_self_iff.2 hResolved,
    fun _ _ hSwaps => rearranged_resolveGrouping.eq_of_swaps hSwaps, hResolved.noExchange,
    fun _ hKey => get?_resolveGrouping_of_not_mem hKey⟩

end Schema

namespace PlotRequest

/-- The cylinders and the weight change places once, each behind a name that the schema does not
know. -/
theorem resolveGrouping_idempotent_cylinderLines :
    let resolved := cylinderSchema.resolveGrouping .line cylinderLines
    cylinderSchema.Swaps (cylinderSchema.knownItems cylinderLines "ColName")
        (cylinderSchema.knownItems cylinderLines "group_col") "Cylinders" "Weight" ∧
      "type" ∉ ["ColName", "group_col", "group_op"] ∧
      resolved = Semantics.ofList [("type", "lineplot"), ("ColName", "Colour;Weight"),
        ("group_col", "Year;Cylinders"), ("group_op", "mean")] ∧
      cylinderSchema.resolveGrouping .line resolved = resolved ∧
      cylinderSchema.knownItems resolved "ColName" = ["Weight"] ∧
      cylinderSchema.knownItems resolved "group_col" = ["Cylinders"] ∧
      (∀ plotted grouped, ¬cylinderSchema.Swaps (cylinderSchema.knownItems resolved "ColName")
        (cylinderSchema.knownItems resolved "group_col") plotted grouped) ∧
      resolved.get? "type" = some "lineplot" := by
  intro resolved
  have hSwaps : cylinderSchema.Swaps (cylinderSchema.knownItems cylinderLines "ColName")
      (cylinderSchema.knownItems cylinderLines "group_col") "Cylinders" "Weight" :=
    ⟨by decide +kernel, by decide +kernel, by decide +kernel, by decide +kernel⟩
  have hOther : "type" ∉ ["ColName", "group_col", "group_op"] := by decide
  obtain ⟨hTwice, hExchanged, hNoMore, hKept⟩ :=
    Schema.resolveGrouping_idempotent cylinderSchema .line cylinderLines
  obtain ⟨hColumns, hGroups⟩ := hExchanged "Cylinders" "Weight" hSwaps
  refine ⟨hSwaps, hOther, by decide +kernel, hTwice, ?_, ?_, hNoMore, ?_⟩
  · rw [hColumns]
    decide +kernel
  · rw [hGroups]
    decide +kernel
  · rw [hKept "type" hOther]
    decide +kernel

end PlotRequest

end PlotQuery
