import PlotQuery.Proofs.GroupLayout

/-! When a map names too few columns. The columns of a plot are counted after groups have been inferred,
exchanged and put in front, yet whether there are enough follows from what the map names. -/
namespace PlotQuery

namespace PlotKind

/-- The columns and groups are too few for a plot. For two axes a single column has to have a first
group other than itself. -/
def Lacks (kind : PlotKind) (columns groups : List String) : Prop :=
  match kind with
  | .overview => False
  | .histogram | .line => columns = []
  | .scatter | .regression =>
    columns = [] ∨ ∃ column, columns = [column] ∧ (groups = [] ∨ groups.head? = some column)

variable {kind : PlotKind} {columns groups : List String}

/-- No kind of plot lacks columns where there are some, and where a lone one has a first group
other than it. -/
theorem not_lacks (hSome : columns ≠ [])
    (hSingle : ∀ column, columns = [column] → groups ≠ [] ∧ groups.head? ≠ some column) :
    ¬kind.Lacks columns groups := by
  have hAxes : ¬(columns = [] ∨
      ∃ column, columns = [column] ∧ (groups = [] ∨ groups.head? = some column)) := by
    rintro (hNone | ⟨column, hColumn, hGroups⟩)
    · exact hSome hNone
    · obtain ⟨hGroup, hOther⟩ := hSingle column hColumn
      exact hGroups.elim hGroup hOther
  cases kind with
  | overview => exact id
  | histogram | line => exact hSome
  | scatter | regression => exact hAxes

/-- A column and a first group other than it are enough for two axes. -/
theorem not_lacks_pair {first column : String} {more : List String} (hOther : first ≠ column) :
    ¬kind.Lacks [column] (first :: more) := by
  refine not_lacks (List.cons_ne_nil _ _) fun single hSingle => ⟨List.cons_ne_nil _ _, ?_⟩
  rw [← (List.cons.inj hSingle).1, List.head?_cons]
  exact fun hHead => hOther (Option.some.inj hHead)

/-- An overview needs no columns. So a map that asks for one is never turned down. -/
theorem Lacks.ne_overview (h : kind.Lacks columns groups) : kind ≠ .overview := by
  rintro rfl
  exact h

theorem requiredColumns_le_two (kind : PlotKind) : kind.requiredColumns ≤ 2 := by
  cases kind <;> decide

/-- Only a histogram and a line do with one column. -/
theorem requiredColumns_eq (h : kind ≠ .overview) :
    kind.requiredColumns = if kind = .histogram ∨ kind = .line then 1 else 2 := by
  cases kind with
  | overview => exact absurd rfl h
  | histogram | line | scatter | regression => rfl

end PlotKind

namespace Schema

variable {S : Type} [Scalar S] {schema : Schema S} {kind : PlotKind}
  {columns groups columns' groups' : List String} {plotted grouped : String}

/-- Columns without a group in front are enough for a plot, or the kind of plot lacks some. The
case that is left to the groups is a lone column. -/
theorem length_lt_iff_lacks (hStays : kind = .histogram ∨
      ∀ column, columns = [column] → groups = [] ∨ groups.head? = some column) :
    columns.length < kind.requiredColumns ↔ kind.Lacks columns groups := by
  have hAxes (hGroups : ∀ column, columns = [column] → groups = [] ∨ groups.head? = some column) :
      columns.length < 2 ↔ columns = [] ∨
        ∃ column, columns = [column] ∧ (groups = [] ∨ groups.head? = some column) := by
    cases columns with
    | nil => simp
    | cons column rest =>
        cases rest with
        | nil => exact iff_of_true Nat.one_lt_two (.inr ⟨column, rfl, hGroups column rfl⟩)
        | cons next rest => simp
  cases kind with
  | overview => exact iff_of_false (Nat.not_lt_zero _) id
  | histogram | line => exact Nat.lt_one_iff.trans List.length_eq_zero_iff
  | scatter | regression => exact hAxes (hStays.resolve_left (by decide))

/-- Putting a group in front gives the kind of plot enough columns unless it lacks some. -/
theorem length_groupInFront_lt_iff :
    (groupInFront kind columns groups).length < kind.requiredColumns ↔
      kind.Lacks columns groups := by
  rcases groupInFront_cases kind columns groups with
    ⟨first, more, column, rfl, rfl, hOther, hFront⟩ | ⟨hSame, hStays⟩
  · rw [hFront]
    exact iff_of_false (Nat.not_lt.2 kind.requiredColumns_le_two) (PlotKind.not_lacks_pair hOther)
  · rw [hSame]
    exact length_lt_iff_lacks hStays

/-- Columns that are too few have nothing put in front of them. So the reason for turning a map
down counts the columns that it names. -/
theorem groupInFront_of_lacks (h : kind.Lacks columns groups) :
    groupInFront kind columns groups = columns := by
  rcases groupInFront_cases kind columns groups with
    ⟨first, more, column, rfl, rfl, hOther, -⟩ | ⟨hSame, -⟩
  · exact absurd h (PlotKind.not_lacks_pair hOther)
  · exact hSame

namespace Swaps

/-- Columns and groups that exchange two members are enough for any kind of plot. A lone column has
a first group other than it, as the column that is given away is not among the groups. -/
theorem not_lacks (h : schema.Swaps columns groups plotted grouped) :
    ¬kind.Lacks columns groups := by
  refine PlotKind.not_lacks (List.ne_nil_of_mem h.plotted_mem) fun column hColumn => ?_
  have hPlotted : plotted = column := List.mem_singleton.1 (hColumn ▸ h.plotted_mem)
  refine ⟨List.ne_nil_of_mem h.grouped_mem, fun hHead => ?_⟩
  exact h.plotted_not_mem (hPlotted ▸ List.mem_of_mem_head? hHead)

/-- After the exchange the column that came from the groups is among them no longer. -/
theorem not_lacks_swapped (h : schema.Swaps columns groups plotted grouped) :
    ¬kind.Lacks (columns.filter (· != plotted) ++ [grouped])
      (groups.filter (· != grouped) ++ [plotted]) := by
  have hSome {names : List String} {name : String} : names ++ [name] ≠ [] :=
    List.append_ne_nil_of_right_ne_nil _ (List.cons_ne_nil _ _)
  refine PlotKind.not_lacks hSome fun column hColumn => ⟨hSome, fun hHead => ?_⟩
  have hGrouped : grouped = column := by
    have hMem : grouped ∈ [column] := hColumn ▸ List.mem_append_right _ List.mem_cons_self
    exact List.mem_singleton.1 hMem
  have hMem := List.mem_of_mem_head? hHead
  rw [← hGrouped] at hMem
  simp [h.ne] at hMem

end Swaps

namespace Rearranged

/-- Putting the grouping in order does not change whether there are too few columns. It may
therefore be asked before or after that step. -/
theorem lacks_iff (h : schema.Rearranged columns groups columns' groups') :
    kind.Lacks columns' groups' ↔ kind.Lacks columns groups := by
  cases h with
  | kept => exact Iff.rfl
  | @inferred column hNone hAxis hCategory =>
      -- The inferred group is one of the columns, so to a single column it adds nothing.
      have hColumn (single : String) (hSingle : columns = [single]) : column = single :=
        List.mem_singleton.1 (hSingle ▸ mem_of_xAxis_eq_some hAxis)
      cases kind with
      | overview | histogram | line => exact Iff.rfl
      | scatter | regression =>
          have hSingle : (∃ single, columns = [single] ∧
              ([column] = [] ∨ [column].head? = some single)) ↔
                ∃ single, columns = [single] ∧ (groups = [] ∨ groups.head? = some single) :=
            exists_congr fun single => and_congr_right fun hSingle =>
              iff_of_true (.inr (congrArg some (hColumn single hSingle))) (.inl hNone)
          exact or_congr_right hSingle
  | swapped hSwaps => exact iff_of_false hSwaps.not_lacks_swapped hSwaps.not_lacks

/-- Columns that are too few stay as they are, since nothing is exchanged among so few. Only the
groups may be inferred. -/
theorem columns_eq_of_lacks (h : schema.Rearranged columns groups columns' groups')
    (hLacks : kind.Lacks columns groups) : columns' = columns := by
  cases h with
  | kept => rfl
  | inferred => rfl
  | swapped hSwaps => exact absurd hLacks hSwaps.not_lacks

end Rearranged

end Schema

namespace PlotRequest

variable {S : Type} [Scalar S] [ScalarText S] {schema : Schema S} {s : Semantics} {score : S}
  {kind : PlotKind} {series : Bool} {reason : PlotError}

/-- The last step turns a map down just if the known names under the key for columns are too few
by then, and the reason counts them. -/
theorem ofLayout_eq_error_iff :
    ofLayout schema kind score series s = .error reason ↔
      (schema.knownItems s "ColName").length < kind.requiredColumns ∧
        reason = .missingColumns kind kind.requiredColumns
          (schema.knownItems s "ColName").length := by
  rw [ofLayout]
  split
  · next hFew => simp [hFew, throw, throwThe, MonadExceptOf.throw, eq_comm]
  · next hEnough => simp [hEnough, pure, Except.pure]

/-- A map asks for no plot just where it names too few columns, and the reason counts those. They
are the names in the map as it is given, before any step has changed it. -/
theorem ofSemantics_eq_error_iff_lacks :
    ofSemantics schema score s = .error reason ↔
      (PlotKind.ofSemantics schema s).Lacks (schema.knownItems s "ColName")
          (schema.knownItems s "group_col") ∧
        reason = .missingColumns (PlotKind.ofSemantics schema s)
          (PlotKind.ofSemantics schema s).requiredColumns
          (schema.knownItems s "ColName").length := by
  by_cases hKind : PlotKind.ofSemantics schema s = .overview
  · simp [ofSemantics_of_overview score hKind, hKind, PlotKind.Lacks]
  · obtain ⟨series, laidOut, columns, groups, hLayout, hRearranged, hColumns, -⟩ :=
      exists_laidOut_of_ofSemantics score hKind
    rw [hLayout, ofLayout_eq_error_iff, hColumns, Schema.length_groupInFront_lt_iff,
      hRearranged.lacks_iff]
    refine and_congr_right fun hLacks => ?_
    rw [Schema.groupInFront_of_lacks (hRearranged.lacks_iff.2 hLacks),
      hRearranged.columns_eq_of_lacks hLacks]

/-- A map asks for a plot unless its known columns and groups are too few for the kind of plot. -/
theorem exists_ofSemantics_eq_ok_iff :
    (∃ request, ofSemantics schema score s = .ok request) ↔
      ¬(PlotKind.ofSemantics schema s).Lacks (schema.knownItems s "ColName")
        (schema.knownItems s "group_col") := by
  cases hPlot : ofSemantics schema score s with
  | error reason =>
      obtain ⟨hLacks, -⟩ := ofSemantics_eq_error_iff_lacks.1 hPlot
      exact iff_of_false (fun ⟨_, hOk⟩ => nomatch hOk) (not_not_intro hLacks)
  | ok request =>
      refine iff_of_true ⟨request, rfl⟩ fun hLacks => ?_
      have hFails := hPlot.symm.trans (ofSemantics_eq_error_iff_lacks.2 ⟨hLacks, rfl⟩)
      cases hFails

/-- A map asks for a plot just where it names enough columns for the kind of plot. Where it names too
few, the reason says how many it names. -/
theorem ofSemantics_eq_error_iff :
    (ofSemantics schema score s = .error reason ↔
      (PlotKind.ofSemantics schema s).Lacks (schema.knownItems s "ColName")
          (schema.knownItems s "group_col") ∧
        reason = .missingColumns (PlotKind.ofSemantics schema s)
          (if PlotKind.ofSemantics schema s = .histogram ∨ PlotKind.ofSemantics schema s = .line
            then 1 else 2)
          (schema.knownItems s "ColName").length) ∧
    ((∃ request, ofSemantics schema score s = .ok request) ↔
      ¬(PlotKind.ofSemantics schema s).Lacks (schema.knownItems s "ColName")
        (schema.knownItems s "group_col")) := by
  refine ⟨?_, exists_ofSemantics_eq_ok_iff⟩
  rw [ofSemantics_eq_error_iff_lacks]
  refine and_congr_right fun hLacks => ?_
  rw [PlotKind.requiredColumns_eq hLacks.ne_overview]

end PlotRequest

end PlotQuery
