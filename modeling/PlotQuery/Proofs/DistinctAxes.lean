import PlotQuery.Proofs.GroupLayout

/-! Columns that are plotted once, and axes that take different ones. A plotted category that changes
places with a group brings that group among the columns. Where the group is plotted already, it is
plotted twice, and both axes may take it. -/
namespace PlotQuery

namespace Schema

variable {S : Type} [Scalar S] {schema : Schema S} {kind : PlotKind}
  {columns groups columns' groups' : List String} {plotted grouped : String}

/-- A group that changes places with a plotted category is plotted itself. -/
def SwapRepeats (schema : Schema S) (columns groups : List String) : Prop :=
  ∃ plotted grouped, schema.Swaps columns groups plotted grouped ∧ grouped ∈ columns

/-- An exchange repeats a column just if the name that comes from the groups is among the columns
already. -/
theorem Swaps.swapRepeats_iff (h : schema.Swaps columns groups plotted grouped) :
    schema.SwapRepeats columns groups ↔ grouped ∈ columns := by
  constructor
  · rintro ⟨plotted', grouped', hSwaps, hMem⟩
    obtain rfl := Option.some.inj (hSwaps.groupedAxis.symm.trans h.groupedAxis)
    exact hMem
  · exact fun hMem => ⟨plotted, grouped, h, hMem⟩

/-- The name that comes from the groups is put at the end, so it must not be among the columns
already. -/
theorem Swaps.nodup_iff (h : schema.Swaps columns groups plotted grouped)
    (hNodup : columns.Nodup) :
    (columns.filter (· != plotted) ++ [grouped]).Nodup ↔ grouped ∉ columns := by
  have hKept : grouped ∈ columns.filter (· != plotted) ↔ grouped ∈ columns := by
    simp [h.ne]
  rw [← hKept, List.nodup_append_comm, List.singleton_append, List.nodup_cons,
    and_iff_left (hNodup.filter _)]

/-- Putting the grouping in order repeats a column only in an exchange. All other steps leave the
columns as they are. -/
theorem Rearranged.nodup_iff (h : schema.Rearranged columns groups columns' groups')
    (hNodup : columns.Nodup) : columns'.Nodup ↔ ¬schema.SwapRepeats columns groups := by
  cases h with
  | kept hStays =>
      exact iff_of_true hNodup fun ⟨plotted, grouped, hSwaps, _⟩ => hStays plotted grouped hSwaps
  | inferred hNone =>
      refine iff_of_true hNodup fun ⟨plotted, grouped, hSwaps, _⟩ => ?_
      exact not_swaps_nil_right (hNone ▸ hSwaps)
  | swapped hSwaps => rw [hSwaps.nodup_iff hNodup, hSwaps.swapRepeats_iff]

/-- A group goes in front of a column other than it. So that step never repeats a column, whatever
the groups are. -/
theorem nodup_groupInFront_iff :
    (groupInFront kind columns groups).Nodup ↔ columns.Nodup := by
  rcases groupInFront_cases kind columns groups with
    ⟨first, more, column, -, rfl, hOther, hFront⟩ | ⟨hSame, -⟩
  · rw [hFront]
    simp [hOther]
  · rw [hSame]

end Schema

namespace PlotRequest

variable {S : Type} [Scalar S] {schema : Schema S} {s : Semantics} {kind : PlotKind}
  {columns : List String}

/-- Columns without repetition, and enough of them, have different ones on their axes. This rests
on the choice of the first column for one axis and of the last one for the other. -/
theorem ne_of_mem_axes (hNodup : columns.Nodup) (hEnough : kind.requiredColumns ≤ columns.length) :
    ∀ x ∈ (axes schema kind columns).1, ∀ y ∈ (axes schema kind columns).2, x ≠ y := by
  intro x hx y hy
  cases kind with
  | overview | histogram => cases hx
  | scatter | regression => exact Schema.xAxis_ne_yAxis hNodup hEnough hx hy
  | line =>
      rw [axes] at hx hy
      split at hx
      · next hMore =>
        rw [if_pos hMore] at hy
        exact Schema.xAxis_ne_yAxis hNodup hMore hx hy
      · cases hx

variable [ScalarText S] {request : PlotRequest S} {score : S} {series : Bool}

/-- A plot has the known columns of its map, enough of them for its kind, and their axes. -/
theorem columns_of_ofLayout (h : ofLayout schema kind score series s = .ok request) :
    request.kind = kind ∧ request.columns = schema.knownItems s "ColName" ∧
      kind.requiredColumns ≤ request.columns.length ∧
      request.x = (axes schema kind request.columns).1 ∧
      request.y = (axes schema kind request.columns).2 := by
  rw [ofLayout] at h
  split at h
  · cases h
  · next hEnough =>
    obtain rfl := Except.ok.inj h
    exact ⟨rfl, rfl, Nat.le_of_not_lt hEnough, rfl, rfl⟩

/-- A plot of columns that a map names once has each column once, unless a group that is plotted as
well changes places with a category. As long as no column is repeated, the axes take different
ones. -/
theorem nodup_columns_iff (hNodup : (schema.knownItems s "ColName").Nodup)
    (h : ofSemantics schema score s = .ok request) :
    (request.columns.Nodup ↔ request.kind = .overview ∨
      ¬schema.SwapRepeats (schema.knownItems s "ColName") (schema.knownItems s "group_col")) ∧
    (request.columns.Nodup → ∀ x ∈ request.x, ∀ y ∈ request.y, x ≠ y) := by
  by_cases hKind : PlotKind.ofSemantics schema s = .overview
  · obtain rfl := Except.ok.inj (h.symm.trans (ofSemantics_of_overview score hKind))
    exact ⟨iff_of_true List.nodup_nil (.inl rfl), fun _ x hx => by cases hx⟩
  · obtain ⟨series, laidOut, columns, groups, hLayout, hRearranged, hColumns, -⟩ :=
      exists_laidOut_of_ofSemantics score hKind
    obtain ⟨hRequest, hKnown, hEnough, hX, hY⟩ := columns_of_ofLayout (hLayout.symm.trans h)
    refine ⟨?_, fun hOnce => ?_⟩
    · rw [hKnown, hColumns, Schema.nodup_groupInFront_iff, hRearranged.nodup_iff hNodup, hRequest,
        or_iff_right hKind]
    · rw [hX, hY]
      exact ne_of_mem_axes hOnce hEnough

/-- Cars with the number of their cylinders, which is a category, and their weight. -/
def cylinderSchema : Schema ℚ :=
  ⟨"cars", ["Cylinders", "Weight"], [], [⟨"category", none⟩, ⟨"float64", none⟩]⟩

def cylindersByWeight : Semantics :=
  Semantics.ofList [("type", "scatter"), ("ColName", "Cylinders"), ("group_col", "Weight")]

def bothByWeight : Semantics :=
  Semantics.ofList [("type", "scatter"), ("ColName", "Cylinders;Weight"), ("group_col", "Weight")]

/-- The cylinders change places with the weight and come back in front of it. -/
theorem nodup_columns_cylindersByWeight :
    (cylinderSchema.knownItems cylindersByWeight "ColName").Nodup ∧
      ¬cylinderSchema.SwapRepeats (cylinderSchema.knownItems cylindersByWeight "ColName")
        (cylinderSchema.knownItems cylindersByWeight "group_col") ∧
      ∃ request, ofSemantics cylinderSchema 1 cylindersByWeight = .ok request ∧
        request.columns = ["Cylinders", "Weight"] ∧
        ∀ x ∈ request.x, ∀ y ∈ request.y, x ≠ y := by
  have hNodup : (cylinderSchema.knownItems cylindersByWeight "ColName").Nodup := by decide +kernel
  have hRun : (ofSemantics cylinderSchema 1 cylindersByWeight).toOption.map
      (fun request => (request.kind, request.columns)) =
        some (.scatter, ["Cylinders", "Weight"]) := by decide +kernel
  obtain ⟨request, hSome, hRequest⟩ := Option.map_eq_some_iff.1 hRun
  obtain ⟨hKind, hColumns⟩ := Prod.mk.inj hRequest
  have hOk := PlotGrammar.eq_ok_of_toOption hSome
  have hOnce : request.columns.Nodup := by
    rw [hColumns]
    decide
  obtain ⟨hRepeats, hAxes⟩ := nodup_columns_iff hNodup hOk
  exact ⟨hNodup, (hRepeats.1 hOnce).resolve_left (by simp [hKind]), request, hOk, hColumns,
    hAxes hOnce⟩

/-- The weight takes the place of the cylinders next to itself, and both axes. The map names each
column and each group once. -/
theorem axes_repeat_group :
    bothByWeight.items? "ColName" = some ["Cylinders", "Weight"] ∧
      bothByWeight.items? "group_col" = some ["Weight"] ∧
      ∃ request, ofSemantics cylinderSchema 1 bothByWeight = .ok request ∧
        request.columns = ["Weight", "Weight"] ∧ request.x = some "Weight" ∧
        request.y = some "Weight" := by
  have hRun : (ofSemantics cylinderSchema 1 bothByWeight).toOption.map
      (fun request => (request.columns, request.x, request.y)) =
        some (["Weight", "Weight"], some "Weight", some "Weight") := by decide +kernel
  obtain ⟨request, hSome, hRequest⟩ := Option.map_eq_some_iff.1 hRun
  simp only [Prod.mk.injEq] at hRequest
  exact ⟨by decide +kernel, by decide +kernel, request, PlotGrammar.eq_ok_of_toOption hSome, hRequest⟩

end PlotRequest

end PlotQuery
