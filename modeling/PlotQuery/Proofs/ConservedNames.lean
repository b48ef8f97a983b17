import PlotQuery.Proofs.DistinctAxes

/-! What becomes of the names in a map when it is made a plot. Grouping moves names between columns
and groups, and none of them is lost or made up on the way. -/
namespace PlotQuery

namespace Schema

variable {S : Type} [Scalar S] {schema : Schema S} {kind : PlotKind}
  {columns groups columns' groups' : List String} {plotted grouped name x y : String}
  {place place' : Nat}

/-- Columns and groups that exchange two members have the same names together as before. Each of
the two names only changes sides. -/
theorem Swaps.mem_or_mem_iff (h : schema.Swaps columns groups plotted grouped) :
    name ∈ columns.filter (· != plotted) ++ [grouped] ∨
        name ∈ groups.filter (· != grouped) ++ [plotted] ↔
      name ∈ columns ∨ name ∈ groups := by
  have hPlotted := h.plotted_mem
  have hGrouped := h.grouped_mem
  simp only [List.mem_append, List.mem_filter, List.mem_singleton, bne_iff_ne]
  constructor
  · rintro ((⟨hName, -⟩ | rfl) | ⟨hName, -⟩ | rfl)
    · exact .inl hName
    · exact .inr hGrouped
    · exact .inr hName
    · exact .inl hPlotted
  · rintro (hName | hName)
    · by_cases hEq : name = plotted
      · exact .inr (.inr hEq)
      · exact .inl (.inl ⟨hName, hEq⟩)
    · by_cases hEq : name = grouped
      · exact .inl (.inr hEq)
      · exact .inr (.inl ⟨hName, hEq⟩)

/-- Putting the grouping in order neither loses nor invents a name. Either nothing is done or two
names change sides. -/
theorem Rearranged.mem_or_mem_iff (h : schema.Rearranged columns groups columns' groups') :
    name ∈ columns' ∨ name ∈ groups' ↔ name ∈ columns ∨ name ∈ groups := by
  cases h with
  | kept => exact Iff.rfl
  | @inferred column hNone hAxis =>
      -- The inferred group is a column already, and there was no other group.
      have hMem := mem_of_xAxis_eq_some hAxis
      rw [hNone, List.mem_singleton]
      constructor
      · rintro (hName | rfl)
        · exact .inl hName
        · exact .inl hMem
      · exact Or.imp_right fun hName => absurd hName List.not_mem_nil
  | swapped hSwaps => exact hSwaps.mem_or_mem_iff

/-- What goes in front of the columns is a group. So no name is added to the columns and groups
together. -/
theorem mem_groupInFront_or_mem_iff :
    name ∈ groupInFront kind columns groups ∨ name ∈ groups ↔ name ∈ columns ∨ name ∈ groups := by
  rcases groupInFront_cases kind columns groups with
    ⟨first, more, column, rfl, rfl, -, hFront⟩ | ⟨hSame, -⟩
  · rw [hFront]
    simp only [List.mem_cons, List.not_mem_nil, or_false]
    tauto
  · rw [hSame]

/-- The name stands at the place, no column has a greater weight, and those before it have smaller
ones. -/
structure StandsFirst (schema : Schema S) (columns : List String) (place : Nat) (name : String) :
    Prop where
  at_place : columns[place]? = some name
  greatest : ∀ column ∈ columns, schema.axisWeight column ≤ schema.axisWeight name
  first : ∀ column ∈ columns.take place, schema.axisWeight column < schema.axisWeight name

/-- The name stands at the place, no column has a smaller weight, and those behind it have greater
ones. -/
structure StandsLast (schema : Schema S) (columns : List String) (place : Nat) (name : String) :
    Prop where
  at_place : columns[place]? = some name
  least : ∀ column ∈ columns, schema.axisWeight name ≤ schema.axisWeight column
  last : ∀ column ∈ columns.drop (place + 1), schema.axisWeight name < schema.axisWeight column

/-- The column on the horizontal axis has a place: the first one of its weight. -/
theorem exists_standsFirst (h : schema.xAxis columns = some x) :
    ∃ place, schema.StandsFirst columns place x := by
  obtain ⟨before, after, rfl, hBefore, -⟩ := exists_split_of_xAxis h
  refine ⟨before.length, ?_, fun column hColumn => axisWeight_le_of_xAxis h hColumn, ?_⟩
  · rw [List.getElem?_append_right le_rfl, Nat.sub_self, List.getElem?_cons_zero]
  · rwa [List.take_left]

/-- The column on the vertical axis has a place: the last one of its weight. -/
theorem exists_standsLast (h : schema.yAxis columns = some y) :
    ∃ place, schema.StandsLast columns place y := by
  obtain ⟨before, after, rfl, hBefore, hAfter⟩ := exists_split_of_yAxis h
  refine ⟨before.length, ?_, fun column hColumn => ?_, ?_⟩
  · rw [List.getElem?_append_right le_rfl, Nat.sub_self, List.getElem?_cons_zero]
  · rcases List.mem_append.1 hColumn with hColumn | hColumn
    · exact hBefore column hColumn
    · rcases List.mem_cons.1 hColumn with rfl | hColumn
      · exact le_rfl
      · exact (hAfter column hColumn).le
  · rwa [List.drop_length_add_append, List.drop_one, List.tail_cons]

/-- Of several columns the axes take different places, also where the names there are the same: a
place with the greatest and the least weight has no other place before or behind it. -/
theorem StandsFirst.ne_of_standsLast (hX : schema.StandsFirst columns place x)
    (hY : schema.StandsLast columns place' y) (hMore : 1 < columns.length) : place ≠ place' := by
  rintro rfl
  obtain rfl := Option.some.inj (hX.at_place.symm.trans hY.at_place)
  have hBefore : columns.take place = [] := List.eq_nil_iff_forall_not_mem.2 fun column hColumn =>
    Nat.not_lt_of_le (hY.least column (List.mem_of_mem_take hColumn)) (hX.first column hColumn)
  have hBehind : columns.drop (place + 1) = [] :=
    List.eq_nil_iff_forall_not_mem.2 fun column hColumn =>
      Nat.not_lt_of_le (hX.greatest column (List.mem_of_mem_drop hColumn)) (hY.last column hColumn)
  rw [List.take_eq_nil_iff] at hBefore
  rw [List.drop_eq_nil_iff] at hBehind
  rcases hBefore with rfl | rfl
  · omega
  · simp at hMore

theorem xAxis_eq_none_iff : schema.xAxis columns = none ↔ columns = [] :=
  foldl_choose_eq_none_iff
    (fun kept column => schema.axisWeight kept < schema.axisWeight column)
    (fun _ => rfl) (fun _ _ => rfl)

theorem yAxis_eq_none_iff : schema.yAxis columns = none ↔ columns = [] :=
  foldl_choose_eq_none_iff
    (fun kept column => schema.axisWeight column ≤ schema.axisWeight kept)
    (fun _ => rfl) (fun _ _ => rfl)

end Schema

namespace PlotRequest

variable {S : Type} [Scalar S] {schema : Schema S} {s : Semantics} {kind : PlotKind}
  {columns : List String} {x y : String}

theorem xAxis_of_axes (h : (axes schema kind columns).1 = some x) :
    schema.xAxis columns = some x := by
  cases kind <;> grind [axes]

theorem yAxis_of_axes (h : (axes schema kind columns).2 = some y) :
    schema.yAxis columns = some y := by
  cases kind <;> grind [axes]

/-- A plot with enough columns has a vertical axis unless it is a histogram, and a horizontal axis
as well if it has several columns. A histogram has neither, however many columns it has. -/
theorem isSome_axes (schema : Schema S) (hKind : kind ≠ .overview)
    (hEnough : kind.requiredColumns ≤ columns.length) :
    ((axes schema kind columns).1.isSome = true ↔ kind ≠ .histogram ∧ 1 < columns.length) ∧
      ((axes schema kind columns).2.isSome = true ↔ kind ≠ .histogram) := by
  have hSome (hColumns : columns ≠ []) :
      (schema.xAxis columns).isSome = true ∧ (schema.yAxis columns).isSome = true := by
    rw [Option.isSome_iff_ne_none, Option.isSome_iff_ne_none, Ne, Ne, Schema.xAxis_eq_none_iff,
      Schema.yAxis_eq_none_iff]
    exact ⟨hColumns, hColumns⟩
  have hColumns (hPositive : 1 ≤ columns.length) : columns ≠ [] := List.length_pos_iff.1 hPositive
  cases kind with
  | overview => exact absurd rfl hKind
  | histogram => simp [axes]
  | scatter | regression =>
      have hTwo : 1 < columns.length := hEnough
      have hBoth := hSome (hColumns hTwo.le)
      simp [axes, hBoth, hTwo]
  | line =>
      have hBoth := hSome (hColumns hEnough)
      rw [axes]
      split
      · next hTwo => simp [hBoth, hTwo]
      · next hOne => simp [hBoth, hOne]

variable [ScalarText S] {request : PlotRequest S} {score : S} {series : Bool}

/-- The groups of a plot are the names under the key for groups, when there are any. -/
theorem group_of_ofLayout (h : ofLayout schema kind score series s = .ok request) :
    request.group.map Grouping.columns = s.items? "group_col" := by
  rw [ofLayout] at h
  split at h
  · cases h
  · obtain rfl := Except.ok.inj h
    rw [Option.map_map]
    exact Option.map_id'

/-- The known names of the groups of a plot are those under the key for groups. Unknown names may
stand there as well and are passed over. -/
theorem exists_group_iff_mem_knownItems (h : ofLayout schema kind score series s = .ok request)
    {name : String} :
    (∃ group ∈ request.group, name ∈ group.columns ∧ schema.isKnown name = true) ↔
      name ∈ schema.knownItems s "group_col" := by
  rw [Schema.knownItems, ← group_of_ofLayout h, List.mem_filter]
  cases request.group <;> simp

/-- A plot other than an overview has the known names of its map as columns or as groups, each of
them and no others, and only known columns. Its horizontal axis is the first column with the greatest
weight and its vertical axis the last one with the least weight, at different places if there are
several columns. -/
theorem conserves_names (h : ofSemantics schema score s = .ok request)
    (hKind : request.kind ≠ .overview) :
    (∀ name, (name ∈ request.columns ∨
        ∃ group ∈ request.group, name ∈ group.columns ∧ schema.isKnown name = true) ↔
      name ∈ schema.knownItems s "ColName" ∨ name ∈ schema.knownItems s "group_col") ∧
    (∀ name ∈ request.columns, schema.isKnown name = true) ∧
    (request.x.isSome = true ↔ request.kind ≠ .histogram ∧ 1 < request.columns.length) ∧
    (request.y.isSome = true ↔ request.kind ≠ .histogram) ∧
    (∀ x ∈ request.x, ∃ place, schema.StandsFirst request.columns place x) ∧
    (∀ y ∈ request.y, ∃ place, schema.StandsLast request.columns place y) ∧
    (1 < request.columns.length → ∀ x ∈ request.x, ∀ y ∈ request.y, ∀ place place',
      schema.StandsFirst request.columns place x → schema.StandsLast request.columns place' y →
        place ≠ place') := by
  have hOther : PlotKind.ofSemantics schema s ≠ .overview := fun hOverview => by
    obtain rfl := Except.ok.inj (h.symm.trans (ofSemantics_of_overview score hOverview))
    exact hKind rfl
  obtain ⟨series, laidOut, columns, groups, hLayout, hRearranged, hColumns, hGroups⟩ :=
    exists_laidOut_of_ofSemantics score hOther
  have hOk := hLayout.symm.trans h
  obtain ⟨hRequest, hKnown, hEnough, hX, hY⟩ := columns_of_ofLayout hOk
  rw [← hRequest] at hColumns hEnough hX hY
  obtain ⟨hSomeX, hSomeY⟩ := isSome_axes schema hKind hEnough
  refine ⟨fun name => ?_, fun name hName => ?_, hX ▸ hSomeX, hY ▸ hSomeY, fun x hMem => ?_,
    fun y hMem => ?_, fun hMore x _ y _ place place' hFirst hLast => ?_⟩
  · rw [exists_group_iff_mem_knownItems hOk, hKnown, hColumns, hGroups,
      Schema.mem_groupInFront_or_mem_iff, hRearranged.mem_or_mem_iff]
  · rw [hKnown] at hName
    exact Schema.isKnown_of_mem_knownItems hName
  · exact Schema.exists_standsFirst (xAxis_of_axes (hX ▸ hMem))
  · exact Schema.exists_standsLast (yAxis_of_axes (hY ▸ hMem))
  · exact hFirst.ne_of_standsLast hLast hMore

/-- Lines of the cylinders by weight. The schema knows neither the colour nor the year. -/
def cylinderLines : Semantics :=
  Semantics.ofList
    [("type", "lineplot"), ("ColName", "Cylinders;Colour"), ("group_col", "Weight;Year")]

/-- The cylinders change places with the weight and come back in front of it, so they are a column and
a group. -/
theorem conserves_names_cylinderLines :
    ∃ request, ofSemantics cylinderSchema 1 cylinderLines = .ok request ∧ request.kind ≠ .overview ∧
      request.columns = ["Cylinders", "Weight"] ∧
      request.group.map Grouping.columns = some ["Year", "Cylinders"] ∧
      request.x = some "Cylinders" ∧ request.y = some "Weight" ∧
      (∀ name, (name ∈ request.columns ∨
          ∃ group ∈ request.group, name ∈ group.columns ∧ cylinderSchema.isKnown name = true) ↔
        name = "Cylinders" ∨ name = "Weight") ∧
      ∀ place place', cylinderSchema.StandsFirst request.columns place "Cylinders" →
        cylinderSchema.StandsLast request.columns place' "Weight" → place ≠ place' := by
  have hRun : (ofSemantics cylinderSchema 1 cylinderLines).toOption.map (fun request =>
      (request.kind, request.columns, request.group.map Grouping.columns, request.x, request.y)) =
        some (.line, ["Cylinders", "Weight"], some ["Year", "Cylinders"], some "Cylinders",
          some "Weight") := by decide +kernel
  obtain ⟨request, hSome, hRequest⟩ := Option.map_eq_some_iff.1 hRun
  simp only [Prod.mk.injEq] at hRequest
  obtain ⟨hKind, hColumns, hGroup, hX, hY⟩ := hRequest
  have hOk := PlotGrammar.eq_ok_of_toOption hSome
  have hOther : request.kind ≠ .overview := by rw [hKind]; decide
  obtain ⟨hNames, -, -, -, -, -, hPlaces⟩ := conserves_names hOk hOther
  have hKnown : cylinderSchema.knownItems cylinderLines "ColName" = ["Cylinders"] ∧
      cylinderSchema.knownItems cylinderLines "group_col" = ["Weight"] := by decide +kernel
  refine ⟨request, hOk, hOther, hColumns, hGroup, hX, hY, fun name => ?_, ?_⟩
  · rw [hNames, hKnown.1, hKnown.2, List.mem_singleton, List.mem_singleton]
  · exact hPlaces (by rw [hColumns]; decide) "Cylinders" hX "Weight" hY

end PlotRequest

end PlotQuery
