import PlotQuery.Proofs.ColumnCounts
import PlotQuery.Proofs.DistinctAxes

/-! Kinds of plot that no query has named. The kind is chosen by points, before it is known how many
of the columns the schema knows, so it can need a column more than there is. This happens for scatter
plots only. -/
namespace PlotQuery

namespace PlotKind

variable {S : Type} [Scalar S] {schema : Schema S} {s : Semantics} {keys : List String}
  {condition : Bool}

/-- A scatter plot has more points than a histogram and more than a line plot. -/
def PrefersScatter (schema : Schema S) (s : Semantics) : Prop :=
  histogramWeight s < scatterWeight schema s ∧ lineWeight schema s < scatterWeight schema s

instance (schema : Schema S) (s : Semantics) : Decidable (PrefersScatter schema s) :=
  inferInstanceAs (Decidable (_ ∧ _))

/-- Ties go to the other kinds. So a scatter plot needs more points than each of them. -/
theorem infer_eq_scatter_iff : infer schema s = .scatter ↔ PrefersScatter schema s := by
  unfold infer PrefersScatter
  dsimp only
  split
  · next hHistogram =>
    refine iff_of_false (by decide) fun hScatter => ?_
    omega
  · next hHistogram =>
    split
    · next hLine =>
      refine iff_of_false (by decide) fun hScatter => ?_
      omega
    · next hLine =>
      refine iff_of_true rfl ?_
      omega

/-- Points are given to three kinds of plot only. -/
theorem infer_cases (schema : Schema S) (s : Semantics) :
    infer schema s = .histogram ∨ infer schema s = .line ∨ infer schema s = .scatter := by
  unfold infer
  dsimp only
  split
  · exact .inl rfl
  · split
    · exact .inr (.inl rfl)
    · exact .inr (.inr rfl)

/-- The kind of a plot is inferred where none is named, there is no regression, and there is a
column. -/
theorem ofSemantics_eq_infer (hNamed : named? s = none) (hRegress : s.contains "regress" = false)
    (hColumns : s.contains "ColName" = true) : ofSemantics schema s = infer schema s := by
  rw [ofSemantics, hNamed]
  simp [hRegress, hColumns]

theorem oneIf_le_one (condition : Bool) : oneIf condition ≤ 1 := by
  cases condition <;> decide

theorem oneIf_eq_one_iff : oneIf condition = 1 ↔ condition = true := by
  cases condition <;> decide

theorem countKeys_nonneg (s : Semantics) (keys : List String) : 0 ≤ countKeys s keys :=
  Int.natCast_nonneg _

theorem countKeys_eq_zero_iff :
    countKeys s keys = 0 ↔ ∀ key ∈ keys, s.contains key = false := by
  rw [countKeys, Int.natCast_eq_zero, List.countP_eq_zero]
  simp

/-- Not all of the keys count just where one of them is missing. -/
theorem countKeys_lt_length_iff (s : Semantics) (keys : List String) :
    countKeys s keys < keys.length ↔ ∃ key ∈ keys, s.contains key = false := by
  rw [countKeys, Int.ofNat_lt, lt_iff_le_and_ne, and_iff_right List.countP_le_length, Ne,
    List.countP_eq_length]
  simp

/-- What a query has to say for a scatter plot where its columns and groups do not suit two axes:
all that counts for one, nothing that counts for a histogram, and not all that counts for a line
plot. What counts for a scatter plot are a category, markers and colours. -/
theorem prefersScatter_iff_of_not_suitsAxes (hSuits : suitsAxes s = false) :
    PrefersScatter schema s ↔
      (schema.categoryUnder s "ColName").isSome = true ∧
      (s.contains "marker" || s.contains "marker_col") = true ∧
      (s.contains "color" || s.contains "color_col") = true ∧
      (∀ key ∈ ["histobins", "histostack", "histolog", "histodens"], s.contains key = false) ∧
      ∃ key ∈ ["marker", "line", "color"], s.contains key = false := by
  have hHistogram : 0 ≤ histogramWeight s := countKeys_nonneg s _
  have hMarker := oneIf_le_one (s.contains "marker" || s.contains "marker_col")
  have hColor := oneIf_le_one (s.contains "color" || s.contains "color_col")
  have hCategory := oneIf_le_one (schema.categoryUnder s "ColName").isSome
  have hLine := countKeys_lt_length_iff s ["marker", "line", "color"]
  rw [← oneIf_eq_one_iff, ← oneIf_eq_one_iff, ← oneIf_eq_one_iff, ← countKeys_eq_zero_iff, ← hLine,
    ← histogramWeight, PrefersScatter, scatterWeight, lineWeight, hSuits]
  have hOther : oneIf (schema.categoryUnder s "ColName").isNone =
      1 - oneIf (schema.categoryUnder s "ColName").isSome := by
    cases schema.categoryUnder s "ColName" <;> rfl
  rw [hOther]
  simp only [Bool.false_eq_true, if_false, List.length_cons, List.length_nil]
  omega

end PlotKind

namespace Schema

variable {S : Type} {schema : Schema S} {s : Semantics} {column : String}

/-- A single column is known, and no other name can go in front of it: no group is known, or the first
one is the column itself. -/
def HasLoneColumn (schema : Schema S) (s : Semantics) : Prop :=
  ∃ column, schema.knownItems s "ColName" = [column] ∧
    (schema.knownItems s "group_col" = [] ∨
      (schema.knownItems s "group_col").head? = some column)

/-- There are known names only under a key that the map has. -/
theorem contains_of_knownItems_ne_nil {key : String} (h : schema.knownItems s key ≠ []) :
    s.contains key = true := by
  by_contra hNone
  exact h (knownItems_of_not_contains (Bool.not_eq_true _ ▸ hNone))

variable [Scalar S]

/-- A single column is the one under its key that holds categories, if it does. No other one
competes for the axis. -/
theorem isSome_categoryUnder_of_singleton (h : schema.knownItems s "ColName" = [column]) :
    (schema.categoryUnder s "ColName").isSome = schema.isCategoryLike column := by
  have hAxis : schema.xAxis [column] = some column := rfl
  rw [categoryUnder, h, hAxis, Option.filter_some]
  cases schema.isCategoryLike column <;> rfl

end Schema

namespace PlotRequest

variable {S : Type} [Scalar S] {schema : Schema S} {s : Semantics} {score : S} {reason : PlotError}

/-- Where a column is known, the inferred kind lacks some only if it is a scatter plot. The other
kinds do with one column. -/
theorem lacks_infer_iff (hKnown : schema.knownItems s "ColName" ≠ []) :
    (PlotKind.infer schema s).Lacks (schema.knownItems s "ColName")
        (schema.knownItems s "group_col") ↔
      PlotKind.PrefersScatter schema s ∧ schema.HasLoneColumn s := by
  rw [← PlotKind.infer_eq_scatter_iff]
  rcases PlotKind.infer_cases schema s with hKind | hKind | hKind
  · rw [hKind]
    exact iff_of_false hKnown fun hScatter => by cases hScatter.1
  · rw [hKind]
    exact iff_of_false hKnown fun hScatter => by cases hScatter.1
  · rw [hKind, and_iff_right rfl]
    exact or_iff_right hKnown

variable [ScalarText S]

/-- Where no kind is named and a column is known, there is a plot unless the points are for a scatter
plot of a lone column. The reason then says that one column of two is known. With columns and groups
that do not suit two axes, this takes a column that holds categories, something about markers and
about colours, and no option of histograms. -/
theorem ofSemantics_of_not_named (score : S) (hNamed : PlotKind.named? s = none)
    (hRegress : s.contains "regress" = false) (hKnown : schema.knownItems s "ColName" ≠ []) :
    (∀ reason, ofSemantics schema score s = .error reason ↔
      (PlotKind.PrefersScatter schema s ∧ schema.HasLoneColumn s) ∧
        reason = .missingColumns .scatter 2 1) ∧
    ((∃ request, ofSemantics schema score s = .ok request) ↔
      ¬(PlotKind.PrefersScatter schema s ∧ schema.HasLoneColumn s)) ∧
    (PlotKind.suitsAxes s = false → ∀ column, schema.knownItems s "ColName" = [column] →
      (PlotKind.PrefersScatter schema s ↔ schema.isCategoryLike column = true ∧
        (s.contains "marker" || s.contains "marker_col") = true ∧
        (s.contains "color" || s.contains "color_col") = true ∧
        (∀ key ∈ ["histobins", "histostack", "histolog", "histodens"], s.contains key = false) ∧
        ∃ key ∈ ["marker", "line", "color"], s.contains key = false)) := by
  have hKind : PlotKind.ofSemantics schema s = PlotKind.infer schema s :=
    PlotKind.ofSemantics_eq_infer hNamed hRegress (Schema.contains_of_knownItems_ne_nil hKnown)
  refine ⟨fun reason => ?_, ?_, fun hSuits column hColumn => ?_⟩
  · rw [ofSemantics_eq_error_iff_lacks, hKind, lacks_infer_iff hKnown]
    refine and_congr_right fun ⟨hScatter, column, hColumn, _⟩ => ?_
    rw [PlotKind.infer_eq_scatter_iff.2 hScatter, hColumn]
    rfl
  · rw [exists_ofSemantics_eq_ok_iff, hKind, lacks_infer_iff hKnown]
  · rw [PlotKind.prefersScatter_iff_of_not_suitsAxes hSuits,
      Schema.isSome_categoryUnder_of_singleton hColumn]

/-- The cylinders and a name that is not a column, by weight and in red. -/
def redCylinders : Semantics :=
  Semantics.ofList [("ColName", "Cylinders;Displacement"), ("group_col", "Weight"),
    ("color", "red")]

/-- The cylinders alone, with markers and colours by weight. -/
def markedCylinders : Semantics :=
  Semantics.ofList [("ColName", "Cylinders"), ("marker_col", "Weight"), ("color_col", "Weight")]

/-- Both times the points are for a scatter plot of which one column is known. The group of the first
map is the other one, and the second map has no group. -/
theorem ofSemantics_redCylinders :
    (PlotKind.named? redCylinders = none ∧ redCylinders.contains "regress" = false ∧
      cylinderSchema.knownItems redCylinders "ColName" = ["Cylinders"] ∧
      PlotKind.PrefersScatter cylinderSchema redCylinders ∧
      ∃ request, ofSemantics cylinderSchema 1 redCylinders = .ok request ∧ request.kind = .scatter ∧
        request.columns = ["Cylinders", "Weight"]) ∧
    (PlotKind.named? markedCylinders = none ∧ markedCylinders.contains "regress" = false ∧
      cylinderSchema.knownItems markedCylinders "ColName" = ["Cylinders"] ∧
      PlotKind.suitsAxes markedCylinders = false ∧
      ofSemantics cylinderSchema 1 markedCylinders = .error (.missingColumns .scatter 2 1)) := by
  constructor
  · have hNamed : PlotKind.named? redCylinders = none := by decide +kernel
    have hRegress : redCylinders.contains "regress" = false := by decide +kernel
    have hColumns : cylinderSchema.knownItems redCylinders "ColName" = ["Cylinders"] := by
      decide +kernel
    have hGroups : cylinderSchema.knownItems redCylinders "group_col" = ["Weight"] := by decide +kernel
    have hLone : ¬cylinderSchema.HasLoneColumn redCylinders := by
      rintro ⟨column, hColumn, hGroup⟩
      rw [hGroups] at hGroup
      cases hColumns.symm.trans hColumn
      exact absurd hGroup (by decide)
    have hKnown : cylinderSchema.knownItems redCylinders "ColName" ≠ [] := by simp [hColumns]
    obtain ⟨-, hPlot, -⟩ := ofSemantics_of_not_named 1 hNamed hRegress hKnown
    obtain ⟨request, hOk⟩ := hPlot.2 fun h => hLone h.2
    have hRun : (ofSemantics cylinderSchema 1 redCylinders).toOption.map
        (fun request => (request.kind, request.columns)) =
          some (.scatter, ["Cylinders", "Weight"]) := by decide +kernel
    rw [hOk] at hRun
    exact ⟨hNamed, hRegress, hColumns, by decide +kernel, request, hOk,
      Prod.mk.inj (Option.some.inj hRun)⟩
  · have hNamed : PlotKind.named? markedCylinders = none := by decide +kernel
    have hRegress : markedCylinders.contains "regress" = false := by decide +kernel
    have hColumns : cylinderSchema.knownItems markedCylinders "ColName" = ["Cylinders"] := by
      decide +kernel
    have hSuits : PlotKind.suitsAxes markedCylinders = false := by decide +kernel
    have hKnown : cylinderSchema.knownItems markedCylinders "ColName" ≠ [] := by simp [hColumns]
    obtain ⟨hError, -, hPoints⟩ := ofSemantics_of_not_named 1 hNamed hRegress hKnown
    have hScatter : PlotKind.PrefersScatter cylinderSchema markedCylinders :=
      (hPoints hSuits "Cylinders" hColumns).2 (by decide +kernel)
    have hNoGroup : cylinderSchema.knownItems markedCylinders "group_col" = [] := by decide +kernel
    exact ⟨hNamed, hRegress, hColumns, hSuits,
      (hError _).2 ⟨⟨hScatter, "Cylinders", hColumns, .inl hNoGroup⟩, rfl⟩⟩

/-- A map that names no kind, and a column that is known, for which there is no plot. It names
markers and colours, and the points are for a scatter plot. -/
theorem missing_column_of_markedCylinders :
    PlotKind.named? markedCylinders = none ∧ markedCylinders.contains "regress" = false ∧
      cylinderSchema.knownItems markedCylinders "ColName" = ["Cylinders"] ∧
      ¬∃ request, ofSemantics cylinderSchema 1 markedCylinders = .ok request := by
  refine ⟨by decide +kernel, by decide +kernel, by decide +kernel, ?_⟩
  rintro ⟨request, hOk⟩
  have hRun : (ofSemantics cylinderSchema 1 markedCylinders).toOption = none := by decide +kernel
  rw [hOk] at hRun
  cases hRun

end PlotRequest

end PlotQuery
