import PlotQuery.Proofs.CellTable
import PlotQuery.Proofs.NumberTexts
import PlotQuery.Proofs.PlotTrees

/-! Plots name nothing but what the schema knows. Groups, conditions, markers and colours are not
looked up when a parse is interpreted, so this rests on the productions, which take them from names
that have been matched, and on the grouping, which puts names of the schema in their place. -/
namespace PlotQuery

/-- The names of columns in a plot: those on the axes, groups, conditions, markers and colours. -/
def PlotRequest.names {S : Type} (request : PlotRequest S) : List String :=
  request.columns ++ request.x.toList ++ request.y.toList ++
    (request.group.map Grouping.columns).getD [] ++ request.filters.map RowFilter.column ++
    request.markerColumn.toList ++ request.colorColumn.toList

namespace Schema

variable {S : Type}

/-- Every name of the schema is the only item of itself: it has no separator and no blank at either
end. -/
def HasPlainNames (schema : Schema S) : Prop :=
  ∀ name ∈ schema.candidateNames, listSeparator ∉ name.toList ∧ Text.trimmed name = name

instance (schema : Schema S) : Decidable schema.HasPlainNames :=
  inferInstanceAs (Decidable (∀ name ∈ schema.candidateNames,
    listSeparator ∉ name.toList ∧ Text.trimmed name = name))

def singleNameKeys : List String :=
  ["filter_col", "marker_col", "color_col"]

def ListsNames (schema : Schema S) (value : String) : Prop :=
  ∀ name ∈ Text.items listSeparator value, name ∈ schema.candidateNames

/-- The groups of a map and the columns of its conditions, markers and colours are names of the
schema. -/
structure Covers (schema : Schema S) (s : Semantics) : Prop where
  groups : ∀ value ∈ s.get? "group_col", schema.ListsNames value
  single : ∀ key ∈ singleNameKeys, ∀ value ∈ s.get? key, value ∈ schema.candidateNames

variable {schema : Schema S}

/-- The known names are the columns and the loose names of the schema. -/
theorem isKnown_iff {name : String} :
    schema.isKnown name = true ↔ name ∈ schema.candidateNames := by
  simp [isKnown, columnIndex?, candidateNames]

theorem mem_candidateNames_of_mem_knownItems {s : Semantics} {key name : String}
    (h : name ∈ schema.knownItems s key) : name ∈ schema.candidateNames :=
  isKnown_iff.1 (List.mem_filter.1 h).2

/-- A plain name lists itself alone, having neither a separator nor blanks at its ends. -/
theorem HasPlainNames.listsNames (hNames : schema.HasPlainNames) {name : String}
    (h : name ∈ schema.candidateNames) : schema.ListsNames name := by
  obtain ⟨hSeparator, hTrim⟩ := hNames name h
  intro item hItem
  rw [Text.items_subset_singleton hSeparator hTrim item hItem]
  exact h

/-- Plain names that are joined list known names only. -/
theorem HasPlainNames.listsNames_join (hNames : schema.HasPlainNames) {names : List String}
    (h : ∀ name ∈ names, name ∈ schema.candidateNames) :
    schema.ListsNames (Text.join (String.singleton listSeparator) names) := by
  intro item hItem
  rw [Text.items_join, List.mem_flatMap] at hItem
  obtain ⟨name, hName, hItem⟩ := hItem
  exact hNames.listsNames (h name hName) item hItem

namespace Covers

variable {s : Semantics} {key value : String}

/-- A value under a key that holds no names may be anything. -/
theorem insert_other (h : schema.Covers s) (hKey : key ≠ "group_col")
    (hSingle : key ∉ singleNameKeys) :
    schema.Covers (s.insert key value) where
  groups := by
    rw [Semantics.get?_insert, if_neg hKey.symm]
    exact h.groups
  single k hk := by
    have hOther : k ≠ key := fun hEq => hSingle (hEq ▸ hk)
    rw [Semantics.get?_insert, if_neg hOther]
    exact h.single k hk

/-- Known names may be put in as groups. -/
theorem insert_groups (h : schema.Covers s) (hValue : schema.ListsNames value) :
    schema.Covers (s.insert "group_col" value) where
  groups := by
    rw [Semantics.get?_insert, if_pos rfl]
    rintro _ ⟨⟩
    exact hValue
  single k hk := by
    have hOther : k ≠ "group_col" := by
      rintro rfl
      exact absurd hk (by decide)
    rw [Semantics.get?_insert, if_neg hOther]
    exact h.single k hk

theorem mem_of_mem_items? (h : schema.Covers s) {names : List String}
    (hNames : names ∈ s.items? "group_col") : ∀ name ∈ names, name ∈ schema.candidateNames := by
  obtain ⟨value, hValue, rfl⟩ := Option.map_eq_some_iff.1 hNames
  exact h.groups value hValue

/-- An exchange of a name for a known one leaves known names only. -/
theorem swapMember (h : schema.Covers s) (hNames : schema.HasPlainNames) {removed added : String}
    (hAdded : added ∈ schema.candidateNames) (hKey : key ∉ singleNameKeys) :
    schema.Covers (swapMember s key removed added) := by
  rw [Schema.swapMember]
  by_cases hGroups : key = "group_col"
  · subst hGroups
    refine h.insert_groups (hNames.listsNames_join fun name hName => ?_)
    rcases List.mem_append.1 hName with hKept | hName
    · cases hItems : s.items? "group_col" with
      | none => simp [hItems] at hKept
      | some names =>
          rw [hItems, Option.getD_some] at hKept
          exact h.mem_of_mem_items? hItems name (List.mem_filter.1 hKept).1
    · rw [List.mem_singleton.1 hName]
      exact hAdded
  · exact h.insert_other hGroups hKey

end Covers

variable [Scalar S]

theorem mem_of_xAxis_eq_some {columns : List String} {column : String}
    (h : schema.xAxis columns = some column) : column ∈ columns := by
  refine (mem_or_eq_of_foldl_choice (fun best name chosen h => ?_) h).resolve_right (by simp)
  cases best <;> grind [betterX]

theorem mem_of_yAxis_eq_some {columns : List String} {column : String}
    (h : schema.yAxis columns = some column) : column ∈ columns := by
  refine (mem_or_eq_of_foldl_choice (fun best name chosen h => ?_) h).resolve_right (by simp)
  cases best <;> grind [betterY]

theorem mem_candidateNames_of_xAxis {s : Semantics} {key column : String}
    (h : schema.xAxis (schema.knownItems s key) = some column) : column ∈ schema.candidateNames :=
  mem_candidateNames_of_mem_knownItems (mem_of_xAxis_eq_some h)

namespace Covers

variable {s : Semantics} {kind : PlotKind}

/-- An inferred group is a column, and so a known name. -/
theorem inferGroup (h : schema.Covers s) (hNames : schema.HasPlainNames) :
    schema.Covers (schema.inferGroup kind s) := by
  rw [Schema.inferGroup]
  split
  · split
    · next column hColumn =>
      have hAxis := (Option.filter_eq_some_iff.1 hColumn).1
      exact h.insert_groups (hNames.listsNames (mem_candidateNames_of_xAxis hAxis))
    · exact h
  · exact h

/-- The two names that change places are known on either side. -/
theorem swapCategory (h : schema.Covers s) (hNames : schema.HasPlainNames) :
    schema.Covers (schema.swapCategory s) := by
  rw [Schema.swapCategory]
  split
  · next plotted grouped hPlotted hGrouped =>
    split
    · have hColumns : schema.Covers (Schema.swapMember s "ColName" plotted grouped) :=
        h.swapMember hNames (mem_candidateNames_of_xAxis hGrouped) (by decide)
      exact hColumns.swapMember hNames (mem_candidateNames_of_xAxis hPlotted) (by decide)
    · exact h
  · exact h

theorem defaultOperation (h : schema.Covers s) :
    schema.Covers (schema.defaultOperation kind s) := by
  have hMean : schema.Covers (s.insert "group_op" "mean") :=
    h.insert_other (by decide) (by decide)
  rw [Schema.defaultOperation]
  split
  · exact h
  · split
    · split
      · exact h
      · exact hMean
    · exact hMean

/-- Putting the grouping in order brings in no name that the schema does not know. Each of its
three steps keeps this. -/
theorem resolveGrouping (h : schema.Covers s) (hNames : schema.HasPlainNames) :
    schema.Covers (schema.resolveGrouping kind s) := by
  rw [Schema.resolveGrouping]
  split
  · exact ((h.inferGroup hNames).swapCategory hNames).defaultOperation
  · exact h.inferGroup hNames

theorem layoutGroups (h : schema.Covers s) : schema.Covers (schema.layoutGroups kind s).2 := by
  have hColumns (value : String) : schema.Covers (s.insert "ColName" value) :=
    h.insert_other (by decide) (by decide)
  rw [Schema.layoutGroups]
  split
  · exact h
  · split
    · exact h
    · split
      · exact h
      · -- Only the columns to plot are written anew, and those are looked up in the schema.
        dsimp only
        split
        · exact hColumns _
        · exact h

end Covers

end Schema

namespace PlotRequest

variable {S : Type} [Scalar S] {schema : Schema S} {s : Semantics}

/-- The columns on the axes are among those of the plot. -/
theorem mem_of_mem_axes {kind : PlotKind} {columns : List String} {name : String}
    (h : (axes schema kind columns).1 = some name ∨ (axes schema kind columns).2 = some name) :
    name ∈ columns := by
  have hAxes : schema.xAxis columns = some name ∨ schema.yAxis columns = some name := by
    cases kind <;> grind [axes]
  exact hAxes.elim Schema.mem_of_xAxis_eq_some Schema.mem_of_yAxis_eq_some

/-- All conditions are on the one column of the map. -/
theorem column_of_mem_filters {filter : RowFilter} (h : filter ∈ RowFilter.ofSemantics s) :
    s.get? "filter_col" = some filter.column := by
  rw [RowFilter.ofSemantics] at h
  split at h
  · next column ops values hColumn hOps hValues =>
    rw [← List.map_uncurry_zip_eq_zipWith] at h
    obtain ⟨pair, -, rfl⟩ := List.mem_map.1 h
    exact hColumn
  · cases h

variable [ScalarText S] {request : PlotRequest S} {score : S}

/-- A plot laid out from a map that the schema covers has no name but those of the schema. Columns
are looked up in the schema once more, and all other names are covered. -/
theorem names_of_ofLayout {kind : PlotKind} {series : Bool} (hCovers : schema.Covers s)
    (h : ofLayout schema kind score series s = .ok request) :
    ∀ name ∈ request.names, name ∈ schema.candidateNames := by
  rw [ofLayout] at h
  split at h
  · cases h
  obtain rfl := Except.ok.inj h
  have hColumns (name : String) (hName : name ∈ schema.knownItems s "ColName") :=
    Schema.mem_candidateNames_of_mem_knownItems hName
  intro name hName
  simp only [names, List.mem_append, Option.mem_toList] at hName
  rcases hName with (((((hName | hAxis) | hAxis) | hGroup) | hFilter) | hMarker) | hColor
  · exact hColumns name hName
  · exact hColumns name (mem_of_mem_axes (.inl hAxis))
  · exact hColumns name (mem_of_mem_axes (.inr hAxis))
  · cases hItems : s.items? "group_col" with
    | none => simp [hItems] at hGroup
    | some groups =>
        simp only [hItems, Option.map_some, Option.getD_some] at hGroup
        exact hCovers.mem_of_mem_items? hItems name hGroup
  · obtain ⟨filter, hMem, rfl⟩ := List.mem_map.1 hFilter
    exact hCovers.single "filter_col" (by decide) _ (column_of_mem_filters hMem)
  · exact hCovers.single "marker_col" (by decide) name hMarker
  · exact hCovers.single "color_col" (by decide) name hColor

/-- A plot made from a map that the schema covers has no name but those of the schema. Being
covered is kept by the steps before the layout. -/
theorem names_of_ofSemantics (hNames : schema.HasPlainNames) (hCovers : schema.Covers s)
    (h : ofSemantics schema score s = .ok request) :
    ∀ name ∈ request.names, name ∈ schema.candidateNames := by
  rw [ofSemantics] at h
  split at h
  · obtain rfl := Except.ok.inj h
    exact fun name hName => absurd hName (List.not_mem_nil)
  · exact names_of_ofLayout (hCovers.resolveGrouping hNames).layoutGroups h

end PlotRequest

namespace PlotGrammar

variable {S : Type} [Scalar S]

/-- Of two single names under one key the latter counts. So a single name never becomes a list. -/
theorem mergeValue_singleNameKey (a b : String) {key : String}
    (hKey : key ∈ Schema.singleNameKeys) :
    Semantics.mergeValue (MergePolicy.standard : MergePolicy S) key a b = b := by
  simp only [Schema.singleNameKeys, List.mem_cons, List.not_mem_nil, or_false] at hKey
  rcases hKey with rfl | rfl | rfl <;> rfl

variable [ScalarText S] {grammar : Grammar S} {schema : Schema S} {query : Query}
  {d : Derivation S}

/-- The names in the semantics of a tree come from the annotator for auxiliary columns. By
induction on the tree. -/
theorem covers_of_written (hRead : Session.standardGrammar S text = .ok grammar)
    (hNames : schema.HasPlainNames) (h : grammar.Written schema query productions d) :
    schema.Covers d.semantics where
  groups := by
    refine forall_get?_of_written hRead [] ["$auxcolumn"] (by decide) (by simp) ?_ ?_ h
    · rintro source hSource a b finding hFinds value hValue
      obtain rfl := List.mem_singleton.1 hSource
      exact hNames.listsNames (hFinds.mem_candidateNames value hValue)
    · intro a b ha hb name hName
      exact (Semantics.mem_items_unionValue.1 hName).elim (ha name) (hb name)
  single key hKey := by
    have hAssigned : ∀ key ∈ Schema.singleNameKeys,
        (key, ([] : List String), ["$auxcolumn"]) ∈ assignedValues := by decide
    refine forall_get?_of_written hRead [] ["$auxcolumn"] (hAssigned key hKey) (by simp) ?_ ?_ h
    · rintro source hSource a b finding hFinds value hValue
      obtain rfl := List.mem_singleton.1 hSource
      exact hFinds.mem_candidateNames value hValue
    · intro a b _ hb
      rw [mergeValue_singleNameKey a b hKey]
      exact hb

/-- Every plot that the grammar makes of a text names nothing but what the schema knows. This asks
of the schema that its names can stand in a list, and nothing of the text. -/
theorem names_subset_candidateNames (hNames : schema.HasPlainNames) (input : String) :
    ∃ grammar, Session.standardGrammar S text = .ok grammar ∧
      ∀ request, .ok request ∈ (grammar.parse schema input).map (PlotRequest.ofParse schema) →
        ∀ name ∈ request.names, name ∈ schema.candidateNames := by
  obtain ⟨grammar, hRead⟩ := exists_standardGrammar S
  refine ⟨grammar, hRead, fun request hRequest => ?_⟩
  obtain ⟨parse, hParse, hOk⟩ := List.mem_map.1 hRequest
  cases parse with
  | none => cases hOk
  | some d =>
      obtain ⟨statement, -, hWritten, -⟩ := written_of_mem_parse hRead hParse
      exact PlotRequest.names_of_ofSemantics hNames (covers_of_written hRead hNames hWritten) hOk

theorem eq_ok_of_toOption {ε α : Type} {result : Except ε α} {a : α}
    (h : result.toOption = some a) : result = .ok a := by
  cases result with
  | error reason => cases h
  | ok b =>
      obtain rfl := Option.some.inj h
      rfl

/-- A scatter plot of one column by the other. The group goes to the horizontal axis. -/
theorem names_subset_candidateNames_barSchema :
    Grammar.barSchema.HasPlainNames ∧
      ∃ grammar, Session.standardGrammar ℚ text = .ok grammar ∧ ∃ request,
        .ok request ∈ (grammar.parse Grammar.barSchema "scatter Age by Income").map
          (PlotRequest.ofParse Grammar.barSchema) ∧
        request.names = ["Income", "Age", "Income", "Age", "Income"] ∧
        ∀ name ∈ request.names, name ∈ Grammar.barSchema.candidateNames := by
  have hPlain : Grammar.barSchema.HasPlainNames := by decide
  obtain ⟨grammar, hRead, hNames⟩ := names_subset_candidateNames hPlain "scatter Age by Income"
  obtain ⟨parse, hParse, hSome⟩ := exists_parse_of_run hRead Grammar.barSchema
    "scatter Age by Income"
    (fun _ parse => (PlotRequest.ofParse Grammar.barSchema parse).toOption.map PlotRequest.names)
    (some ["Income", "Age", "Income", "Age", "Income"]) (by decide +kernel)
  obtain ⟨request, hOk, hRequest⟩ := Option.map_eq_some_iff.1 hSome
  have hMem : .ok request ∈ (grammar.parse Grammar.barSchema "scatter Age by Income").map
      (PlotRequest.ofParse Grammar.barSchema) :=
    List.mem_map.2 ⟨parse, hParse, eq_ok_of_toOption hOk⟩
  exact ⟨hPlain, grammar, hRead, request, hMem, hRequest, hNames request hMem⟩

end PlotGrammar

end PlotQuery
