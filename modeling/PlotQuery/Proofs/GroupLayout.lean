import PlotQuery.Proofs.AxisChoice
import PlotQuery.Proofs.Conditions

/-! What becomes of the known columns and groups of a map before they are plotted. Grouping may infer a
group, or let a plotted category change places with a group, and the layout may put the first group in
front of a column on its own. Maps are left behind here: what is said is about the two lists. -/
namespace PlotQuery

namespace Schema

variable {S : Type} {schema : Schema S} {s source : Semantics}
  {key other sourceKey value name : String}

/-- What a value lists can stand in a list again: it has no separator and no blank at its ends. -/
theorem isItem_of_mem_getD_items? (h : name ∈ (s.items? key).getD []) :
    Text.IsItem listSeparator name := by
  cases hNames : s.items? key with
  | none => simp [hNames] at h
  | some names =>
      obtain ⟨value, -, rfl⟩ := Option.map_eq_some_iff.1 hNames
      rw [hNames, Option.getD_some] at h
      exact Text.isItem_of_mem_items h

theorem isItem_of_mem_knownItems (h : name ∈ schema.knownItems s key) :
    Text.IsItem listSeparator name :=
  isItem_of_mem_getD_items? (List.mem_filter.1 h).1

theorem isKnown_of_mem_knownItems (h : name ∈ schema.knownItems s key) :
    schema.isKnown name = true :=
  (List.mem_filter.1 h).2

theorem knownItems_of_not_contains (h : s.contains key = false) : schema.knownItems s key = [] := by
  rw [knownItems, Semantics.items?, Semantics.get?_eq_none_of_contains h]
  rfl

/-- The known names under a key are those of the value that has been put there. -/
theorem knownItems_insert_self :
    schema.knownItems (s.insert key value) key =
      (Text.items listSeparator value).filter schema.isKnown := by
  rw [knownItems, Semantics.items?, Semantics.get?_insert, if_pos rfl]
  rfl

theorem knownItems_insert_of_ne (h : other ≠ key) :
    schema.knownItems (s.insert key value) other = schema.knownItems s other := by
  rw [knownItems, Semantics.items?, Semantics.get?_insert, if_neg h]
  rfl

/-- Putting a known name under a key leaves that name alone there. No other name of the value has
to be looked for. -/
theorem knownItems_insert_known (hName : name ∈ schema.knownItems source sourceKey) :
    schema.knownItems (s.insert key name) key = [name] := by
  rw [knownItems_insert_self, (isItem_of_mem_knownItems hName).items_eq,
    List.filter_cons_of_pos (isKnown_of_mem_knownItems hName), List.filter_nil]

/-- An exchange on one side leaves out the removed name, wherever it stands, and puts the added
one at the end. -/
theorem knownItems_swapMember_self {removed added : String}
    (hAdded : added ∈ schema.knownItems source sourceKey) :
    schema.knownItems (swapMember s key removed added) key =
      (schema.knownItems s key).filter (· != removed) ++ [added] := by
  have hItems : ∀ name ∈ ((s.items? key).getD []).filter (· != removed) ++ [added],
      Text.IsItem listSeparator name := by
    intro name hName
    rcases List.mem_append.1 hName with hName | hName
    · exact isItem_of_mem_getD_items? (List.mem_filter.1 hName).1
    · rw [List.mem_singleton.1 hName]
      exact isItem_of_mem_knownItems hAdded
  rw [swapMember, knownItems_insert_self, Text.items_join_of_isItem hItems, List.filter_append,
    List.filter_cons_of_pos (isKnown_of_mem_knownItems hAdded), List.filter_nil, knownItems,
    List.filter_filter, List.filter_filter]
  congr 1
  exact List.filter_congr fun name _ => Bool.and_comm _ _

theorem knownItems_swapMember_of_ne {removed added : String} (h : other ≠ key) :
    schema.knownItems (swapMember s key removed added) other = schema.knownItems s other :=
  knownItems_insert_of_ne h

/-- Two known names in one value are what is known there. The first of them stands in front. -/
theorem knownItems_insert_concatValue {first second : String}
    (hFirst : first ∈ schema.knownItems source sourceKey)
    (hSecond : second ∈ schema.knownItems s key) :
    schema.knownItems (s.insert key (Semantics.concatValue first second)) key = [first, second] := by
  rw [knownItems_insert_self, Semantics.items_concatValue,
    (isItem_of_mem_knownItems hFirst).items_eq, (isItem_of_mem_knownItems hSecond).items_eq,
    List.singleton_append, List.filter_cons_of_pos (isKnown_of_mem_knownItems hFirst),
    List.filter_cons_of_pos (isKnown_of_mem_knownItems hSecond), List.filter_nil]

variable [Scalar S] {kind : PlotKind} {columns groups : List String} {plotted grouped : String}

/-- The columns have a category on their horizontal axis and the groups have none there: the two
change places. -/
structure Swaps (schema : Schema S) (columns groups : List String) (plotted grouped : String) :
    Prop where
  plottedAxis : schema.xAxis columns = some plotted
  groupedAxis : schema.xAxis groups = some grouped
  category : schema.isCategoryLike plotted = true
  plain : schema.isCategoryLike grouped = false

/-- The columns and groups of a map, and those after its grouping has been put in order. -/
inductive Rearranged (schema : Schema S) (columns groups : List String) :
    List String → List String → Prop where
  | kept (hStays : ∀ plotted grouped, ¬schema.Swaps columns groups plotted grouped) :
      schema.Rearranged columns groups columns groups
  | inferred {column : String} (hNone : groups = []) (hAxis : schema.xAxis columns = some column)
      (hCategory : schema.isCategoryLike column = true) :
      schema.Rearranged columns groups columns [column]
  | swapped {plotted grouped : String} (hSwaps : schema.Swaps columns groups plotted grouped) :
      schema.Rearranged columns groups (columns.filter (· != plotted) ++ [grouped])
        (groups.filter (· != grouped) ++ [plotted])

namespace Swaps

theorem plotted_mem (h : schema.Swaps columns groups plotted grouped) : plotted ∈ columns :=
  mem_of_xAxis_eq_some h.plottedAxis

theorem grouped_mem (h : schema.Swaps columns groups plotted grouped) : grouped ∈ groups :=
  mem_of_xAxis_eq_some h.groupedAxis

/-- No group holds categories, or one of those would stand on the horizontal axis. The weight of
categories is greater than any weight without them. -/
theorem isCategoryLike_of_mem (h : schema.Swaps columns groups plotted grouped)
    (hName : name ∈ groups) : schema.isCategoryLike name = false :=
  Bool.eq_false_iff.2 fun hCategory =>
    Bool.false_ne_true (h.plain.symm.trans (isCategoryLike_of_xAxis h.groupedAxis hName hCategory))

theorem plotted_not_mem (h : schema.Swaps columns groups plotted grouped) : plotted ∉ groups :=
  fun hMem => Bool.false_ne_true ((h.isCategoryLike_of_mem hMem).symm.trans h.category)

theorem ne (h : schema.Swaps columns groups plotted grouped) : grouped ≠ plotted := fun hEq =>
  h.plotted_not_mem (hEq ▸ h.grouped_mem)

end Swaps

theorem not_swaps_nil_left : ¬schema.Swaps [] groups plotted grouped := fun h =>
  List.not_mem_nil h.plotted_mem

theorem not_swaps_nil_right : ¬schema.Swaps columns [] plotted grouped := fun h =>
  List.not_mem_nil h.grouped_mem

/-- Where the names on the two axes are to change places, each side loses its own and gets that of
the other. -/
theorem swapCategory_of_swaps
    (h : schema.Swaps (schema.knownItems s "ColName") (schema.knownItems s "group_col") plotted
      grouped) :
    schema.swapCategory s =
      swapMember (swapMember s "ColName" plotted grouped) "group_col" grouped plotted := by
  rw [swapCategory, h.plottedAxis, h.groupedAxis]
  simp only [h.category, h.plain, Bool.not_false, Bool.and_self, if_true]

/-- Where no two names are to change places, nothing is done at all. -/
theorem swapCategory_of_not_swaps
    (h : ∀ plotted grouped, ¬schema.Swaps (schema.knownItems s "ColName")
      (schema.knownItems s "group_col") plotted grouped) :
    schema.swapCategory s = s := by
  rw [swapCategory]
  split
  · next plotted grouped hPlotted hGrouped =>
    split
    · next hSwap =>
      rw [Bool.and_eq_true, Bool.not_eq_true'] at hSwap
      exact absurd ⟨hPlotted, hGrouped, hSwap.1, hSwap.2⟩ (h plotted grouped)
    · rfl
  · rfl

/-- Known columns and groups either stay or change two names. -/
theorem rearranged_swapCategory :
    schema.Rearranged (schema.knownItems s "ColName") (schema.knownItems s "group_col")
      (schema.knownItems (schema.swapCategory s) "ColName")
      (schema.knownItems (schema.swapCategory s) "group_col") := by
  by_cases hSwaps : ∃ plotted grouped, schema.Swaps (schema.knownItems s "ColName")
      (schema.knownItems s "group_col") plotted grouped
  · obtain ⟨plotted, grouped, h⟩ := hSwaps
    rw [swapCategory_of_swaps h, knownItems_swapMember_of_ne (by decide),
      knownItems_swapMember_self h.grouped_mem, knownItems_swapMember_self h.plotted_mem,
      knownItems_swapMember_of_ne (by decide)]
    exact .swapped h
  · simp only [not_exists] at hSwaps
    rw [swapCategory_of_not_swaps hSwaps]
    exact .kept hSwaps

/-- The operation that is put in by default is under a key of its own and touches no names. -/
theorem knownItems_defaultOperation (h : key ≠ "group_op") :
    schema.knownItems (schema.defaultOperation kind s) key = schema.knownItems s key := by
  rw [defaultOperation]
  split
  · rfl
  · split
    · split
      · rfl
      · exact knownItems_insert_of_ne h
    · exact knownItems_insert_of_ne h

/-- A group is inferred only where there is none, and it is the column with categories. -/
theorem inferGroup_eq :
    schema.inferGroup kind s = s ∨ ∃ column, s.contains "group_col" = false ∧
      schema.categoryUnder s "ColName" = some column ∧
      schema.inferGroup kind s = s.insert "group_col" column := by
  rw [inferGroup]
  split
  · next hInfers =>
    split
    · next column hColumn =>
      simp only [Bool.and_eq_true, Bool.not_eq_true'] at hInfers
      exact .inr ⟨column, hInfers.1.2, hColumn, rfl⟩
    · exact .inl rfl
  · exact .inl rfl

/-- A group that holds categories stays where it is, so an inferred one does. After that nothing
more changes places. -/
theorem not_swaps_singleton {column : String} (hCategory : schema.isCategoryLike column = true) :
    ¬schema.Swaps columns [column] plotted grouped := fun h =>
  Bool.false_ne_true ((h.isCategoryLike_of_mem List.mem_cons_self).symm.trans hCategory)

/-- What becomes of the known columns and groups of a map is one of three things: they stay, a
group is inferred, or two names change places. An inferred group never leads to an exchange, so
these do not combine. -/
theorem rearranged_resolveGrouping :
    schema.Rearranged (schema.knownItems s "ColName") (schema.knownItems s "group_col")
      (schema.knownItems (schema.resolveGrouping kind s) "ColName")
      (schema.knownItems (schema.resolveGrouping kind s) "group_col") := by
  rw [resolveGrouping]
  rcases schema.inferGroup_eq with hSame | ⟨column, hNone, hColumn, hInferred⟩
  · rw [hSame]
    split
    · rw [knownItems_defaultOperation (by decide), knownItems_defaultOperation (by decide)]
      exact rearranged_swapCategory
    · next hMissing =>
      refine .kept fun plotted grouped hSwaps => ?_
      rw [Bool.and_eq_true, not_and_or, Bool.not_eq_true, Bool.not_eq_true] at hMissing
      rcases hMissing with hGroups | hColumns
      · rw [knownItems_of_not_contains hGroups] at hSwaps
        exact not_swaps_nil_right hSwaps
      · rw [knownItems_of_not_contains hColumns] at hSwaps
        exact not_swaps_nil_left hSwaps
  · obtain ⟨hAxis, hCategory⟩ := Option.filter_eq_some_iff.1 hColumn
    have hMem := mem_of_xAxis_eq_some hAxis
    have hGroups : schema.knownItems (s.insert "group_col" column) "group_col" = [column] :=
      knownItems_insert_known hMem
    have hStays : schema.swapCategory (s.insert "group_col" column) =
        s.insert "group_col" column := by
      refine swapCategory_of_not_swaps fun plotted grouped hSwaps => ?_
      rw [hGroups] at hSwaps
      exact not_swaps_singleton hCategory hSwaps
    have hKept : schema.Rearranged (schema.knownItems s "ColName")
        (schema.knownItems s "group_col")
        (schema.knownItems (s.insert "group_col" column) "ColName")
        (schema.knownItems (s.insert "group_col" column) "group_col") := by
      rw [hGroups, knownItems_insert_of_ne (by decide)]
      exact .inferred (knownItems_of_not_contains hNone) hAxis hCategory
    rw [hInferred]
    split
    · rw [knownItems_defaultOperation (by decide), knownItems_defaultOperation (by decide), hStays]
      exact hKept
    · exact hKept

/-- The columns to plot: outside of histograms the first group goes in front of a column on its own,
unless it is that column. -/
def groupInFront (kind : PlotKind) (columns groups : List String) : List String :=
  match groups, columns with
  | first :: _, [column] => if kind = .histogram ∨ column = first then columns else [first, column]
  | _, _ => columns

/-- Either the first group goes in front of a column on its own, or the columns stay as they are.
A histogram never has a group put in front, and no column one of its own name. -/
theorem groupInFront_cases (kind : PlotKind) (columns groups : List String) :
    (∃ first more column, groups = first :: more ∧ columns = [column] ∧ first ≠ column ∧
      groupInFront kind columns groups = [first, column]) ∨
    (groupInFront kind columns groups = columns ∧ (kind = .histogram ∨
      ∀ column, columns = [column] → groups = [] ∨ groups.head? = some column)) := by
  unfold groupInFront
  split
  · next first more column =>
    split
    · next hStays =>
      refine .inr ⟨rfl, hStays.imp_right fun hFirst single hSingle => .inr ?_⟩
      rw [List.head?_cons, ← hFirst, (List.cons.inj hSingle).1]
    · next hFront =>
      rw [not_or] at hFront
      exact .inl ⟨first, more, column, rfl, rfl, Ne.symm hFront.2, rfl⟩
  · next hOther =>
    refine .inr ⟨rfl, .inr fun column hColumn => .inl ?_⟩
    cases groups with
    | nil => rfl
    | cons first more => exact absurd hColumn (hOther first more column rfl)

/-- The layout of the known names is that of the list of columns with a group in front. -/
theorem knownItems_layoutGroups :
    schema.knownItems (schema.layoutGroups kind s).2 "ColName" =
      groupInFront kind (schema.knownItems s "ColName") (schema.knownItems s "group_col") := by
  rw [layoutGroups]
  cases hGroups : schema.knownItems s "group_col" with
  | nil => rfl
  | cons first more =>
      cases hColumns : schema.knownItems s "ColName" with
      | nil => exact hColumns
      | cons column rest =>
          by_cases hKind : kind = .histogram
          · simp only [hKind, if_true, hColumns]
            cases rest <;> rfl
          · cases rest with
            | nil =>
                simp only [hKind, if_false, groupInFront, false_or, List.isEmpty_nil, Bool.true_and,
                  Bool.not_eq_true', List.contains_eq_mem, decide_eq_false_iff_not,
                  List.mem_singleton]
                by_cases hFirst : column = first
                · rw [if_neg (not_not_intro hFirst.symm), if_pos hFirst]
                  exact hColumns
                · rw [if_pos (Ne.symm hFirst), if_neg hFirst]
                  exact knownItems_insert_concatValue (hGroups ▸ List.mem_cons_self)
                    (hColumns ▸ List.mem_cons_self)
            | cons next rest =>
                simp only [hKind, if_false, List.isEmpty_cons, Bool.false_and, Bool.false_eq_true]
                exact hColumns

/-- The layout leaves the groups as they are. -/
theorem knownItems_layoutGroups_of_ne (h : key ≠ "ColName") :
    schema.knownItems (schema.layoutGroups kind s).2 key = schema.knownItems s key := by
  rw [layoutGroups]
  split
  · rfl
  · split
    · rfl
    · split
      · rfl
      · dsimp only
        split
        · exact knownItems_insert_of_ne h
        · rfl

end Schema

namespace PlotRequest

variable {S : Type} [Scalar S] [ScalarText S] {schema : Schema S} {s : Semantics}

/-- An overview has no columns and no groups, whatever the map names. -/
theorem ofSemantics_of_overview (score : S)
    (hKind : PlotKind.ofSemantics schema s = .overview) :
    ofSemantics schema score s = .ok (overview score) := by
  rw [ofSemantics, hKind]
  rfl

/-- A plot other than an overview is laid out from columns and groups that follow from those of
the map. So a property of plots is proved by going through the two steps, and the map is no longer
needed. -/
theorem exists_laidOut_of_ofSemantics (score : S)
    (hKind : PlotKind.ofSemantics schema s ≠ .overview) :
    ∃ series laidOut columns groups,
      ofSemantics schema score s =
        ofLayout schema (PlotKind.ofSemantics schema s) score series laidOut ∧
      schema.Rearranged (schema.knownItems s "ColName") (schema.knownItems s "group_col") columns
        groups ∧
      schema.knownItems laidOut "ColName" =
        Schema.groupInFront (PlotKind.ofSemantics schema s) columns groups ∧
      schema.knownItems laidOut "group_col" = groups := by
  rw [ofSemantics]
  split
  · next hOverview => exact absurd hOverview hKind
  · exact ⟨_, _, _, _, rfl, Schema.rearranged_resolveGrouping, Schema.knownItems_layoutGroups,
      Schema.knownItems_layoutGroups_of_ne (by decide)⟩

end PlotRequest

end PlotQuery
