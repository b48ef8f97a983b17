import PlotQuery.Proofs.CellTable
import PlotQuery.Proofs.Findings
import PlotQuery.Proofs.MergeLaws
import PlotQuery.Proofs.NumberTexts

/-! The values of a tree as values of its leaves. Under a key that no rule of the tree assigns, the
leaves from left to right settle the value of the tree, however they are put together. -/
namespace PlotQuery

namespace Text

/-- Pieces in two parts are joined with one separator between the parts. -/
theorem join_append {separator : String} {before after : List String} (hBefore : before ≠ [])
    (hAfter : after ≠ []) :
    join separator (before ++ after) =
      join separator before ++ separator ++ join separator after := by
  induction before with
  | nil => exact absurd rfl hBefore
  | cons text before ih =>
      cases before with
      | nil =>
          cases after with
          | nil => exact absurd rfl hAfter
          | cons next after => rfl
      | cons next before =>
          rw [List.cons_append, List.cons_append, join, ← List.cons_append,
            ih (List.cons_ne_nil next before)]
          · simp only [join, String.append_assoc]
          · exact List.cons_ne_nil _ _

/-- A text without the separator is its only piece. -/
theorem split_of_not_mem {separator : Char} {text : String} (h : separator ∉ text.toList) :
    split separator text = [text] := by
  rw [split, List.splitOn_eq_singleton h]
  simp

end Text

namespace Semantics

variable {S : Type} (policy : MergePolicy S)

/-- The value that the values of a row of parts make together: the members of all of them, each
once, or one value after the other, or the last value, as the policy says of the key. -/
def rowValue? (key : String) (values : List String) : Option String :=
  values.getLast?.map fun last =>
    if policy.unionKeys.contains key then
      if 2 ≤ values.length then
        Text.join (String.singleton listSeparator)
          (values.flatMap (Text.split listSeparator)).eraseDups
      else last
    else if policy.concatKeys.contains key then
      Text.join (String.singleton listSeparator) values
    else last

theorem rowValue?_nil (key : String) : rowValue? policy key [] = none := rfl

theorem rowValue?_singleton (key value : String) :
    rowValue? policy key [value] = some value := by
  simp [rowValue?, Text.join]

theorem isSome_rowValue? (key : String) (values : List String) :
    (rowValue? policy key values).isSome = !values.isEmpty := by
  cases values <;> simp [rowValue?]

variable {policy}

/-- A value under a key that is united lists what the values of its row list, each once and in the
order of first appearance. -/
theorem eraseDups_split_of_rowValue? {key value : String} {values : List String}
    (hUnion : policy.unionKeys.contains key = true)
    (h : rowValue? policy key values = some value) :
    (Text.split listSeparator value).eraseDups =
      (values.flatMap (Text.split listSeparator)).eraseDups := by
  have hNonempty : values ≠ [] := by
    rintro rfl
    cases h
  by_cases hLong : 2 ≤ values.length
  · rw [rowValue?, List.getLast?_eq_some_getLast hNonempty, Option.map_some, if_pos hUnion,
      if_pos hLong, Option.some.injEq] at h
    rw [← h, split_join_eraseDups hNonempty, eraseDups_eraseDups]
  · obtain ⟨only, rfl⟩ : ∃ only, values = [only] := by
      refine List.length_eq_one_iff.1 ?_
      have hPositive := List.length_pos_iff.2 hNonempty
      omega
    rw [rowValue?_singleton, Option.some.injEq] at h
    rw [h, List.flatMap_singleton]

variable (policy)

/-- Merging two parts makes the value of their common row. So the bracketing of the leaves by the
tree has no part in it. -/
theorem rowValue?_append (key : String) (before after : List String) :
    rowValue? policy key (before ++ after) =
      mergedValue? policy key (rowValue? policy key before) (rowValue? policy key after) := by
  by_cases hBefore : before = []
  · subst hBefore
    rw [List.nil_append, rowValue?_nil, mergedValue?]
  by_cases hAfter : after = []
  · subst hAfter
    rw [List.append_nil, rowValue?_nil, mergedValue?_none_right]
  have hLeftSome := isSome_rowValue? policy key before
  have hRightSome := isSome_rowValue? policy key after
  obtain ⟨left, hLeft⟩ := Option.isSome_iff_exists.1 (hLeftSome.trans (by simp [hBefore]))
  obtain ⟨right, hRight⟩ := Option.isSome_iff_exists.1 (hRightSome.trans (by simp [hAfter]))
  have hLong : 2 ≤ (before ++ after).length := by
    have hPositive := List.length_pos_iff.2 hBefore
    have hPositive' := List.length_pos_iff.2 hAfter
    rw [List.length_append]
    omega
  rw [hLeft, hRight, mergedValue?, mergeValue]
  have hLast := List.getLast?_eq_some_getLast (List.append_ne_nil_of_right_ne_nil before hAfter)
  rw [rowValue?, hLast, Option.map_some, if_pos hLong]
  split
  · next hUnion =>
    rw [unionValue, ← eraseDups_append_left, ← eraseDups_append_right,
      eraseDups_split_of_rowValue? hUnion hLeft, eraseDups_split_of_rowValue? hUnion hRight,
      eraseDups_append_left, eraseDups_append_right, List.flatMap_append]
  · next hUnion =>
    obtain ⟨leftLast, -, hLeft⟩ := Option.map_eq_some_iff.1 hLeft
    obtain ⟨rightLast, hRightLast, hRight⟩ := Option.map_eq_some_iff.1 hRight
    rw [if_neg hUnion] at hLeft hRight
    split
    · next hConcat =>
      rw [if_pos hConcat] at hLeft hRight
      rw [concatValue, ← hLeft, ← hRight, Text.join_append hBefore hAfter]
    · next hConcat =>
      rw [if_neg hConcat] at hRight
      rw [List.getLast?_append_of_ne_nil _ hAfter, hRightLast] at hLast
      rw [← hRight, Option.some.inj hLast]

/-- Names without the separator are listed each once where the values under a key are united. The
names stand in the order of the leaves. -/
theorem map_split_rowValue? {key : String} (hUnion : policy.unionKeys.contains key = true)
    {names : List String} (h : ∀ name ∈ names, listSeparator ∉ name.toList) :
    (rowValue? policy key names).map (Text.split listSeparator) =
      if names = [] then none else some names.eraseDups := by
  have hPieces : names.flatMap (Text.split listSeparator) = names := by
    rw [List.flatMap_congr fun name hName => Text.split_of_not_mem (h name hName)]
    exact List.flatMap_singleton' names
  by_cases hNames : names = []
  · rw [if_pos hNames, hNames, rowValue?_nil, Option.map_none]
  rw [if_neg hNames]
  by_cases hLong : 2 ≤ names.length
  · have hLast := List.getLast?_eq_some_getLast hNames
    have hSplit := split_join_eraseDups hNames
    rw [hPieces] at hSplit
    rw [rowValue?, hLast, Option.map_some, if_pos hUnion, if_pos hLong, hPieces, Option.map_some,
      hSplit]
  · obtain ⟨only, rfl⟩ : ∃ only, names = [only] := by
      refine List.length_eq_one_iff.1 ?_
      have hPositive := List.length_pos_iff.2 hNames
      omega
    rw [rowValue?_singleton, Option.map_some, Text.split_of_not_mem (h only (by simp))]
    rfl

end Semantics

def Derivation.leafValues {S : Type} (d : Derivation S) (key : String) : List String :=
  d.leaves.filterMap (·.semantics.get? key)

namespace Grammar

open Semantics

variable {S : Type}

/-- The name of the column that a leaf stands for, if it is a finding of a column to plot. -/
def columnName? (grammar : Grammar S) (leaf : Derivation S) : Option String :=
  if leaf.rule? = none ∧ grammar.symbols.find? "$column" = some leaf.lhs then
    leaf.semantics.get? valueKey
  else none

def columnNames (grammar : Grammar S) (d : Derivation S) : List String :=
  d.leaves.filterMap grammar.columnName?

variable [Scalar S] {grammar : Grammar S} {schema : Schema S} {query : Query} {start stop : Nat}
  {d : Derivation S}

/-- Under a key that no rule of a tree assigns, the tree has the value of the row of its leaves.
By induction on the tree, whose rules only merge what their children have. -/
theorem Derives.get?_eq_rowValue? (h : grammar.Derives schema query start stop d) {key : String}
    (hFree : ¬d.Assigns key) :
    d.semantics.get? key = rowValue? grammar.settings.merge key (d.leafValues key) := by
  have hLeaf (leaf : Derivation S) : leaf.semantics.get? key =
      rowValue? grammar.settings.merge key ([leaf].filterMap (·.semantics.get? key)) := by
    cases hValue : leaf.semantics.get? key with
    | none => simp [hValue, rowValue?_nil]
    | some value => simp [hValue, rowValue?_singleton]
  induction h with
  | finding => exact hLeaf _
  | words => exact hLeaf _
  | unary inner leading trailing inside listed body leadingLimit limit acted ih =>
      rw [Derivation.assigns_unary_iff, not_or] at hFree
      rw [Derivation.leafValues, Derivation.leaves_unary, ← Derivation.leafValues, ← ih hFree.2]
      exact get?_of_applyAction acted fun assignment hAssignment hKey =>
        hFree.1 ⟨assignment, hAssignment, hKey⟩
  | binary left right leading between trailing inside listed body limit acted ihLeft ihRight =>
      rw [Derivation.assigns_binary_iff, not_or, not_or] at hFree
      rw [Derivation.leafValues, Derivation.leaves_binary, List.filterMap_append,
        rowValue?_append, ← Derivation.leafValues, ← Derivation.leafValues, ← ihLeft hFree.2.1,
        ← ihRight hFree.2.2, ← get?_merge]
      exact get?_of_applyAction acted fun assignment hAssignment hKey =>
        hFree.1 ⟨assignment, hAssignment, hKey⟩

/-- A key that no rule assigns comes from a leaf or not at all. -/
theorem Derives.contains_iff_exists_leaf (h : grammar.Derives schema query start stop d)
    {key : String} (hFree : ¬d.Assigns key) :
    d.semantics.contains key = true ↔ ∃ leaf ∈ d.leaves, leaf.semantics.contains key = true := by
  rw [contains, h.get?_eq_rowValue? hFree, isSome_rowValue?, Bool.not_eq_true',
    List.isEmpty_eq_false_iff_exists_mem]
  simp only [Derivation.leafValues, List.mem_filterMap, contains, Option.isSome_iff_exists]
  grind

/-- The annotator is the one for columns to plot, or it is another one and finds no such columns. -/
def KeepsColumns (annotator : Annotator S) : Prop :=
  (∃ threshold, annotator = Annotator.column threshold) ∨
    annotator.symbol ≠ "$column" ∧ ∀ span schema finding,
      annotator.annotate span schema = some finding → finding.semantics.get? "ColName" = none

/-- The annotators of the library find no columns to plot but by the one annotator for them. -/
theorem keepsColumns_of_supplied [ScalarText S] {annotator : Annotator S}
    (h : annotator.Supplied) : KeepsColumns annotator := by
  by_cases hSymbol : annotator.symbol = "$column"
  · cases h with
    | column threshold => exact .inl ⟨threshold, rfl⟩
    | _ => simp [Annotator.number, Annotator.numberList, Annotator.auxiliaryColumn,
        Annotator.color, Annotator.lineStyle, Annotator.marker, Annotator.quotedText,
        Annotator.operator, Annotator.aggregate] at hSymbol
  · refine .inr ⟨hSymbol, fun span schema finding hFound => ?_⟩
    exact (Annotator.finds_of_annotate h hFound).get?_colName_of_ne hSymbol

/-- The leaves with columns to plot are those whose findings are such columns, and each has the
name that is its value. A leaf of words has no columns. -/
theorem get?_colName_eq_columnName? {settings : Settings S} {annotators : List (Annotator S)}
    {text : String} (hBuilt : grammar.BuiltFrom settings annotators text)
    (hAnnotators : ∀ annotator ∈ annotators, KeepsColumns annotator)
    (h : grammar.Derives schema query start stop d) (hLeaf : d.children = [])
    (hFree : ¬d.Assigns "ColName") :
    d.semantics.get? "ColName" = grammar.columnName? d ∧
      ∀ name ∈ grammar.columnName? d, name ∈ schema.candidateNames := by
  cases h with
  | @finding _ _ symbol annotator finding nonempty inside registered found =>
      have hMem : annotator ∈ annotators :=
        hBuilt.annotators_eq ▸ List.mem_map_of_mem (f := Prod.snd) registered
      have hFind := hBuilt.find?_eq_some_iff registered "$column"
      rw [columnName?]
      simp only [Derivation.rule?, Derivation.lhs, Derivation.semantics, true_and, hFind]
      rcases hAnnotators annotator hMem with ⟨threshold, rfl⟩ | ⟨hSymbol, hNone⟩
      · obtain ⟨name, hName, rfl⟩ := Option.map_eq_some_iff.1 found
        have hKnown := NameMatch.name_mem_of_best?_eq_some hName
        simpa [Annotator.column, Finding.rated, Finding.put, Finding.ofValue, valueKey] using hKnown
      · rw [if_neg hSymbol]
        exact ⟨hNone _ _ _ found, by simp⟩
  | @words start stop rule literals semantics nonempty inside listed body spelled acted =>
      have hKey : semantics.get? "ColName" =
          (Semantics.empty.insert valueKey (query.slice start stop).rawText).get? "ColName" :=
        get?_of_applyAction acted fun assignment hAssignment hKey =>
          hFree ⟨_, Derivation.mem_subtrees_self _, assignment, hAssignment, hKey⟩
      rw [columnName?, if_neg (by simp [Derivation.rule?])]
      exact ⟨hKey.trans (by simp [valueKey]), by simp⟩
  | unary => cases hLeaf
  | binary => cases hLeaf

/-- The columns to plot are made of the names at the leaves, and these are names of the schema. -/
theorem get?_colName_eq_rowValue? {settings : Settings S} {annotators : List (Annotator S)}
    {text : String} (hBuilt : grammar.BuiltFrom settings annotators text)
    (hAnnotators : ∀ annotator ∈ annotators, KeepsColumns annotator)
    (h : grammar.Derives schema query start stop d) (hFree : ¬d.Assigns "ColName") :
    d.semantics.get? "ColName" =
        rowValue? settings.merge "ColName" (grammar.columnNames d) ∧
      ∀ name ∈ grammar.columnNames d, name ∈ schema.candidateNames := by
  have hLeaf (leaf : Derivation S) (hMem : leaf ∈ d.leaves) :
      leaf.semantics.get? "ColName" = grammar.columnName? leaf ∧
        ∀ name ∈ grammar.columnName? leaf, name ∈ schema.candidateNames := by
    obtain ⟨hSubtree, hChildren⟩ := List.mem_filter.1 hMem
    obtain ⟨a, b, -, -, hDerives⟩ := h.of_mem_subtrees hSubtree
    have hNil := List.isEmpty_iff.1 hChildren
    refine get?_colName_eq_columnName? hBuilt hAnnotators hDerives hNil ?_
    rintro ⟨node, hNode, hAssigned⟩
    rw [Derivation.subtrees_of_children_eq_nil hNil, List.mem_singleton] at hNode
    exact hFree ⟨leaf, hSubtree, hNode ▸ hAssigned⟩
  rw [h.get?_eq_rowValue? hFree, hBuilt.settings_eq, Derivation.leafValues,
    List.filterMap_congr fun leaf hMem => (hLeaf leaf hMem).1]
  refine ⟨rfl, fun name hName => ?_⟩
  obtain ⟨leaf, hMem, hName⟩ := List.mem_filterMap.1 hName
  exact (hLeaf leaf hMem).2 name hName

/-- In a chart every tree has its leaves one after the other within its span, and under each key
that no rule of it assigns its value is that of the row of its leaves. Under the standard policy
the columns to plot are the distinct names at the leaves, in the order of the query. This asks of
the annotators that only the one for columns finds columns to plot. -/
theorem leaves_settle_semantics_of_mem_chart (hStart : start ≤ query.size)
    (hStop : stop ≤ query.size) (h : d ∈ (grammar.chart schema query).cell start stop) :
    (∃ spans : List (Nat × Nat),
      List.Forall₂ (fun span leaf => grammar.Derives schema query span.1 span.2 leaf)
        spans d.leaves ∧
      spans.Pairwise (fun earlier later => earlier.2 ≤ later.1) ∧
      ∀ span ∈ spans, start ≤ span.1 ∧ span.2 ≤ stop) ∧
    (∀ key, ¬d.Assigns key →
      (d.semantics.contains key = true ↔ ∃ leaf ∈ d.leaves, leaf.semantics.contains key = true) ∧
      d.semantics.get? key = rowValue? grammar.settings.merge key (d.leafValues key)) ∧
    ∀ settings annotators text, read settings annotators text = .ok grammar →
      settings.merge = MergePolicy.standard → (∀ annotator ∈ annotators, KeepsColumns annotator) →
      (∀ name ∈ schema.candidateNames, listSeparator ∉ name.toList) → ¬d.Assigns "ColName" →
      (d.semantics.get? "ColName").map (Text.split listSeparator) =
        if grammar.columnNames d = [] then none else some (grammar.columnNames d).eraseDups := by
  rw [cell_chart _ _ _ hStart hStop] at h
  have hDerives := derives_of_mem_spanCell hStop h
  refine ⟨hDerives.exists_leaf_spans, fun key hFree =>
    ⟨hDerives.contains_iff_exists_leaf hFree, hDerives.get?_eq_rowValue? hFree⟩, ?_⟩
  intro settings annotators text hRead hPolicy hAnnotators hNames hFree
  obtain ⟨hValue, hKnown⟩ :=
    get?_colName_eq_rowValue? (builtFrom_of_read hRead) hAnnotators hDerives hFree
  rw [hValue, hPolicy]
  exact map_split_rowValue? _ rfl fun name hName => hNames name (hKnown name hName)

/-- A grammar for bar plots of any number of columns. -/
def barsText : String :=
  "Root := Plot Columns ; Plot := \"bar\" \x7btype : bar\x7d ; " ++
    "Columns := Columns Column | Column ; Column := $column"

/-- A query with a column that is named twice, the second time with a word in front of it. -/
def barsQuery : Query :=
  ⟨[⟨"Bar", "bar"⟩, ⟨"age", "age"⟩, ⟨"income", "incom"⟩, ⟨"again", "again"⟩, ⟨"age", "age"⟩]⟩

/-- A column that is named twice is plotted once, while the leaves have it twice. -/
theorem leaves_settle_semantics_of_mem_chart_barsQuery :
    ∃ (grammar : Grammar ℚ) (d : Derivation ℚ),
      read Settings.standard [Annotator.column Annotator.standardThreshold] barsText =
        .ok grammar ∧
      d ∈ (grammar.chart barSchema barsQuery).cell 0 5 ∧ d.lhs = grammar.root ∧
      d.leafValues "Value" = ["Bar", "Age", "Income", "Age"] ∧
      d.semantics.get? "Value" = rowValue? grammar.settings.merge "Value" (d.leafValues "Value") ∧
      grammar.columnNames d = ["Age", "Income", "Age"] ∧
      (d.semantics.get? "ColName").map (Text.split listSeparator) = some ["Age", "Income"] := by
  have hRun : (match (read Settings.standard [Annotator.column Annotator.standardThreshold]
        barsText : Except GrammarError (Grammar ℚ)) with
      | .ok grammar => (listedCell (grammar.cellList barSchema barsQuery) 0 5).any fun d =>
          d.lhs == grammar.root && d.leafValues "Value" == ["Bar", "Age", "Income", "Age"] &&
          !decide (d.Assigns "Value") && !decide (d.Assigns "ColName") &&
          grammar.columnNames d == ["Age", "Income", "Age"]
      | .error _ => false) = true := by decide +kernel
  split at hRun
  · next grammar hRead =>
    rw [← cell_chart_eq_listedCell _ _ _ (by decide) (by decide)] at hRun
    simp only [Bool.and_eq_true, beq_iff_eq, List.any_eq_true, Bool.not_eq_true',
      decide_eq_false_iff_not] at hRun
    obtain ⟨d, hMem, ⟨⟨⟨hLhs, hValues⟩, hValue⟩, hFree⟩, hNames⟩ := hRun
    obtain ⟨-, hKeys, hColumns⟩ :=
      leaves_settle_semantics_of_mem_chart (by decide) (by decide) hMem
    have hKeeps : ∀ annotator ∈ [Annotator.column (Annotator.standardThreshold : ℚ)],
        KeepsColumns annotator := by
      intro annotator hAnnotator
      rw [List.mem_singleton.1 hAnnotator]
      exact keepsColumns_of_supplied (.column _)
    have hColumns := hColumns _ _ _ hRead rfl hKeeps (by decide +kernel) hFree
    rw [hNames] at hColumns
    exact ⟨grammar, d, hRead, hMem, hLhs, hValues, (hKeys "Value" hValue).2, hNames,
      hColumns.trans (by decide)⟩
  · cases hRun

end Grammar

end PlotQuery
