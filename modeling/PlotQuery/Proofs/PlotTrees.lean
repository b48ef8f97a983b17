import PlotQuery.CommandLine.Session
import PlotQuery.Proofs.CellTable
import PlotQuery.Proofs.Findings
import PlotQuery.Proofs.PlotProductions
import PlotQuery.Proofs.WrittenTrees

/-! The grammar for plots in use. Its text is always read, its parses are trees told by its
productions, and a key of theirs has no values but those that the productions assign to it. -/
namespace PlotQuery

namespace Grammar

variable {S : Type} [Scalar S] {grammar : Grammar S} {schema : Schema S}

/-- The parse of a statement is a tree for the whole statement with the root as its symbol. This
holds for any grammar. -/
theorem derives_of_parseQuery {query : Query} {d : Derivation S}
    (h : grammar.parseQuery schema query = some d) :
    grammar.Derives schema query 0 query.size d ∧ d.lhs = grammar.root := by
  rw [parseQuery, Chart.best?, size_chart, cell_chart _ _ _ (Nat.zero_le _) le_rfl] at h
  obtain ⟨hMem, hRoot⟩ := Candidates.mem_of_best?_eq_some h
  exact ⟨derives_of_mem_spanCell le_rfl hMem, hRoot⟩

end Grammar

namespace PlotGrammar

variable (S : Type) [Scalar S] [ScalarText S]

/-- Each annotator of the library has a symbol of its own. -/
theorem nodup_standard_symbols : ((Annotator.standard S).map Annotator.symbol).Nodup := by
  show ["$number", "$number_list", "$column", "$auxcolumn", "$precolor", "$linefmt", "$markerfmt",
    "$quotedstring", "$operator", "$aggreop"].Nodup
  decide

/-- The text of the grammar for plots makes a grammar. -/
theorem exists_standardGrammar : ∃ grammar, Session.standardGrammar S text = .ok grammar :=
  Grammar.exists_read mapM_read_text (nodup_standard_symbols S)

variable {S} {grammar : Grammar S} {schema : Schema S} {query : Query} {d : Derivation S}

/-- A parse is a tree told by the productions, and its symbol is the root. From here on nothing is
to be known of charts. -/
theorem written_of_mem_parse (hRead : Session.standardGrammar S text = .ok grammar)
    {input : String} (h : some d ∈ grammar.parse schema input) :
    ∃ statement ∈ Grammar.statements input,
      grammar.Written schema (Query.ofText statement) productions d ∧
        grammar.symbols.find? "Root" = some d.lhs := by
  obtain ⟨statement, hStatement, hParse⟩ := List.mem_map.1 h
  obtain ⟨hDerives, hRoot⟩ := Grammar.derives_of_parseQuery hParse
  refine ⟨statement, hStatement, hDerives.written fun rule hRule => ?_, ?_⟩
  · exact (Grammar.origin_of_read hRead mapM_read_text rule hRule).mono
      (SymbolTable.Extends.refl _) (List.reverse_subset.2 (List.Subset.refl productions))
  · rw [hRoot]
    exact (Grammar.builtFrom_of_read hRead).find?_root

theorem head?_lhs_ne {production : Production} (h : production ∈ productions) :
    production.lhs.toList.head? ≠ some '$' := by
  have hAll : ∀ production ∈ productions, production.lhs.toList.head? ≠ some '$' := by decide
  exact hAll production h

/-- A tree of the symbol of an annotator is a finding of the annotator. No production has such a
symbol on its left, and no word is spelled like it. -/
theorem finds_of_spelling (hRead : Session.standardGrammar S text = .ok grammar)
    (h : grammar.Written schema query productions d) {spelling : String}
    (hAnnotated : spelling.toList.head? = some '$')
    (hSpelling : grammar.symbols.find? spelling = some d.lhs) :
    ∃ a b finding, Annotator.Finds (query.slice a b) schema spelling finding ∧
      d.semantics = finding.semantics := by
  obtain ⟨annotator, hStandard, rfl, a, b, finding, found, hSemantics⟩ :=
    h.finding_of_spelling (Grammar.builtFrom_of_read hRead) hSpelling
      (fun production hProduction hLhs => head?_lhs_ne hProduction (hLhs ▸ hAnnotated))
      (by simp [hAnnotated])
  exact ⟨a, b, finding,
    Annotator.finds_of_annotate (Annotator.supplied_of_mem_standard hStandard) found, hSemantics⟩

/-- What an annotator of the grammar finds is a finding of the library. -/
theorem finds_of_registered (hRead : Session.standardGrammar S text = .ok grammar)
    {symbol : SymbolId} {annotator : Annotator S} {span : Query} {finding : Finding S}
    (registered : (symbol, annotator) ∈ grammar.annotators)
    (found : annotator.annotate span schema = some finding) :
    Annotator.Finds span schema annotator.symbol finding := by
  have hMem : annotator ∈ Annotator.standard S :=
    (Grammar.builtFrom_of_read hRead).annotators_eq ▸
      List.mem_map_of_mem (f := Prod.snd) registered
  exact Annotator.finds_of_annotate (Annotator.supplied_of_mem_standard hMem) found

/-- What the productions assign to a key: literals, and the annotators whose values they take. -/
def assignedValues : List (String × List String × List String) :=
  [("type", ["overview", "histogram", "scatter", "lineplot"], []),
    ("group_op", [], ["$aggreop"]),
    ("group_col", [], ["$auxcolumn"]),
    ("filter_col", [], ["$auxcolumn"]),
    ("filter_op", [], ["$operator"]),
    ("filter_v", [], ["$number", "$quotedstring"]),
    ("marker_col", [], ["$auxcolumn"]),
    ("color_col", [], ["$auxcolumn"])]

/-- The productions assign to a key of the table no values but those the table gives. It is read
off the productions. -/
theorem assignsOnly_of_mem_assignedValues : ∀ entry ∈ assignedValues,
    ∀ production ∈ productions, ∀ rule ∈ production.rules,
      rule.AssignsOnly entry.1 entry.2.1 entry.2.2 := by
  decide

/-- No finding has a key of the table. So only productions assign to them. -/
theorem not_mem_ownKeys : ∀ key ∈ assignedValues.map Prod.fst,
    key ∉ valueKey :: Annotator.Finds.ownKeys.map Prod.snd := by
  decide

theorem head?_of_mem_sources : ∀ entry ∈ assignedValues, ∀ source ∈ entry.2.2,
    source.toList.head? = some '$' := by
  decide

/-- A key of the table has no values but those the productions assign to it and what merging makes
of them. By induction on the tree. -/
theorem forall_get?_of_written (hRead : Session.standardGrammar S text = .ok grammar)
    {key : String} (literals sources : List String) {P : String → Prop}
    (hAssigned : (key, literals, sources) ∈ assignedValues)
    (hLiterals : ∀ text ∈ literals, P text)
    (hSources : ∀ source ∈ sources, ∀ a b finding,
      Annotator.Finds (query.slice a b) schema source finding →
        ∀ value ∈ finding.semantics.get? valueKey, P value)
    (hMerge : ∀ a b, P a → P b →
      P (Semantics.mergeValue (MergePolicy.standard : MergePolicy S) key a b))
    (h : grammar.Written schema query productions d) :
    ∀ value ∈ d.semantics.get? key, P value := by
  have hKey := not_mem_ownKeys key (List.mem_map_of_mem hAssigned)
  refine h.forall_get? (List.ne_of_not_mem_cons hKey) ?_
    (assignsOnly_of_mem_assignedValues _ hAssigned) hLiterals ?_ ?_
  · intro entry hEntry span finding found value hValue
    rw [(finds_of_registered hRead hEntry found).get?_eq_none hKey] at hValue
    cases hValue
  · intro source hSource child hWritten hSpelling value hValue
    obtain ⟨a, b, finding, hFinds, hSemantics⟩ :=
      finds_of_spelling hRead hWritten (head?_of_mem_sources _ hAssigned source hSource) hSpelling
    exact hSources source hSource a b finding hFinds value (hSemantics ▸ hValue)
  · rw [(Grammar.builtFrom_of_read hRead).settings_eq]
    exact hMerge

/-- What is made of the only parse of a text, from a run that can be evaluated by definition. The
run goes over the list of cells instead of the chart. -/
theorem exists_parse_of_run [MonotoneScalar S]
    (hRead : Session.standardGrammar S text = .ok grammar) (schema : Schema S) (input : String)
    {α : Type} (f : Grammar S → Option (Derivation S) → α) (value : α)
    (hRun : ((Grammar.ofProductions Settings.standard (Annotator.standard S)
      productions.reverse).toOption.map fun grammar =>
        (Grammar.statements input).map fun statement =>
          f grammar (Candidates.best? grammar.root
            (Grammar.listedCell (grammar.cellList schema (Query.ofText statement)) 0
              (Query.ofText statement).size))) = some [value]) :
    ∃ parse ∈ grammar.parse schema input, f grammar parse = value := by
  rw [Session.standardGrammar, Grammar.read_eq_ofProductions mapM_read_text] at hRead
  rw [hRead] at hRun
  have hParses : (grammar.parse schema input).map (f grammar) = [value] := by
    rw [Grammar.parse_eq_best?_listedCell, List.map_map]
    exact Option.some.inj hRun
  exact List.mem_map.1 (hParses ▸ List.mem_singleton_self value)

end PlotGrammar

end PlotQuery
