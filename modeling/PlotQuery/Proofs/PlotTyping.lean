import PlotQuery.Proofs.Conditions

/-! What every parse of the grammar for plots says. It asks for something, names kinds of plots and
aggregate functions that there are, and has a condition for each operator and each value. -/
namespace PlotQuery

namespace Query

/-- Words are cut from a text, so their characters are characters of it. -/
theorem mem_of_mem_wordsWithout {ignored : List String} {text word : String} {c : Char}
    (hWord : word ∈ wordsWithout ignored text) (hc : c ∈ word.toList) : c ∈ text.toList := by
  obtain ⟨cs, hPiece, rfl⟩ := List.mem_map.1 (List.mem_filter.1 hWord).1
  rw [String.toList_ofList] at hc
  have hStripped := Text.mem_of_mem_splitOnP (List.mem_filter.1 hPiece).1 hc
  rw [stripEnd, Text.trimEnd, Text.dropEndWhile_eq_rdropWhile, Text.dropEndWhile_eq_rdropWhile]
    at hStripped
  exact (List.rdropWhile_prefix _ _).subset ((List.rdropWhile_prefix _ _).subset hStripped)

/-- No word of a statement has the character that stands between statements. So a quoted value is
one item of a list. -/
theorem not_mem_raw_of_mem_statements {input statement : String}
    (hStatement : statement ∈ Grammar.statements input) {token : Token}
    (hToken : token ∈ (ofText statement).tokens) : listSeparator ∉ token.raw.toList := by
  obtain ⟨word, hWord, rfl⟩ := List.mem_map.1 hToken
  intro hMem
  obtain ⟨-, piece, hPiece, rfl⟩ := Text.mem_items_iff.1 hStatement
  have hTrimmed := mem_of_mem_wordsWithout hWord hMem
  rw [Text.trimmed, String.toList_ofList] at hTrimmed
  obtain ⟨cs, hcs, rfl⟩ := List.mem_map.1 hPiece
  rw [String.toList_ofList] at hTrimmed
  exact Text.not_mem_of_mem_splitOn hcs (Text.mem_of_mem_trim hTrimmed)

end Query

/-- As many conditions on rows come out of a map as it has operators and values, if these are
equally many. Nothing is dropped in pairing them. -/
theorem RowFilter.length_ofSemantics {s : Semantics} {n : Nat}
    (hColumn : s.contains "filter_col" = true ↔ 0 < n) (hOps : s.itemCount "filter_op" = n)
    (hValues : s.itemCount "filter_v" = n) : (ofSemantics s).length = n := by
  rw [ofSemantics]
  split
  · next column ops values _ hOpItems hValueItems =>
    rw [Semantics.itemCount, hOpItems, Option.getD_some] at hOps
    rw [Semantics.itemCount, hValueItems, Option.getD_some] at hValues
    rw [List.length_zipWith, hOps, hValues, Nat.min_self]
  · next hMissing =>
    refine (Nat.eq_zero_of_not_pos fun hSome => ?_).symm
    have hItems {key : String} (hCount : s.itemCount key = n) :
        ∃ items, s.items? key = some items := by
      rw [Semantics.itemCount] at hCount
      cases hItems : s.items? key with
      | none => simp [hItems] at hCount; omega
      | some items => exact ⟨items, rfl⟩
    obtain ⟨column, hColumn⟩ := Option.isSome_iff_exists.1 (hColumn.2 hSome)
    obtain ⟨ops, hOps⟩ := hItems hOps
    obtain ⟨values, hValues⟩ := hItems hValues
    exact hMissing column ops values hColumn hOps hValues

namespace PlotGrammar

/-- A parse of the grammar for plots is in order. It asks for an overview, a chart or a column, what
it names is there to be asked for, and it has one operator and one value for each condition. -/
structure WellTyped {S : Type} (grammar : Grammar S) (d : Derivation S) : Prop where
  asks : ∃ key ∈ ["type", "regress", "ColName"], d.semantics.contains key = true
  kind : ∀ value ∈ d.semantics.get? "type",
    value ∈ ["overview", "histogram", "scatter", "lineplot"]
  function : ∀ value ∈ d.semantics.get? "group_op",
    value ∈ ["mean", "sum", "count", "std", "min", "max"]
  filters : (∀ key ∈ filterKeys, d.semantics.contains key = true) ∨
    ∀ key ∈ filterKeys, d.semantics.contains key = false
  operators : ∀ ops ∈ d.semantics.items? "filter_op", ops.length = grammar.conditionCount d ∧
    ∀ op ∈ ops, op ∈ ["<", "<=", ">", ">=", "==", "!="]
  values : ∀ values ∈ d.semantics.items? "filter_v", values.length = grammar.conditionCount d
  paired : (RowFilter.ofSemantics d.semantics).length = grammar.conditionCount d

/-- The root itself carries nothing, so what a tree of it holds are its conditions. -/
theorem held_eq_of_root {S : Type} {grammar : Grammar S} {d : Derivation S} {key : String}
    (hKey : key ∈ filterKeys) (hRoot : grammar.symbols.find? "Root" = some d.lhs) :
    held grammar key d = grammar.conditionCount d := by
  have hNone : ∀ key ∈ filterKeys, (carriers key).count "Root" = 0 := by decide
  rw [held_eq hRoot, hNone key hKey, Nat.add_zero]

variable {S : Type} [Scalar S] [ScalarText S] {grammar : Grammar S} {schema : Schema S}
  {query : Query} {d : Derivation S}

/-- A kind of plot is one of the four that the productions name. -/
theorem mem_kinds (hRead : Session.standardGrammar S text = .ok grammar)
    (h : grammar.Written schema query productions d) :
    ∀ value ∈ d.semantics.get? "type",
      value ∈ ["overview", "histogram", "scatter", "lineplot"] := by
  refine forall_get?_of_written hRead ["overview", "histogram", "scatter", "lineplot"] []
    (by decide) (fun _ hText => hText) (by simp) ?_ h
  exact fun _ _ _ hLater => hLater

/-- An aggregate is one of the six functions that the annotator finds. -/
theorem mem_functions (hRead : Session.standardGrammar S text = .ok grammar)
    (h : grammar.Written schema query productions d) :
    ∀ value ∈ d.semantics.get? "group_op",
      value ∈ ["mean", "sum", "count", "std", "min", "max"] := by
  have hListed : ∀ function ∈ Annotator.aggregates.map Prod.snd,
      function ∈ ["mean", "sum", "count", "std", "min", "max"] := by decide
  refine forall_get?_of_written hRead [] ["$aggreop"] (by decide) (by simp) ?_ ?_ h
  · rintro source hSource a b finding hFinds value hValue
    obtain rfl := List.mem_singleton.1 hSource
    exact hListed value (hFinds.mem_functions value hValue)
  · exact fun _ _ _ hLater => hLater

theorem items_of_mem_operatorSigns : ∀ sign ∈ Annotator.operatorSigns,
    Text.items listSeparator sign = [sign] := by
  decide

/-- All operators are among those that the annotator finds, also where several have been put one
after the other. -/
theorem forall_items_filter_op (hRead : Session.standardGrammar S text = .ok grammar)
    (h : grammar.Written schema query productions d) :
    ∀ value ∈ d.semantics.get? "filter_op", ∀ op ∈ Text.items listSeparator value,
      op ∈ Annotator.operatorSigns := by
  refine forall_get?_of_written hRead [] ["$operator"] (by decide) (by simp) ?_ ?_ h
  · rintro source hSource a b finding hFinds value hValue op hOp
    obtain rfl := List.mem_singleton.1 hSource
    have hSign := hFinds.mem_operatorSigns value hValue
    rw [items_of_mem_operatorSigns value hSign, List.mem_singleton] at hOp
    exact hOp ▸ hSign
  · intro a b ha hb op hOp
    rw [show Semantics.mergeValue _ "filter_op" a b = Semantics.concatValue a b from rfl,
      Semantics.items_concatValue, List.mem_append] at hOp
    exact hOp.elim (ha op) (hb op)

/-- A quoted text is one item, as it is not blank and has no separator. -/
theorem length_items_of_isQuoted {raw : String} (hQuoted : Annotator.isQuoted raw.toList = true)
    (hSeparator : listSeparator ∉ raw.toList) : (Text.items listSeparator raw).length = 1 := by
  have hHead : raw.toList.head? = some '"' := by
    simp only [Annotator.isQuoted, Bool.and_eq_true, beq_iff_eq] at hQuoted
    exact hQuoted.1.2
  have hBlank : ¬Text.allBlank raw.toList = true := fun hAll =>
    absurd (List.all_eq_true.1 hAll '"' (List.mem_of_head? hHead)) (by decide)
  rw [Text.items_of_not_mem hSeparator, if_neg hBlank]
  rfl

/-- There is one operator for each comparison. The productions balance them on the way up. -/
theorem itemCount_filter_op (hRead : Session.standardGrammar S text = .ok grammar)
    (h : grammar.Written schema query productions d) :
    d.semantics.itemCount "filter_op" = held grammar "filter_op" d := by
  refine itemCount_eq_held hRead ["$operator"] (by decide) (by decide) ?_
    (fun _ _ => rfl) h
  intro source hSource a b finding hFinds value hValue
  obtain rfl := List.mem_singleton.1 hSource
  rw [items_of_mem_operatorSigns value (hFinds.mem_operatorSigns value hValue)]
  rfl

/-- There is one value for each comparison, and for each value of a comparison to come. At the
root there are no values to come. -/
theorem itemCount_filter_v [WordNumbers S] (hRead : Session.standardGrammar S text = .ok grammar)
    (hWords : ∀ token ∈ query.tokens, listSeparator ∉ token.raw.toList)
    (h : grammar.Written schema query productions d) :
    d.semantics.itemCount "filter_v" = held grammar "filter_v" d := by
  refine itemCount_eq_held hRead ["$number", "$quotedstring"] (by decide) (by decide) ?_
    (fun _ _ => rfl) h
  intro source hSource a b finding hFinds value hValue
  rw [List.mem_cons, List.mem_singleton] at hSource
  rcases hSource with rfl | rfl
  · obtain ⟨n, rfl⟩ := hFinds.exists_number value hValue
    rw [Text.items_of_isWord (WordNumbers.isWord_text n)]
    rfl
  · obtain ⟨token, hToken, rfl, hQuoted⟩ := hFinds.exists_quoted value hValue
    have hMem : token ∈ query.tokens := List.mem_of_mem_drop (List.mem_of_mem_take hToken)
    exact length_items_of_isQuoted hQuoted (hWords token hMem)

/-- A tree of the root asks for an overview, a chart or a column. It is read off the alternatives
of the root. -/
theorem exists_contains_of_root (hRead : Session.standardGrammar S text = .ok grammar)
    (hRoot : grammar.symbols.find? "Root" = some d.lhs)
    (h : grammar.Written schema query productions d) :
    ∃ key ∈ ["type", "regress", "ColName"], d.semantics.contains key = true := by
  have hHeads : ∀ head ∈ ["Root", "Overview", "Plot", "Chart", "Column", "$column"],
      (head.toList.head? = some '$' → head = "$column") ∧ head.toList.head? ≠ some '"' := by decide
  refine Grammar.Written.exists_contains ["Root", "Overview", "Plot", "Chart", "Column", "$column"]
    ["type", "regress", "ColName"] ?_ (fun head hHead => (hHeads head hHead).2) (by decide)
    h ⟨"Root", by decide, hRoot⟩
  intro entry hEntry head hHead hSpelling span finding found
  have hFinds := finds_of_registered hRead hEntry found
  rw [((Grammar.builtFrom_of_read hRead).find?_eq_some_iff hEntry head).1 hSpelling] at hFinds
  obtain rfl := (hHeads head hHead).1 hFinds.head?_symbol
  exact ⟨"ColName", by decide, hFinds.contains_colName⟩

/-- A tree of the root for words without the separator is in order. Each part of it follows from
what the productions assign. -/
theorem wellTyped_of_written [WordNumbers S] (hRead : Session.standardGrammar S text = .ok grammar)
    (hWords : ∀ token ∈ query.tokens, listSeparator ∉ token.raw.toList)
    (hRoot : grammar.symbols.find? "Root" = some d.lhs)
    (h : grammar.Written schema query productions d) : WellTyped grammar d := by
  have hContains (key : String) (hKey : key ∈ filterKeys) :
      d.semantics.contains key = true ↔ 0 < grammar.conditionCount d := by
    rw [contains_iff_held hRead hKey h, held_eq_of_root hKey hRoot]
  have hOps := (itemCount_filter_op hRead h).trans (held_eq_of_root (by decide) hRoot)
  have hValues := (itemCount_filter_v hRead hWords h).trans (held_eq_of_root (by decide) hRoot)
  exact {
    asks := exists_contains_of_root hRead hRoot h
    kind := mem_kinds hRead h
    function := mem_functions hRead h
    filters := by
      by_cases hSome : 0 < grammar.conditionCount d
      · exact .inl fun key hKey => (hContains key hKey).2 hSome
      · exact .inr fun key hKey => Bool.eq_false_iff.2 (mt (hContains key hKey).1 hSome)
    operators := by
      intro ops hItems
      obtain ⟨value, hValue, rfl⟩ := Option.map_eq_some_iff.1 hItems
      refine ⟨?_, forall_items_filter_op hRead h value hValue⟩
      rw [← hOps, Semantics.itemCount, hItems]
      rfl
    values := by
      intro values hItems
      rw [← hValues, Semantics.itemCount, hItems]
      rfl
    paired := RowFilter.length_ofSemantics (hContains "filter_col" (by decide)) hOps hValues }

/-- Every parse of the grammar for plots is in order, for any schema and any text. -/
theorem parses_well_typed [WordNumbers S] (schema : Schema S) (input : String) :
    ∃ grammar, Session.standardGrammar S text = .ok grammar ∧
      ∀ d, some d ∈ grammar.parse schema input → WellTyped grammar d := by
  obtain ⟨grammar, hRead⟩ := exists_standardGrammar S
  refine ⟨grammar, hRead, fun d hParse => ?_⟩
  obtain ⟨statement, hStatement, hWritten, hRoot⟩ := written_of_mem_parse hRead hParse
  exact wellTyped_of_written hRead
    (fun _ hToken => Query.not_mem_raw_of_mem_statements hStatement hToken) hRoot hWritten

/-- A column for the rows that meet a condition on another one. -/
theorem parses_well_typed_barSchema :
    ∃ grammar, Session.standardGrammar ℚ text = .ok grammar ∧ ∃ d,
      some d ∈ grammar.parse Grammar.barSchema "Age Income > 5" ∧
      d.semantics.entries = [("ColName", "Age"), ("Value", "5"), ("filter_col", "Income"),
        ("filter_op", ">"), ("filter_v", "5")] ∧
      grammar.conditionCount d = 1 ∧ WellTyped grammar d := by
  obtain ⟨grammar, hRead, hTyped⟩ := parses_well_typed Grammar.barSchema "Age Income > 5"
  obtain ⟨parse, hParse, hSome⟩ := exists_parse_of_run hRead Grammar.barSchema "Age Income > 5"
    (fun grammar parse => parse.map fun d => (d.semantics.entries, grammar.conditionCount d))
    (some ([("ColName", "Age"), ("Value", "5"), ("filter_col", "Income"), ("filter_op", ">"),
      ("filter_v", "5")], 1)) (by decide +kernel)
  obtain ⟨d, hSome, hValues⟩ := Option.map_eq_some_iff.1 hSome
  rw [hSome] at hParse
  rw [Prod.mk.injEq] at hValues
  exact ⟨grammar, hRead, d, hParse, hValues.1, hValues.2, hTyped d hParse⟩

end PlotGrammar

end PlotQuery
