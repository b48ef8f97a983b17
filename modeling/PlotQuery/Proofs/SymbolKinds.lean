import PlotQuery.Proofs.DerivationTrees
import PlotQuery.Proofs.Findings
import PlotQuery.Proofs.NumberTexts
import PlotQuery.Proofs.RuleForms

/-! The kinds of symbols in charts. Literals, nonterminals and the symbols of annotators share one table,
in which spellings keep them apart. So a literal is derived by its own word and by nothing else, the
symbol of an annotator by its finding and by nothing else, and no rule for a nonterminal can stand in
for either. -/
namespace PlotQuery

namespace SymbolTable

/-- A symbol of a table to which one has been added is that one or was there before. -/
theorem get?_intern_cases {table : SymbolTable} {symbol found : Symbol} {id : SymbolId}
    (h : (table.intern symbol).1.get? id = some found) :
    table.get? id = some found ∨ found = symbol := by
  rw [intern] at h
  split at h
  · exact .inl h
  · rw [get?, push] at h
    by_cases hSize : id < table.symbols.length
    · rw [List.getElem?_append_left hSize] at h
      exact .inl h
    · rw [List.getElem?_append_right (Nat.le_of_not_lt hSize), List.getElem?_singleton] at h
      split at h
      · exact .inr (Option.some.inj h).symm
      · cases h

end SymbolTable

theorem Derivation.mem_subtrees_of_mem_children {S : Type} (d : Derivation S) {child : Derivation S}
    (h : child ∈ d.children) : child ∈ d.subtrees := by
  cases d with
  | leaf => cases h
  | words => cases h
  | unary rule only semantics score =>
      obtain rfl := List.mem_singleton.1 h
      exact List.mem_cons_of_mem _ child.mem_subtrees_self
  | binary rule first second semantics score =>
      apply List.mem_cons_of_mem
      rcases List.mem_cons.1 h with rfl | h
      · exact List.mem_append_left _ child.mem_subtrees_self
      · obtain rfl := List.mem_singleton.1 h
        exact List.mem_append_right _ child.mem_subtrees_self

namespace Annotator

theorem head?_symbol_of_supplied {S : Type} [Scalar S] [ScalarText S] {annotator : Annotator S}
    (h : annotator.Supplied) : annotator.symbol.toList.head? = some '$' := by
  cases h <;> simp [number, numberList, column, auxiliaryColumn, color, lineStyle, marker, quotedText,
    operator, aggregate]

end Annotator

namespace Query

/-- A part with one normal form is one token. So a rule of one word never passes over a token. -/
theorem eq_of_normals_slice {query : Query} {start stop : Nat} {word : String} (hSpan : start < stop)
    (hStop : stop ≤ query.size) (h : (query.slice start stop).normals = [word]) :
    ∃ token, query.tokens[start]? = some token ∧ stop = start + 1 ∧ token.normal = word ∧
      (query.slice start stop).rawText = token.raw := by
  have hSize : (query.slice start stop).size = stop - start := query.size_slice hStop
  have hOne := congrArg List.length h
  rw [normals, List.length_map, ← size, hSize, List.length_singleton] at hOne
  obtain rfl : stop = start + 1 := by omega
  rw [size] at hStop
  have hToken := List.getElem?_eq_getElem hStop
  have hSlice : (query.slice start (start + 1)).tokens = [query.tokens[start]] := by
    rw [slice, Nat.add_sub_cancel_left, List.take_one, List.head?_drop, hToken]
    rfl
  refine ⟨query.tokens[start], hToken, rfl, ?_, ?_⟩
  · rw [normals, hSlice] at h
    exact List.head_eq_of_cons_eq h
  · rw [rawText, raw, hSlice]
    rfl

end Query

namespace Grammar

variable {S : Type} {grammar : Grammar S} {settings : Settings S} {annotators : List (Annotator S)}
  {text : String}

/-- What each annotator that gets its number keeps, all of them keep. By induction on the
annotators. -/
theorem foldlM_register_invariant {P : SymbolTable → List (SymbolId × Annotator S) → Prop}
    (hStep : ∀ symbols registered annotator, P symbols registered →
      (symbols.intern ⟨annotator.symbol, .placeholder⟩).2 ∉ registered.map Prod.fst →
        P (symbols.intern ⟨annotator.symbol, .placeholder⟩).1
          (registered ++ [((symbols.intern ⟨annotator.symbol, .placeholder⟩).2, annotator)]))
    {symbols symbols' : SymbolTable} {registered registered' : List (SymbolId × Annotator S)}
    (h : annotators.foldlM register (symbols, registered) = .ok (symbols', registered'))
    (hFirst : P symbols registered) : P symbols' registered' := by
  induction annotators generalizing symbols registered with
  | nil =>
      cases h
      exact hFirst
  | cons annotator annotators ih =>
      rw [List.foldlM_cons, bind_eq_ok_iff] at h
      obtain ⟨state, hRegister, hRest⟩ := h
      simp only [register] at hRegister
      split at hRegister
      · cases hRegister
      · next hNew =>
        cases hRegister
        refine ih hRest (hStep _ _ annotator hFirst ?_)
        simpa using hNew

/-- The symbols of a grammar are those of its rules and then those of annotators and the root. A literal
is a symbol of the rules, and no two annotators share a number. -/
structure NumberedFrom (grammar : Grammar S) (set : RuleSet) : Prop where
  keeps : set.symbols.Keeps grammar.symbols
  constant : ∀ id word, grammar.symbols.get? id = some ⟨word, .constant⟩ →
    set.symbols.get? id = some ⟨word, .constant⟩
  nodup : (grammar.annotators.map Prod.fst).Nodup

/-- A grammar that has been read has the rules of the set that its text makes, and more symbols
for the annotators. -/
theorem numberedFrom_of_read (h : read settings annotators text = .ok grammar) :
    ∃ set, RuleSet.read text = .ok set ∧ grammar.rules = set.rules ∧ grammar.NumberedFrom set := by
  obtain ⟨set, hSet, h⟩ := bind_eq_ok_iff.1 h
  obtain ⟨⟨symbols, registered⟩, hRegister, h⟩ := bind_eq_ok_iff.1 h
  cases h
  have hAll := foldlM_register_invariant
    (P := fun symbols registered => set.symbols.Keeps symbols ∧
      (∀ id word, symbols.get? id = some ⟨word, .constant⟩ →
        set.symbols.get? id = some ⟨word, .constant⟩) ∧ (registered.map Prod.fst).Nodup) ?_ hRegister
    ⟨SymbolTable.Keeps.refl _, fun _ _ hGet => hGet, List.nodup_nil⟩
  · obtain ⟨hKeeps, hConstant, hNodup⟩ := hAll
    refine ⟨set, hSet, rfl, hKeeps.trans (symbols.keeps_intern _), fun id word hGet => ?_, hNodup⟩
    rcases SymbolTable.get?_intern_cases hGet with hGet | hSame
    · exact hConstant id word hGet
    · cases hSame
  · rintro symbols registered annotator ⟨hKeeps, hConstant, hNodup⟩ hNew
    refine ⟨hKeeps.trans (symbols.keeps_intern _), fun id word hGet => ?_, ?_⟩
    · rcases SymbolTable.get?_intern_cases hGet with hGet | hSame
      · exact hConstant id word hGet
      · cases hSame
    · rw [List.map_append, List.map_singleton]
      exact List.nodup_append_comm.2 (List.nodup_cons.2 ⟨hNew, hNodup⟩)

/-- A rule of a grammar is the rule of a literal, or a rule for a nonterminal. There are no
others. -/
theorem literalRule_or_nonterminal (hRead : read settings annotators text = .ok grammar) {rule : Rule}
    (hRule : rule ∈ grammar.rules) :
    (∃ word, grammar.symbols.get? rule.lhs = some ⟨word, .constant⟩ ∧
        rule = RuleSet.literalRule rule.lhs word) ∨
      ∃ name, grammar.symbols.get? rule.lhs = some ⟨name, .nonterminal⟩ := by
  obtain ⟨set, hSet, hRules, hNumbered⟩ := numberedFrom_of_read hRead
  obtain ⟨productions, hNumbers, hProper⟩ := RuleSet.numbers_of_read hSet
  have hForm := hNumbers.wellFormed hProper
  rw [hRules, RuleSet.rules, List.mem_append] at hRule
  rcases hRule with hRule | hRule
  · obtain ⟨hAction, word, hBody, hWord⟩ := hForm.literalRules rule hRule
    refine .inl ⟨word, hNumbered.keeps _ _ hWord, ?_⟩
    obtain ⟨lhs, body, action⟩ := rule
    rw [RuleSet.literalRule, ← hBody, ← hAction]
  · obtain ⟨name, hName⟩ := hForm.productionRules rule hRule
    exact .inr ⟨name, hNumbered.keeps _ _ hName⟩

variable [Scalar S] {schema : Schema S} {query : Query} {start stop : Nat} {d : Derivation S}

/-- The number of an annotator is not that of a literal. The spelling of a literal begins with a
quotation mark and that of an annotator does not. -/
theorem get?_annotator_ne_constant [ScalarText S]
    (hRead : read settings annotators text = .ok grammar)
    (hAnnotators : ∀ annotator ∈ annotators, annotator.Supplied) {id : SymbolId}
    {annotator : Annotator S} (hEntry : (id, annotator) ∈ grammar.annotators) (word : String) :
    grammar.symbols.get? id ≠ some ⟨word, .constant⟩ := by
  intro hWord
  have hBuilt := builtFrom_of_read hRead
  have hMem : annotator ∈ annotators :=
    hBuilt.annotators_eq ▸ List.mem_map_of_mem (f := Prod.snd) hEntry
  have hSpelling := SymbolTable.spelling_unique (hBuilt.find?_annotator _ hEntry)
    (SymbolTable.find?_of_get? hWord)
  have hHead := Annotator.head?_symbol_of_supplied (hAnnotators annotator hMem)
  rw [hSpelling] at hHead
  simp [Symbol.spelling] at hHead

/-- A tree for a literal is the word of the literal, by the rule of the literal. No other rule has
a literal on its left. -/
theorem Derives.of_constant [ScalarText S] (hRead : read settings annotators text = .ok grammar)
    (hAnnotators : ∀ annotator ∈ annotators, annotator.Supplied)
    (h : grammar.Derives schema query start stop d) {word : String}
    (hWord : grammar.symbols.get? d.lhs = some ⟨word, .constant⟩) :
    RuleSet.literalRule d.lhs word ∈ grammar.rules ∧
      ∃ token, query.tokens[start]? = some token ∧ stop = start + 1 ∧ token.normal = word ∧
        d = .words (RuleSet.literalRule d.lhs word)
          (Semantics.empty.insert valueKey token.raw) := by
  -- a rule with this left side is the rule of the literal, which has one word and assigns nothing
  have hOwn {rule : Rule} (listed : rule ∈ grammar.rules)
      (hLhs : grammar.symbols.get? rule.lhs = some ⟨word, .constant⟩) :
      rule = RuleSet.literalRule rule.lhs word := by
    rcases literalRule_or_nonterminal hRead listed with ⟨word', hWord', hRule⟩ | ⟨name, hName⟩
    · rw [hLhs] at hWord'
      cases hWord'
      exact hRule
    · rw [hLhs] at hName
      cases hName
  cases h with
  | finding nonempty inside registered found =>
      exact absurd hWord (get?_annotator_ne_constant hRead hAnnotators registered word)
  | @words _ _ rule literals semantics nonempty inside listed body spelled acted =>
      have hRule := hOwn listed hWord
      obtain ⟨lhs, _, _⟩ := rule
      cases hRule
      cases body
      obtain ⟨token, hToken, hStop, hNormal, hRaw⟩ :=
        Query.eq_of_normals_slice nonempty inside spelled
      rw [hRaw] at acted
      cases acted
      exact ⟨listed, token, hToken, hStop, hNormal, rfl⟩
  | unary inner leading trailing inside listed body leadingLimit limit acted =>
      rw [hOwn listed hWord] at body
      cases body
  | binary left right leading between trailing inside listed body limit acted =>
      rw [hOwn listed hWord] at body
      cases body

/-- A tree for the symbol of an annotator is its finding. No rule has such a symbol on its
left. -/
theorem Derives.of_placeholder (hRead : read settings annotators text = .ok grammar)
    (h : grammar.Derives schema query start stop d) {name : String}
    (hName : grammar.symbols.get? d.lhs = some ⟨name, .placeholder⟩) :
    ∃ annotator finding, (d.lhs, annotator) ∈ grammar.annotators ∧ annotator.symbol = name ∧
      annotator.annotate (query.slice start stop) schema = some finding ∧
        d = .ofFinding d.lhs finding := by
  have hNoRule {rule : Rule} (listed : rule ∈ grammar.rules)
      (hLhs : grammar.symbols.get? rule.lhs = some ⟨name, .placeholder⟩) : False := by
    rcases literalRule_or_nonterminal hRead listed with ⟨_, hOther, -⟩ | ⟨_, hOther⟩
    · rw [hLhs] at hOther
      cases hOther
    · rw [hLhs] at hOther
      cases hOther
  cases h with
  | @finding _ _ symbol annotator finding nonempty inside registered found =>
      refine ⟨annotator, finding, registered, ?_, found, rfl⟩
      exact SymbolTable.spelling_unique ((builtFrom_of_read hRead).find?_annotator _ registered)
        (SymbolTable.find?_of_get? hName)
  | words nonempty inside listed body spelled acted => exact (hNoRule listed hName).elim
  | unary inner leading trailing inside listed body leadingLimit limit acted =>
      exact (hNoRule listed hName).elim
  | binary left right leading between trailing inside listed body limit acted =>
      exact (hNoRule listed hName).elim

/-- The children of a node stand for the symbols on the right side of its rule. In a tree of the
grammar they are trees for these symbols. -/
theorem Derives.children_of_rule? (h : grammar.Derives schema query start stop d) {rule : Rule}
    (hRule : d.rule? = some rule) :
    rule ∈ grammar.rules ∧ rule.body.children = d.children.map Derivation.lhs := by
  cases h with
  | finding => cases hRule
  | words nonempty inside listed body spelled acted =>
      cases hRule
      exact ⟨listed, by rw [body]; rfl⟩
  | unary inner leading trailing inside listed body leadingLimit limit acted =>
      cases hRule
      exact ⟨listed, by rw [body]; rfl⟩
  | binary left right leading between trailing inside listed body limit acted =>
      cases hRule
      exact ⟨listed, by rw [body]; rfl⟩

/-- Pruning leaves one tree of each reading in a cell. -/
theorem nodup_readings_spanCell (grammar : Grammar S) (schema : Schema S) (query : Query)
    (start stop : Nat) :
    ((grammar.spanCell schema query start stop).map Derivation.reading).Nodup := by
  by_cases hSpan : start < stop
  · rw [spanCell_eq_prune_gather _ _ _ hSpan]
    exact Candidates.nodup_readings_prune _ _
  · rw [spanCell_of_not_lt _ _ _ hSpan]
    exact List.nodup_nil

/-- The symbol of an annotator has one tree at most in a cell. An annotator finds one thing at
most in a span, and there is one annotator for each symbol. -/
theorem filter_spanCell_of_placeholder (hRead : read settings annotators text = .ok grammar)
    (hStop : stop ≤ query.size) (hMem : d ∈ grammar.spanCell schema query start stop) {name : String}
    (hName : grammar.symbols.get? d.lhs = some ⟨name, .placeholder⟩) :
    (grammar.spanCell schema query start stop).filter (·.lhs = d.lhs) = [d] := by
  obtain ⟨set, -, -, hNumbered⟩ := numberedFrom_of_read hRead
  obtain ⟨annotator, finding, hEntry, -, hFound, hTree⟩ :=
    (derives_of_mem_spanCell hStop hMem).of_placeholder hRead hName
  rw [← filter_eq_singleton_of_nodup (grammar.nodup_readings_spanCell schema query start stop) hMem]
  apply List.filter_congr
  intro other hOther
  rw [decide_eq_decide, Derivation.reading_eq_iff]
  constructor
  · intro hLhs
    obtain ⟨annotator', finding', hEntry', -, hFound', hTree'⟩ :=
      (derives_of_mem_spanCell hStop hOther).of_placeholder hRead (hLhs ▸ hName)
    rw [hLhs] at hEntry' hTree'
    have hSame := List.inj_on_of_nodup_map hNumbered.nodup hEntry hEntry' rfl
    cases hSame
    rw [hFound] at hFound'
    cases hFound'
    rw [hTree', ← hTree]
    exact ⟨rfl, rfl⟩
  · exact fun hSame => hSame.1

/-- In the charts of a grammar with annotators of the library, a tree for a literal covers the one
token of this literal, by the rule of the literal and with the full score. A tree for the symbol
of an annotator is the finding of the annotator on its span, and the only such tree there.
Wherever a rule has a literal on its right side, it is derived by the literal's own rule and by
none for a nonterminal. In any table symbols and numbers belong together one by one, by way of the
spellings. Names may be the same across kinds. -/
theorem kinds_apart [ScalarText S] (hRead : read settings annotators text = .ok grammar)
    (hAnnotators : ∀ annotator ∈ annotators, annotator.Supplied) :
    (∀ schema query start stop, start ≤ query.size → stop ≤ query.size →
      ∀ d ∈ (grammar.chart schema query).cell start stop,
        (∀ word, grammar.symbols.get? d.lhs = some ⟨word, .constant⟩ →
          RuleSet.literalRule d.lhs word ∈ grammar.rules ∧ d.score = Scalar.one ∧
          ∃ token, query.tokens[start]? = some token ∧ stop = start + 1 ∧ token.normal = word ∧
            d = .words (RuleSet.literalRule d.lhs word)
              (Semantics.empty.insert valueKey token.raw)) ∧
        (∀ name, grammar.symbols.get? d.lhs = some ⟨name, .placeholder⟩ →
          ((grammar.chart schema query).cell start stop).filter (·.lhs = d.lhs) = [d] ∧
          ∃ annotator finding, (d.lhs, annotator) ∈ grammar.annotators ∧ annotator.symbol = name ∧
            annotator.annotate (query.slice start stop) schema = some finding ∧
              d = .ofFinding d.lhs finding) ∧
        ∀ node ∈ d.subtrees, ∀ rule ∈ node.rule?,
          rule ∈ grammar.rules ∧ rule.body.children = node.children.map Derivation.lhs ∧
          ∀ child ∈ node.children, ∀ word,
            grammar.symbols.get? child.lhs = some ⟨word, .constant⟩ →
              child.rule? = some (RuleSet.literalRule child.lhs word) ∧
              ∀ other ∈ grammar.rules, ∀ name,
                grammar.symbols.get? other.lhs = some ⟨name, .nonterminal⟩ →
                  child.rule? ≠ some other) ∧
    ∀ table : SymbolTable,
      (∀ id, id < table.size ↔ ∃ symbol, table.get? id = some symbol) ∧
      (∀ id id' symbol symbol', table.get? id = some symbol → table.get? id' = some symbol' →
        (id = id' ↔ symbol = symbol')) ∧
      ∀ id spelling, table.find? spelling = some id ↔
        ∃ symbol, table.get? id = some symbol ∧ symbol.spelling = spelling := by
  constructor
  · intro schema query start stop hStart hStop d hMem
    rw [cell_chart _ _ _ hStart hStop] at hMem ⊢
    have hDerives := derives_of_mem_spanCell hStop hMem
    refine ⟨fun word hWord => ?_, fun name hName => ?_, fun node hNode rule hRule => ?_⟩
    · obtain ⟨hListed, token, hToken, hOne, hNormal, hTree⟩ :=
        hDerives.of_constant hRead hAnnotators hWord
      refine ⟨hListed, ?_, token, hToken, hOne, hNormal, hTree⟩
      rw [hTree]
      rfl
    · exact ⟨filter_spanCell_of_placeholder hRead hStop hMem hName,
        hDerives.of_placeholder hRead hName⟩
    · obtain ⟨a, b, -, -, hInner⟩ := hDerives.of_mem_subtrees hNode
      obtain ⟨hListed, hChildren⟩ := hInner.children_of_rule? hRule
      refine ⟨hListed, hChildren, fun child hChild word hWord => ?_⟩
      obtain ⟨_, _, -, -, hLiteral⟩ := hInner.of_mem_subtrees (node.mem_subtrees_of_mem_children hChild)
      obtain ⟨-, token, -, -, -, hTree⟩ := hLiteral.of_constant hRead hAnnotators hWord
      have hRule : child.rule? = some (RuleSet.literalRule child.lhs word) := by
        rw [hTree]
        rfl
      refine ⟨hRule, fun other _ name hName hSame => ?_⟩
      rw [hRule] at hSame
      cases hSame
      rw [RuleSet.literalRule, hWord] at hName
      cases hName
  · intro table
    refine ⟨fun id => ?_, fun id id' symbol symbol' h h' => ?_,
      fun id spelling => SymbolTable.find?_eq_some_iff⟩
    · rw [← Option.isSome_iff_exists, SymbolTable.get?, isSome_getElem?, SymbolTable.size]
    · constructor
      · rintro rfl
        exact Option.some.inj (h.symm.trans h')
      · rintro rfl
        exact SymbolTable.get?_injective h h'

/-- A grammar in which a literal and a nonterminal have the same name. -/
def sameNameText : String :=
  "Root := \"bar\" Column | bar Column ; bar := \"plot\" ; Column := $column"

/-- A literal and a nonterminal have the same name here, and different numbers. -/
theorem kinds_apart_barQuery :
    ∃ (grammar : Grammar ℚ) (d literal column : Derivation ℚ),
      read Settings.standard [Annotator.column Annotator.standardThreshold] sameNameText =
        .ok grammar ∧
      grammar.symbols.get? 2 = some ⟨"bar", .nonterminal⟩ ∧
      grammar.symbols.get? 4 = some ⟨"bar", .constant⟩ ∧
      grammar.symbols.find? "\"bar\"" = some 4 ∧
      literal ∈ (grammar.chart barSchema barQuery).cell 1 2 ∧
      literal = .words (RuleSet.literalRule 4 "bar") (Semantics.empty.insert valueKey "Bar") ∧
      ((grammar.chart barSchema barQuery).cell 2 3).filter (·.lhs = 1) = [column] ∧
      d ∈ (grammar.chart barSchema barQuery).cell 0 3 ∧ d.lhs = grammar.root ∧
      ∃ child ∈ d.children, child.rule? = some (RuleSet.literalRule 4 "bar") := by
  have hRun : (match (read Settings.standard [Annotator.column Annotator.standardThreshold]
        sameNameText : Except GrammarError (Grammar ℚ)) with
      | .ok grammar =>
          let cell := grammar.cellBy barSchema barQuery
            (Candidates.pruneByInsertion grammar.settings.cellLimit)
          grammar.symbols.symbols == [⟨"Column", .nonterminal⟩, ⟨"$column", .placeholder⟩,
            ⟨"bar", .nonterminal⟩, ⟨"Root", .nonterminal⟩, ⟨"bar", .constant⟩] &&
          ((cell 1 2).any fun d => d.lhs == 4) && ((cell 2 3).any fun d => d.lhs == 1) &&
          (cell 0 3).any fun d => d.lhs == grammar.root &&
            d.rule?.any (·.body == .binary 4 0)
      | .error _ => false) = true := by decide +kernel
  split at hRun
  · next grammar hRead =>
    simp only [← cell_chart_eq_cellBy grammar barSchema barQuery (show 1 ≤ barQuery.size by decide)
        (show 2 ≤ barQuery.size by decide),
      ← cell_chart_eq_cellBy grammar barSchema barQuery (show 2 ≤ barQuery.size by decide)
        (show 3 ≤ barQuery.size by decide),
      ← cell_chart_eq_cellBy grammar barSchema barQuery (show 0 ≤ barQuery.size by decide)
        (show 3 ≤ barQuery.size by decide), Bool.and_eq_true, beq_iff_eq, List.any_eq_true,
      Option.any_eq_true] at hRun
    obtain ⟨⟨⟨hSymbols, literal, hLiteral, hFour⟩, column, hColumn, hOne⟩, d, hTree, hLhs, rule,
      hRule, hBody⟩ := hRun
    have hBar : grammar.symbols.get? 4 = some ⟨"bar", .constant⟩ := by
      rw [SymbolTable.get?, hSymbols]
      rfl
    obtain ⟨hCells, hTables⟩ := kinds_apart hRead (by
      intro annotator hAnnotator
      rw [List.mem_singleton.1 hAnnotator]
      exact .column _)
    obtain ⟨hConstant, -, -⟩ := hCells barSchema barQuery 1 2 (by decide) (by decide) literal hLiteral
    obtain ⟨-, -, token, hToken, -, -, hWords⟩ := hConstant "bar" (hFour ▸ hBar)
    cases hToken
    obtain ⟨-, hPlaceholder, -⟩ :=
      hCells barSchema barQuery 2 3 (by decide) (by decide) column hColumn
    obtain ⟨hOnly, -⟩ := hPlaceholder "$column" (by rw [hOne, SymbolTable.get?, hSymbols]; rfl)
    obtain ⟨-, -, hNodes⟩ := hCells barSchema barQuery 0 3 (by decide) (by decide) d hTree
    obtain ⟨-, hChildren, hLiterals⟩ := hNodes d d.mem_subtrees_self rule hRule
    have hMem : (4 : SymbolId) ∈ d.children.map Derivation.lhs := by
      rw [← hChildren, hBody]
      exact List.mem_cons_self
    obtain ⟨child, hChild, hFirst⟩ := List.mem_map.1 hMem
    obtain ⟨hOwn, -⟩ := hLiterals child hChild "bar" (hFirst ▸ hBar)
    refine ⟨grammar, d, literal, column, hRead, ?_, hBar, ?_, hLiteral, ?_, ?_, hTree, hLhs, child,
      hChild, ?_⟩
    · rw [SymbolTable.get?, hSymbols]
      rfl
    · exact ((hTables grammar.symbols).2.2 4 _).2 ⟨_, hBar, rfl⟩
    · rw [hWords, hFour]
    · rw [← hOne]
      exact hOnly
    · rw [hOwn, hFirst]
  · cases hRun

end Grammar

end PlotQuery
