import PlotQuery.Proofs.Expansions
import PlotQuery.Proofs.NumberedProductions

/-! The form of rules that have been read. A production that has been read keeps to the terms that its
kind of rule may have, and numbering keeps this form: every number has its symbol, a reference has its
child, a literal has its one rule, and the symbols of annotators are noted where they are used. -/
namespace PlotQuery

/-- In a list that a function tells apart, the function picks out one member. So a symbol that is
numbered once has one rule of its own. -/
theorem filter_eq_singleton_of_nodup {α β : Type} [DecidableEq β] {f : α → β} {l : List α}
    (h : (l.map f).Nodup) {a : α} (hMem : a ∈ l) : l.filter (f · = f a) = [a] := by
  induction l with
  | nil => cases hMem
  | cons b l ih =>
      obtain ⟨hFirst, hRest⟩ := List.nodup_cons.1 h
      rcases List.mem_cons.1 hMem with rfl | hMem
      · have hNone : l.filter (f · = f a) = [] := by
          rw [List.filter_eq_nil_iff]
          intro c hc hSame
          exact hFirst (of_decide_eq_true hSame ▸ List.mem_map_of_mem hc)
        rw [List.filter_cons_of_pos (by simp), hNone]
      · have hOther : f b ≠ f a := fun hSame => hFirst (hSame ▸ List.mem_map_of_mem hMem)
        rw [List.filter_cons_of_neg (by simpa using hOther), ih hRest hMem]

@[simp] theorem Symbol.symbol_term (symbol : Symbol) : symbol.term.symbol = symbol := by
  obtain ⟨name, kind⟩ := symbol
  cases kind <;> rfl

/-- A rule as it can be written: the spellings of its terms tell their kinds, not all of its terms are
literals, and a reference is to one of its terms. -/
structure TermRule.Proper (rule : TermRule) : Prop where
  wellSpelled : ∀ term ∈ rule.body.terms, term.symbol.WellSpelled
  mixed : rule.body.terms ≠ [] → ∃ term ∈ rule.body.terms, term.symbol.kind ≠ .constant
  reference : ∀ key index property, rule.action = some ⟨key, .child index property⟩ →
    index < rule.body.terms.length

namespace Production

/-- A term is read as a literal just if its symbol is one. -/
theorem isSome_literal?_iff (term : Term) :
    (literal? term).isSome = true ↔ term.symbol.kind = .constant := by
  cases term <;> simp [literal?, Term.symbol]

/-- A body has the terms it is made of, unless these are all literals. Those are put together to a
row of words. -/
theorem terms_of_body? {terms : List Term} {body : TermBody} (h : body? terms = some body) :
    if terms.all fun term => (literal? term).isSome then body.terms = []
    else body.terms = terms := by
  unfold body? at h
  split_ifs at h ⊢ with hAll
  · cases h
    rfl
  · split at h
    · cases h
      rfl
    · cases h
      rfl
    · cases h

/-- The terms of a choice are those of slots. -/
theorem mem_of_mem_selections {slots : List (Slot × Nat)} {selection : List (Term × Nat)}
    (h : selection ∈ selections slots) :
    ∀ entry ∈ selection, ∃ slot ∈ slots, slot.1.term = entry.1 := by
  induction slots generalizing selection with
  | nil =>
      rw [selections, List.mem_singleton] at h
      simp [h]
  | cons slot slots ih =>
      rw [selections, List.mem_append, List.mem_map] at h
      rcases h with h | ⟨rest, hRest, rfl⟩
      · split_ifs at h
        · intro entry hEntry
          obtain ⟨found, hFound, hTerm⟩ := ih h entry hEntry
          exact ⟨found, List.mem_cons_of_mem slot hFound, hTerm⟩
        · cases h
      · rw [List.forall_mem_cons]
        refine ⟨⟨slot, List.mem_cons_self, rfl⟩, fun entry hEntry => ?_⟩
        obtain ⟨found, hFound, hTerm⟩ := ih hRest entry hEntry
        exact ⟨found, List.mem_cons_of_mem slot hFound, hTerm⟩

/-- A reference that is left is to a term of the choice. References are counted anew when slots
are left out. -/
theorem lt_length_of_follow {selection : List (Term × Nat)} {action : Action} {key property : String}
    {index : Nat} (h : follow selection action = some ⟨key, .child index property⟩) :
    index < selection.length := by
  obtain ⟨_, value⟩ := action
  cases value with
  | literal text => simp [follow] at h
  | child place property =>
      obtain ⟨found, hFound, hAction⟩ := Option.map_eq_some_iff.1 h
      cases hAction
      exact (List.findIdx?_eq_some_iff_getElem.1 hFound).1

/-- The rules of an alternative are proper if it fits together and its terms are spelled well. -/
theorem Row.proper_of_mem_rules {row : Row} (hFits : row.Fits)
    (hSlots : ∀ slot ∈ row.slots, slot.term.symbol.WellSpelled) {rule : TermRule}
    (h : rule ∈ row.rules) : rule.Proper := by
  obtain ⟨selection, hSelection, h⟩ := List.mem_filterMap.1 h
  obtain ⟨body, hBody, rfl⟩ := Option.map_eq_some_iff.1 h
  have hSuits := hFits.choice selection hSelection
  have hTerms := terms_of_body? hBody
  rw [Suits] at hSuits
  by_cases hAll : (selection.map Prod.fst).all (fun term => (literal? term).isSome) = true
  · rw [if_pos hAll] at hSuits hTerms
    refine ⟨by simp [hTerms], fun hSome => absurd hTerms hSome, ?_⟩
    intro key index property hAction
    simpa [Action.refers] using hSuits _ hAction
  · rw [if_neg hAll] at hSuits hTerms
    refine ⟨?_, fun _ => ?_, ?_⟩
    · intro term hTerm
      rw [hTerms] at hTerm
      obtain ⟨entry, hEntry, rfl⟩ := List.mem_map.1 hTerm
      obtain ⟨⟨slot, position⟩, hSlot, hSame⟩ :=
        mem_of_mem_selections (List.mem_filter.1 hSelection).1 entry hEntry
      exact hSame ▸ hSlots slot (List.fst_mem_of_mem_zipIdx hSlot)
    · rw [hTerms]
      simpa [isSome_literal?_iff] using hAll
    · intro key index property hAction
      obtain ⟨action, -, hFollow⟩ := Option.bind_eq_some_iff.1 hAction
      rw [hTerms, List.length_map]
      exact lt_length_of_follow hFollow

theorem wellSpelled_of_readTerm {production : String} {name : List Char} {term : Term}
    (h : readTerm production name = .ok term) : term.symbol.WellSpelled := by
  unfold readTerm at h
  split at h
  · cases h
  · split at h
    · cases h
      trivial
    · cases h
  · split at h
    · cases h
    · cases h
      simp [Term.symbol, Symbol.WellSpelled]
  · next hBlank hQuote hSign =>
    cases h
    cases name with
    | nil => exact absurd rfl hBlank
    | cons c rest =>
        simp only [Term.symbol, Symbol.WellSpelled, String.toList_ofList, List.head?_cons, ne_eq,
          Option.some.injEq]
        exact ⟨fun hc => hQuote rest (hc ▸ rfl), fun hc => hSign rest (hc ▸ rfl)⟩

theorem wellSpelled_of_readSlot {production : String} {word : List Char} {slot : Slot}
    (h : readSlot production word = .ok slot) : slot.term.symbol.WellSpelled := by
  unfold readSlot at h
  split at h
  all_goals
    obtain ⟨term, hTerm, rfl⟩ := map_eq_ok_iff.1 h
    exact wellSpelled_of_readTerm hTerm

/-- An alternative that has been read gives proper rules only. -/
theorem proper_of_readAlternative {production : String} {alternative : List Char}
    {rules : List TermRule} (h : readAlternative production alternative = .ok rules) :
    ∀ rule ∈ rules, rule.Proper := by
  obtain ⟨body, row, -, hSlots, -, hFits, rfl⟩ := readAlternative_eq_ok_iff.1 h
  intro rule hRule
  apply Row.proper_of_mem_rules hFits _ hRule
  intro slot hSlot
  obtain ⟨word, -, hWord⟩ := exists_mem_of_forall₂ (mapM_eq_ok_iff.1 hSlots) hSlot
  exact wellSpelled_of_readSlot hWord

/-- The name of a production begins with neither mark, so its spelling tells that it is a
nonterminal. -/
theorem wellSpelled_of_isSymbolName {name : List Char} (h : isSymbolName name = true) :
    Symbol.WellSpelled ⟨String.ofList name, .nonterminal⟩ := by
  cases name with
  | nil => cases h
  | cons c rest =>
      simp only [isSymbolName, Bool.and_eq_true, bne_iff_ne, ne_eq] at h
      simpa [Symbol.WellSpelled] using h.1

/-- A production that has been read stands for a nonterminal and has the rules that can be
written. So nothing of the reading of texts is needed from here on. -/
theorem proper_of_read {text : String} {production : Production} (h : read text = .ok production) :
    Symbol.WellSpelled ⟨production.lhs, .nonterminal⟩ ∧ ∀ rule ∈ production.rules, rule.Proper := by
  obtain ⟨lhs, rhs, rules, -, hName, -, hRules, rfl⟩ := readChars_eq_ok_iff.1 h
  refine ⟨wellSpelled_of_isSymbolName hName, fun rule hRule => ?_⟩
  obtain ⟨alternative, hAlternative, hRule⟩ := List.mem_flatten.1 hRule
  obtain ⟨chars, -, hChars⟩ := exists_mem_of_forall₂ hRules hAlternative
  exact proper_of_readAlternative hChars rule hRule

theorem wellSpelled_symbols {production : Production}
    (hLhs : Symbol.WellSpelled ⟨production.lhs, .nonterminal⟩)
    (hRules : ∀ rule ∈ production.rules, rule.Proper) :
    ∀ symbol ∈ production.symbols, symbol.WellSpelled := by
  rw [Production.symbols, List.forall_mem_cons]
  refine ⟨hLhs, fun symbol hSymbol => ?_⟩
  obtain ⟨rule, hRule, hSymbol⟩ := List.mem_flatMap.1 hSymbol
  obtain ⟨term, hTerm, rfl⟩ := List.mem_map.1 hSymbol
  exact (hRules rule hRule).wellSpelled term hTerm

end Production

namespace RuleSet

/-- A text is read where its productions are. They are numbered from the last one to the first. -/
theorem read_eq_ok_iff {text : String} {set : RuleSet} :
    read text = .ok set ↔ ∃ productions : List Production,
      List.Forall₂ (fun text production => Production.read text = .ok production)
        (productionTexts text).reverse productions ∧ set = ofProductions productions := by
  rw [read, map_eq_ok_iff]
  simp only [mapM_eq_ok_iff, @eq_comm _ (ofProductions _)]

/-- What numbering has made of a text. The set holds the symbols of its productions and their
rules, and the rules of literals. -/
theorem numbers_of_read {text : String} {set : RuleSet} (h : read text = .ok set) :
    ∃ productions : List Production,
      set.Numbers (productions.flatMap Production.symbols) (productions.flatMap Production.written) ∧
        ∀ production ∈ productions, ∀ rule ∈ production.rules, rule.Proper := by
  obtain ⟨productions, hRead, rfl⟩ := read_eq_ok_iff.1 h
  have hProper (production : Production) (hProduction : production ∈ productions) :
      Symbol.WellSpelled ⟨production.lhs, .nonterminal⟩ ∧
        ∀ rule ∈ production.rules, rule.Proper := by
    obtain ⟨text, -, hText⟩ := exists_mem_of_forall₂ hRead hProduction
    exact Production.proper_of_read hText
  refine ⟨productions, numbers_ofProductions fun production hProduction => ?_,
    fun production hProduction => (hProper production hProduction).2⟩
  exact Production.wellSpelled_symbols (hProper production hProduction).1
    (hProper production hProduction).2

end RuleSet

/-- The symbols on the right side of a rule that are derived by other rules or by annotators. -/
def RuleBody.children : RuleBody → List SymbolId
  | words _ => []
  | unary child => [child]
  | binary left right => [left, right]

/-- Where a rule has its children, its assignment fails only because the child that it refers to does
not have the key. -/
def Rule.FindsChildren (rule : Rule) : Prop :=
  ∀ action ∈ rule.action, ∀ children : List Semantics,
    children.length = rule.body.children.length → action.resolve children = none →
      ∃ index property child, action.value = .child index property ∧
        children[index]? = some child ∧ child.get? property = none

namespace SymbolTable

variable {table : SymbolTable}

/-- A body that can be read has the numbers of its terms. They stand in the order of the terms. -/
theorem map_get?_children {body : RuleBody} {written : TermBody}
    (h : table.body? body = some written) :
    body.children.map table.get? = written.terms.map fun term => some term.symbol := by
  cases body with
  | words literals =>
      cases h
      rfl
  | unary child =>
      obtain ⟨symbol, hSymbol, rfl⟩ := Option.map_eq_some_iff.1 h
      simp [RuleBody.children, TermBody.terms, hSymbol]
  | binary left right =>
      obtain ⟨symbol, hSymbol, h⟩ := Option.bind_eq_some_iff.1 h
      obtain ⟨symbol', hSymbol', rfl⟩ := Option.map_eq_some_iff.1 h
      simp [RuleBody.children, TermBody.terms, hSymbol, hSymbol']

theorem length_children {body : RuleBody} {written : TermBody}
    (h : table.body? body = some written) : body.children.length = written.terms.length := by
  simpa using congrArg List.length (map_get?_children h)

/-- A child of a rule is the number of a term. Its symbol tells what kind of child it is. -/
theorem exists_term_of_mem_children {body : RuleBody} {written : TermBody}
    (h : table.body? body = some written) {id : SymbolId} (hId : id ∈ body.children) :
    ∃ term ∈ written.terms, table.get? id = some term.symbol := by
  have hMem := List.mem_map_of_mem (f := table.get?) hId
  rw [map_get?_children h, List.mem_map] at hMem
  obtain ⟨term, hTerm, hSymbol⟩ := hMem
  exact ⟨term, hTerm, hSymbol.symm⟩

/-- The number of a term is a child of its rule. -/
theorem mem_children_of_mem_terms {body : RuleBody} {written : TermBody}
    (h : table.body? body = some written) {term : Term} (hTerm : term ∈ written.terms)
    {id : SymbolId} (hId : table.get? id = some term.symbol) : id ∈ body.children := by
  have hMem := List.mem_map_of_mem (f := fun term : Term => some term.symbol) hTerm
  rw [← map_get?_children h, List.mem_map] at hMem
  obtain ⟨id', hMem, hSymbol⟩ := hMem
  exact get?_injective hId hSymbol ▸ hMem

end SymbolTable

namespace RuleSet

/-- Rules as they can come of a text. -/
structure WellFormed (set : RuleSet) : Prop where
  /-- Every number in a rule has a symbol. -/
  rule_ids : ∀ rule ∈ set.rules,
    rule.lhs < set.symbols.size ∧ ∀ id ∈ rule.body.children, id < set.symbols.size
  placeholder_ids : ∀ id ∈ set.placeholders, id < set.symbols.size
  /-- A reference is to a child of its rule, so rows of words have none. -/
  reference : ∀ rule ∈ set.rules, ∀ key index property,
    rule.action = some ⟨key, .child index property⟩ → index < rule.body.children.length
  /-- The rules in front derive single literals, and assign nothing. -/
  literalRules : ∀ rule ∈ set.literalRules, rule.action = none ∧ ∃ word,
    rule.body = .words [word] ∧ set.symbols.get? rule.lhs = some ⟨word, .constant⟩
  /-- The other rules derive nonterminals. -/
  productionRules : ∀ rule ∈ set.productionRules, ∃ name,
    set.symbols.get? rule.lhs = some ⟨name, .nonterminal⟩
  /-- A literal stands beside another symbol in some rule, and has one rule of its own. -/
  constants : ∀ id word, set.symbols.get? id = some ⟨word, .constant⟩ →
    (∃ rule ∈ set.rules, ∃ left right, rule.body = .binary left right ∧ (id = left ∨ id = right)) ∧
      set.literalRules.filter (·.lhs = id) = [literalRule id word]
  /-- A literal is not the only child of a rule. -/
  unary : ∀ rule ∈ set.rules, ∀ child, rule.body = .unary child →
    ∀ word, set.symbols.get? child ≠ some ⟨word, .constant⟩
  placeholders_nodup : set.placeholders.Nodup
  /-- The symbols of annotators that are noted are those that rules use. -/
  mem_placeholders : ∀ id, id ∈ set.placeholders ↔
    (∃ name, set.symbols.get? id = some ⟨name, .placeholder⟩) ∧
      ∃ rule ∈ set.rules, id ∈ rule.body.children

variable {set : RuleSet} {mentioned : List Symbol} {written : List (Symbol × TermRule)}

/-- Each rule of a set comes from one that has been written. -/
theorem Numbers.exists_written (h : set.Numbers mentioned written) {rule : Rule}
    (hRule : rule ∈ set.productionRules) :
    ∃ lhs source, (lhs, source) ∈ written ∧ set.symbols.get? rule.lhs = some lhs ∧
      set.symbols.body? rule.body = some source.body ∧ rule.action = source.action := by
  have hMem := List.mem_map_of_mem (f := set.symbols.rule?) hRule
  rw [h.rules_eq, List.mem_map] at hMem
  obtain ⟨⟨lhs, source⟩, hWritten, hSource⟩ := hMem
  exact ⟨lhs, source, hWritten, SymbolTable.rule?_eq_some_iff.1 hSource.symm⟩

/-- Each rule that has been written is in the set, under numbers. -/
theorem Numbers.exists_numbered (h : set.Numbers mentioned written) {lhs : Symbol}
    {source : TermRule} (hWritten : (lhs, source) ∈ written) :
    ∃ rule ∈ set.productionRules, set.symbols.body? rule.body = some source.body := by
  have hMem := List.mem_map_of_mem (f := some) hWritten
  rw [← h.rules_eq, List.mem_map] at hMem
  obtain ⟨rule, hRule, hSource⟩ := hMem
  exact ⟨rule, hRule, (SymbolTable.rule?_eq_some_iff.1 hSource).2.1⟩

/-- The rules of literals are those of the literals among the symbols. -/
theorem Numbers.mem_literalRules_iff (h : set.Numbers mentioned written) {rule : Rule} :
    rule ∈ set.literalRules ↔ ∃ id word, set.symbols.get? id = some ⟨word, .constant⟩ ∧
      rule = literalRule id word := by
  rw [h.literalRules_eq, List.mem_map]
  constructor
  · rintro ⟨⟨⟨word, kind⟩, id⟩, hEntry, rfl⟩
    obtain ⟨hGet, rfl⟩ := SymbolTable.mem_ofKind.1 hEntry
    exact ⟨id, word, hGet, rfl⟩
  · rintro ⟨id, word, hGet, rfl⟩
    exact ⟨(⟨word, .constant⟩, id), SymbolTable.mem_ofKind.2 ⟨hGet, rfl⟩, rfl⟩

/-- No literal has two rules. -/
theorem Numbers.nodup_literalRules (h : set.Numbers mentioned written) :
    (set.literalRules.map Rule.lhs).Nodup := by
  have hHeads : set.literalRules.map Rule.lhs = (set.symbols.ofKind .constant).map Prod.snd := by
    simp [h.literalRules_eq, literalRule]
  rw [hHeads]
  exact SymbolTable.nodup_ofKind _ _

variable {productions : List Production}

/-- A rule of a set comes of a production, with which it shares its form. References are those of
the production. -/
theorem Numbers.exists_proper
    (h : set.Numbers mentioned (productions.flatMap Production.written))
    (hProper : ∀ production ∈ productions, ∀ rule ∈ production.rules, rule.Proper) {rule : Rule}
    (hRule : rule ∈ set.productionRules) :
    ∃ (name : String) (source : TermRule), source.Proper ∧
      set.symbols.get? rule.lhs = some ⟨name, .nonterminal⟩ ∧
        set.symbols.body? rule.body = some source.body ∧ rule.action = source.action := by
  obtain ⟨lhs, source, hWritten, hLhs, hBody, hAction⟩ := h.exists_written hRule
  obtain ⟨production, hProduction, hWritten⟩ := List.mem_flatMap.1 hWritten
  obtain ⟨_, hSource, hSame⟩ := List.mem_map.1 hWritten
  cases hSame
  exact ⟨production.lhs, source, hProper production hProduction source hSource, hLhs, hBody, hAction⟩

/-- A literal or a symbol of an annotator has its number because some rule uses it. A nonterminal
may have its number only because a production is named by it. -/
theorem Numbers.exists_use
    (h : set.Numbers (productions.flatMap Production.symbols)
      (productions.flatMap Production.written)) {id : SymbolId} {symbol : Symbol}
    (hSymbol : set.symbols.get? id = some symbol) (hKind : symbol.kind ≠ .nonterminal) :
    ∃ rule ∈ set.productionRules, id ∈ rule.body.children := by
  have hMem : symbol ∈ set.symbols.symbols := SymbolTable.mem_symbols_iff.2 ⟨id, hSymbol⟩
  rw [h.symbols_eq, List.mem_eraseDups] at hMem
  obtain ⟨production, hProduction, hMem⟩ := List.mem_flatMap.1 hMem
  rcases List.mem_cons.1 hMem with rfl | hMem
  · exact absurd rfl hKind
  · obtain ⟨source, hSource, hMem⟩ := List.mem_flatMap.1 hMem
    obtain ⟨term, hTerm, rfl⟩ := List.mem_map.1 hMem
    obtain ⟨rule, hRule, hBody⟩ := h.exists_numbered
      (List.mem_flatMap.2 ⟨production, hProduction, List.mem_map.2 ⟨source, hSource, rfl⟩⟩)
    exact ⟨rule, hRule, SymbolTable.mem_children_of_mem_terms hBody hTerm hSymbol⟩

/-- No unary rule has a literal as its child, since one literal alone makes a rule of words. -/
theorem Numbers.get?_ne_constant_of_unary
    (h : set.Numbers mentioned (productions.flatMap Production.written))
    (hProper : ∀ production ∈ productions, ∀ rule ∈ production.rules, rule.Proper) {rule : Rule}
    (hRule : rule ∈ set.productionRules) {child : SymbolId} (hChild : rule.body = .unary child)
    (word : String) : set.symbols.get? child ≠ some ⟨word, .constant⟩ := by
  intro hWord
  obtain ⟨_, source, hSource, -, hBody, -⟩ := h.exists_proper hProper hRule
  rw [hChild] at hBody
  have hTerms := SymbolTable.map_get?_children hBody
  rw [RuleBody.children, List.map_singleton, hWord, eq_comm, List.map_eq_singleton_iff] at hTerms
  obtain ⟨term, hTerms, hTerm⟩ := hTerms
  obtain ⟨other, hOther, hKind⟩ := hSource.mixed (by simp [hTerms])
  rw [hTerms, List.mem_singleton] at hOther
  rw [hOther, Option.some.inj hTerm] at hKind
  exact hKind rfl

/-- A set has the form that its productions have. Each part of it is read off the productions by
way of the numbers. -/
theorem Numbers.wellFormed
    (h : set.Numbers (productions.flatMap Production.symbols)
      (productions.flatMap Production.written))
    (hProper : ∀ production ∈ productions, ∀ rule ∈ production.rules, rule.Proper) :
    set.WellFormed := by
  constructor
  case rule_ids =>
    intro rule hRule
    rcases List.mem_append.1 hRule with hRule | hRule
    · obtain ⟨id, word, hWord, rfl⟩ := h.mem_literalRules_iff.1 hRule
      exact ⟨SymbolTable.lt_size_of_get? hWord, by simp [literalRule, RuleBody.children]⟩
    · obtain ⟨_, source, -, hLhs, hBody, -⟩ := h.exists_proper hProper hRule
      refine ⟨SymbolTable.lt_size_of_get? hLhs, fun id hId => ?_⟩
      obtain ⟨term, -, hTerm⟩ := SymbolTable.exists_term_of_mem_children hBody hId
      exact SymbolTable.lt_size_of_get? hTerm
  case placeholder_ids =>
    intro id hId
    rw [h.placeholders_eq] at hId
    obtain ⟨⟨symbol, _⟩, hEntry, rfl⟩ := List.mem_map.1 hId
    exact SymbolTable.lt_size_of_get? (SymbolTable.mem_ofKind.1 hEntry).1
  case reference =>
    intro rule hRule key index property hAction
    rcases List.mem_append.1 hRule with hRule | hRule
    · obtain ⟨id, word, hWord, rfl⟩ := h.mem_literalRules_iff.1 hRule
      cases hAction
    · obtain ⟨_, source, hSource, -, hBody, hSame⟩ := h.exists_proper hProper hRule
      rw [SymbolTable.length_children hBody]
      exact hSource.reference key index property (hSame ▸ hAction)
  case literalRules =>
    intro rule hRule
    obtain ⟨id, word, hWord, rfl⟩ := h.mem_literalRules_iff.1 hRule
    exact ⟨rfl, word, rfl, hWord⟩
  case productionRules =>
    intro rule hRule
    obtain ⟨name, _, -, hLhs, -⟩ := h.exists_proper hProper hRule
    exact ⟨name, hLhs⟩
  case constants =>
    intro id word hWord
    constructor
    · obtain ⟨rule, hRule, hId⟩ := h.exists_use hWord (by simp)
      refine ⟨rule, List.mem_append_right _ hRule, ?_⟩
      cases hBody : rule.body with
      | words literals => simp [hBody, RuleBody.children] at hId
      | unary child =>
          rw [hBody, RuleBody.children, List.mem_singleton] at hId
          exact absurd hWord (hId ▸ h.get?_ne_constant_of_unary hProper hRule hBody word)
      | binary left right => exact ⟨left, right, rfl, by simpa [hBody, RuleBody.children] using hId⟩
    · exact filter_eq_singleton_of_nodup h.nodup_literalRules
        (h.mem_literalRules_iff.2 ⟨id, word, hWord, rfl⟩)
  case unary =>
    intro rule hRule child hChild
    rcases List.mem_append.1 hRule with hRule | hRule
    · obtain ⟨id, word, hWord, rfl⟩ := h.mem_literalRules_iff.1 hRule
      cases hChild
    · exact h.get?_ne_constant_of_unary hProper hRule hChild
  case placeholders_nodup =>
    rw [h.placeholders_eq]
    exact SymbolTable.nodup_ofKind _ _
  case mem_placeholders =>
    intro id
    rw [h.placeholders_eq, List.mem_map]
    constructor
    · rintro ⟨⟨⟨name, kind⟩, id⟩, hEntry, rfl⟩
      obtain ⟨hGet, rfl⟩ := SymbolTable.mem_ofKind.1 hEntry
      obtain ⟨rule, hRule, hId⟩ := h.exists_use hGet (by simp)
      exact ⟨⟨name, hGet⟩, rule, List.mem_append_right _ hRule, hId⟩
    · rintro ⟨⟨name, hGet⟩, -⟩
      exact ⟨(⟨name, .placeholder⟩, id), SymbolTable.mem_ofKind.2 ⟨hGet, rfl⟩, rfl⟩

/-- An assignment that refers to one of the children fails only where this child lacks the key.
There is such a child, because the reference is to one of the terms. -/
theorem WellFormed.findsChildren (h : set.WellFormed) {rule : Rule} (hRule : rule ∈ set.rules) :
    rule.FindsChildren := by
  intro action hAction children hLength hFails
  obtain ⟨key, value⟩ := action
  cases value with
  | literal text => cases hFails
  | child index property =>
      have hIndex := h.reference rule hRule key index property hAction
      rw [← hLength] at hIndex
      have hChild := List.getElem?_eq_getElem hIndex
      simp only [Action.resolve, hChild, Option.bind_some] at hFails
      exact ⟨index, property, children[index], rfl, hChild, hFails⟩

/-- A text that can be read has well-formed rules, whose references find their children. Nothing
else is asked of the text. -/
theorem wellFormed_of_read {text : String} {set : RuleSet} (h : read text = .ok set) :
    set.WellFormed ∧ ∀ rule ∈ set.rules, rule.FindsChildren := by
  obtain ⟨productions, hNumbers, hProper⟩ := numbers_of_read h
  have hForm := hNumbers.wellFormed hProper
  exact ⟨hForm, fun rule hRule => hForm.findsChildren hRule⟩

/-- A text with a symbol that may be left out, references, and a literal beside another symbol. -/
def orderText : String :=
  "Root := Order Rest? \x7bkey : $0.Value\x7d ; Rest := \"by\" $column \x7bcolumn : $1.Value\x7d ;
   Order := \"sort\" | \"sort\" \"by\""

/-- Leaving out the optional slot makes a unary rule, and its reference to the other slot
stays. -/
theorem wellFormed_of_read_orderText :
    ∃ set, read orderText = .ok set ∧ set.placeholders = [3] ∧
      set.literalRules = [literalRule 2 "by"] ∧
      set.productionRules =
        [⟨0, .words ["sort"], none⟩, ⟨0, .words ["sort", "by"], none⟩,
          ⟨1, .binary 2 3, some ⟨"column", .child 1 "Value"⟩⟩,
          ⟨4, .unary 0, some ⟨"key", .child 0 "Value"⟩⟩,
          ⟨4, .binary 0 1, some ⟨"key", .child 0 "Value"⟩⟩] ∧
      set.WellFormed ∧ ∀ rule ∈ set.rules, rule.FindsChildren := by
  have hRun : (match read orderText with
      | .ok set => set.placeholders == [3] && set.literalRules == [literalRule 2 "by"] &&
          set.productionRules ==
            [⟨0, .words ["sort"], none⟩, ⟨0, .words ["sort", "by"], none⟩,
              ⟨1, .binary 2 3, some ⟨"column", .child 1 "Value"⟩⟩,
              ⟨4, .unary 0, some ⟨"key", .child 0 "Value"⟩⟩,
              ⟨4, .binary 0 1, some ⟨"key", .child 0 "Value"⟩⟩]
      | .error _ => false) = true := by decide +kernel
  split at hRun
  · next set hRead =>
    simp only [Bool.and_eq_true, beq_iff_eq] at hRun
    obtain ⟨⟨hPlaceholders, hLiterals⟩, hRules⟩ := hRun
    exact ⟨set, hRead, hPlaceholders, hLiterals, hRules, wellFormed_of_read hRead⟩
  · cases hRun

end RuleSet

end PlotQuery
