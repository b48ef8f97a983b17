import Mathlib.Data.List.Induction
import PlotQuery.Proofs.SymbolTables

/-! What numbering leaves of productions. Read through the table of symbols the numbered rules are the
rules as they were written. The table has the symbols of the productions in the order of their first
appearance, and the literals and the placeholders among them are those with a rule of their own and
those that are noted. -/
namespace PlotQuery

def Symbol.term (symbol : Symbol) : Term :=
  match symbol.kind with
  | .nonterminal => .nonterminal symbol.name
  | .constant => .literal symbol.name
  | .placeholder => .placeholder symbol.name

@[simp] theorem Term.term_symbol (term : Term) : term.symbol.term = term := by
  cases term <;> rfl

namespace SymbolTable

/-- A body with the terms for the symbols in place of their numbers. -/
def body? (table : SymbolTable) : RuleBody → Option TermBody
  | .words literals => some (.words literals)
  | .unary child => (table.get? child).map fun child => .unary child.term
  | .binary left right => (table.get? left).bind fun left =>
      (table.get? right).map fun right => .binary left.term right.term

/-- A rule read through the table: the symbol on its left side and the rule before numbering. -/
def rule? (table : SymbolTable) (rule : Rule) : Option (Symbol × TermRule) :=
  (table.get? rule.lhs).bind fun lhs =>
    (table.body? rule.body).map fun body => (lhs, ⟨body, rule.action⟩)

/-- Every symbol of the first table has its number in the second one. -/
def Keeps (before after : SymbolTable) : Prop :=
  ∀ id symbol, before.get? id = some symbol → after.get? id = some symbol

variable {a b c : SymbolTable}

theorem Keeps.refl (a : SymbolTable) : Keeps a a :=
  fun _ _ h => h

theorem Keeps.trans (hab : Keeps a b) (hbc : Keeps b c) : Keeps a c :=
  fun id symbol h => hbc id symbol (hab id symbol h)

theorem keeps_intern (table : SymbolTable) (symbol : Symbol) :
    Keeps table (table.intern symbol).1 :=
  fun _ _ h => get?_intern_of_get? h symbol

/-- A body that can be read through a table is read the same through a larger one. -/
theorem Keeps.body? (h : Keeps a b) {body : RuleBody} {written : TermBody}
    (hBody : a.body? body = some written) : b.body? body = some written := by
  cases body with
  | words literals => exact hBody
  | unary child =>
      obtain ⟨symbol, hSymbol, rfl⟩ := Option.map_eq_some_iff.1 hBody
      simp [SymbolTable.body?, h _ _ hSymbol]
  | binary left right =>
      obtain ⟨symbol, hSymbol, hBody⟩ := Option.bind_eq_some_iff.1 hBody
      obtain ⟨symbol', hSymbol', rfl⟩ := Option.map_eq_some_iff.1 hBody
      simp [SymbolTable.body?, h _ _ hSymbol, h _ _ hSymbol']

/-- A rule can be read through a table if its symbol and its body can. -/
theorem rule?_eq_some_iff {rule : Rule} {lhs : Symbol} {written : TermRule} :
    a.rule? rule = some (lhs, written) ↔ a.get? rule.lhs = some lhs ∧
      a.body? rule.body = some written.body ∧ rule.action = written.action := by
  obtain ⟨body, action⟩ := written
  simp [rule?, Option.bind_eq_some_iff, Option.map_eq_some_iff]

theorem Keeps.rule? (h : Keeps a b) {rule : Rule} {written : Symbol × TermRule}
    (hRule : a.rule? rule = some written) : b.rule? rule = some written := by
  obtain ⟨hLhs, hBody, hAction⟩ := rule?_eq_some_iff.1 hRule
  exact rule?_eq_some_iff.2 ⟨h _ _ hLhs, h.body? hBody, hAction⟩

/-- Rules that can be read through a table are read the same through a larger one. So nothing has
to be read again when symbols are added. -/
theorem Keeps.map_rule? (h : Keeps a b) {rules : List Rule} {written : List (Symbol × TermRule)}
    (hRules : rules.map a.rule? = written.map some) : rules.map b.rule? = written.map some := by
  induction rules generalizing written with
  | nil => simpa using hRules
  | cons rule rules ih =>
      cases written with
      | nil => cases hRules
      | cons first written =>
          simp only [List.map_cons, List.cons.injEq] at hRules ⊢
          exact ⟨h.rule? hRules.1, ih hRules.2⟩

end SymbolTable

/-- The symbols of a production in the order in which they are numbered. -/
def Production.symbols (production : Production) : List Symbol :=
  ⟨production.lhs, .nonterminal⟩ ::
    production.rules.flatMap fun rule => rule.body.terms.map Term.symbol

def Production.written (production : Production) : List (Symbol × TermRule) :=
  production.rules.map fun rule => (⟨production.lhs, .nonterminal⟩, rule)

namespace RuleSet

/-- The set has numbered the given symbols and the given rules, in this order. -/
structure Numbers (set : RuleSet) (mentioned : List Symbol) (written : List (Symbol × TermRule)) :
    Prop where
  wellSpelled : ∀ symbol ∈ mentioned, symbol.WellSpelled
  symbols_eq : set.symbols.symbols = mentioned.eraseDups
  literalRules_eq : set.literalRules =
    (set.symbols.ofKind .constant).map fun entry => literalRule entry.2 entry.1.name
  placeholders_eq : set.placeholders = (set.symbols.ofKind .placeholder).map Prod.snd
  rules_eq : set.productionRules.map set.symbols.rule? = written.map some

variable {set : RuleSet} {mentioned : List Symbol} {written : List (Symbol × TermRule)}

/-- At the start nothing has been numbered. -/
theorem numbers_empty : empty.Numbers [] [] :=
  ⟨by simp, rfl, rfl, rfl, rfl⟩

theorem Numbers.wellSpelled_symbols (h : set.Numbers mentioned written) :
    ∀ symbol ∈ set.symbols.symbols, symbol.WellSpelled := by
  intro symbol hSymbol
  rw [h.symbols_eq, List.mem_eraseDups] at hSymbol
  exact h.wellSpelled symbol hSymbol

/-- A symbol that is numbered stands behind those mentioned before it, unless it is one of
them. -/
theorem Numbers.symbols_intern (h : set.Numbers mentioned written) {symbol : Symbol}
    (hSymbol : symbol.WellSpelled) :
    (set.symbols.intern symbol).1.symbols = (mentioned ++ [symbol]).eraseDups := by
  rw [SymbolTable.symbols_intern h.wellSpelled_symbols hSymbol, h.symbols_eq, eraseDups_append_left]

/-- A nonterminal is numbered, and nothing else changes. -/
theorem Numbers.intern (h : set.Numbers mentioned written) {name : String}
    (hName : Symbol.WellSpelled ⟨name, .nonterminal⟩) :
    Numbers { set with symbols := (set.symbols.intern ⟨name, .nonterminal⟩).1 }
      (mentioned ++ [⟨name, .nonterminal⟩]) written := by
  have hOther {kind : SymbolKind} (hKind : SymbolKind.nonterminal ≠ kind) :=
    SymbolTable.ofKind_intern_of_ne h.wellSpelled_symbols hName hKind
  exact {
    wellSpelled := by simpa [or_imp, forall_and, hName] using h.wellSpelled
    symbols_eq := h.symbols_intern hName
    literalRules_eq := by simpa [hOther] using h.literalRules_eq
    placeholders_eq := by simpa [hOther] using h.placeholders_eq
    rules_eq := (set.symbols.keeps_intern _).map_rule? h.rules_eq }

/-- A variable is noted the first time that it is mentioned. -/
theorem placeholders_addTerm (set : RuleSet) (name : String) :
    (set.addTerm (.placeholder name)).1.placeholders =
      if (set.symbols.intern ⟨name, .placeholder⟩).2 ∈ set.placeholders then set.placeholders
      else set.placeholders ++ [(set.symbols.intern ⟨name, .placeholder⟩).2] := by
  simp [addTerm]

/-- A word gets a rule of its own the first time that it is mentioned. -/
theorem literalRules_addTerm (set : RuleSet) (word : String) :
    (set.addTerm (.literal word)).1.literalRules =
      if (set.symbols.intern ⟨word, .constant⟩).2 ∈ set.literalRules.map Rule.lhs then
        set.literalRules
      else set.literalRules ++ [literalRule (set.symbols.intern ⟨word, .constant⟩).2 word] := by
  simp [addTerm]

/-- A term is numbered. If it is new it gets a rule or a note, as its kind asks for. Its spelling
tells its kind, so no other symbol has the spelling. -/
theorem Numbers.addTerm (h : set.Numbers mentioned written) {term : Term}
    (hTerm : term.symbol.WellSpelled) :
    (set.addTerm term).1.Numbers (mentioned ++ [term.symbol]) written := by
  have hOther {kind : SymbolKind} (hKind : term.symbol.kind ≠ kind) :=
    SymbolTable.ofKind_intern_of_ne h.wellSpelled_symbols hTerm hKind
  have hSpelled : ∀ symbol ∈ mentioned ++ [term.symbol], symbol.WellSpelled := by
    simpa [or_imp, forall_and, hTerm] using h.wellSpelled
  have hRules := (set.symbols.keeps_intern term.symbol).map_rule? h.rules_eq
  cases term with
  | nonterminal name => exact h.intern hTerm
  | placeholder name =>
      have hSelf : (set.symbols.intern ⟨name, .placeholder⟩).1.ofKind .placeholder = _ :=
        SymbolTable.ofKind_intern_self h.wellSpelled_symbols hTerm
      refine ⟨hSpelled, h.symbols_intern hTerm, ?_, ?_, hRules⟩
      · exact h.literalRules_eq.trans (by rw [← hOther (by simp [Term.symbol])]; rfl)
      · change _ = ((set.symbols.intern ⟨name, .placeholder⟩).1.ofKind .placeholder).map Prod.snd
        rw [hSelf, placeholders_addTerm, h.placeholders_eq]
        split_ifs <;> simp
  | literal word =>
      have hSelf : (set.symbols.intern ⟨word, .constant⟩).1.ofKind .constant = _ :=
        SymbolTable.ofKind_intern_self h.wellSpelled_symbols hTerm
      have hHeads : set.literalRules.map Rule.lhs =
          (set.symbols.ofKind .constant).map Prod.snd := by
        simp [h.literalRules_eq, literalRule]
      refine ⟨hSpelled, h.symbols_intern hTerm, ?_, ?_, hRules⟩
      · change _ = ((set.symbols.intern ⟨word, .constant⟩).1.ofKind .constant).map _
        rw [hSelf, literalRules_addTerm, hHeads, h.literalRules_eq]
        split_ifs <;> simp
      · exact h.placeholders_eq.trans (by rw [← hOther (by simp [Term.symbol])]; rfl)

theorem keeps_addTerm (set : RuleSet) (term : Term) :
    set.symbols.Keeps (set.addTerm term).1.symbols := by
  cases term <;> exact set.symbols.keeps_intern _

/-- The number of a term is one under which its symbol is found. -/
theorem Numbers.get?_addTerm (h : set.Numbers mentioned written) {term : Term}
    (hTerm : term.symbol.WellSpelled) :
    (set.addTerm term).1.symbols.get? (set.addTerm term).2 = some term.symbol := by
  have hSelf := SymbolTable.get?_intern_self h.wellSpelled_symbols hTerm
  cases term <;> exact hSelf

/-- The terms of a body are numbered from left to right, and the body can be read back. This needs
the numbers of the first term to stay when the second is added. -/
theorem Numbers.addBody (h : set.Numbers mentioned written) {body : TermBody}
    (hTerms : ∀ term ∈ body.terms, term.symbol.WellSpelled) :
    (set.addBody body).1.Numbers (mentioned ++ body.terms.map Term.symbol) written ∧
      set.symbols.Keeps (set.addBody body).1.symbols ∧
      (set.addBody body).1.symbols.body? (set.addBody body).2 = some body := by
  cases body with
  | words literals =>
      rw [TermBody.terms, List.map_nil, List.append_nil]
      exact ⟨h, SymbolTable.Keeps.refl _, rfl⟩
  | unary child =>
      have hChild := hTerms child (by simp [TermBody.terms])
      refine ⟨h.addTerm hChild, set.keeps_addTerm child, ?_⟩
      change ((set.addTerm child).1.symbols.get? (set.addTerm child).2).map _ = _
      rw [h.get?_addTerm hChild, Option.map_some, Term.term_symbol]
  | binary left right =>
      have hLeft := hTerms left (by simp [TermBody.terms])
      have hRight := hTerms right (by simp [TermBody.terms])
      have hAfterLeft := h.addTerm hLeft
      have hKeeps := (set.addTerm left).1.keeps_addTerm right
      refine ⟨?_, (set.keeps_addTerm left).trans hKeeps, ?_⟩
      · have hAfterRight := hAfterLeft.addTerm hRight
        rwa [List.append_assoc] at hAfterRight
      · change (((set.addTerm left).1.addTerm right).1.symbols.get? (set.addTerm left).2).bind _ = _
        rw [hKeeps _ _ (h.get?_addTerm hLeft), Option.bind_some]
        change (((set.addTerm left).1.addTerm right).1.symbols.get?
          ((set.addTerm left).1.addTerm right).2).map _ = _
        rw [hAfterLeft.get?_addTerm hRight, Option.map_some, Term.term_symbol, Term.term_symbol]

/-- A rule is numbered by its body and put behind the others with its action. -/
theorem addRule_eq (set : RuleSet) (lhs : SymbolId) (rule : TermRule) :
    set.addRule lhs rule = { (set.addBody rule.body).1 with
      productionRules := (set.addBody rule.body).1.productionRules ++
        [⟨lhs, (set.addBody rule.body).2, rule.action⟩] } := rfl

/-- A rule is added behind the others. Its terms are mentioned behind all others. -/
theorem Numbers.addRule (h : set.Numbers mentioned written) {lhs : Symbol} {id : SymbolId}
    (hLhs : set.symbols.get? id = some lhs) {rule : TermRule}
    (hTerms : ∀ term ∈ rule.body.terms, term.symbol.WellSpelled) :
    (set.addRule id rule).Numbers (mentioned ++ rule.body.terms.map Term.symbol)
        (written ++ [(lhs, rule)]) ∧
      set.symbols.Keeps (set.addRule id rule).symbols := by
  obtain ⟨hBody, hKeeps, hRead⟩ := h.addBody hTerms
  have hNew : (set.addBody rule.body).1.symbols.rule?
      ⟨id, (set.addBody rule.body).2, rule.action⟩ = some (lhs, rule) :=
    SymbolTable.rule?_eq_some_iff.2 ⟨hKeeps _ _ hLhs, hRead, rfl⟩
  rw [addRule_eq]
  refine ⟨⟨hBody.wellSpelled, hBody.symbols_eq, hBody.literalRules_eq, hBody.placeholders_eq, ?_⟩,
    hKeeps⟩
  rw [List.map_append, hBody.rules_eq, List.map_singleton, hNew, List.map_append,
    List.map_singleton]

/-- The rules of a production are added one by one. By induction on them. -/
theorem Numbers.foldl_addRule {lhs : Symbol} {id : SymbolId} {rules : List TermRule}
    (h : set.Numbers mentioned written) (hLhs : set.symbols.get? id = some lhs)
    (hTerms : ∀ rule ∈ rules, ∀ term ∈ rule.body.terms, term.symbol.WellSpelled) :
    (rules.foldl (RuleSet.addRule id) set).Numbers
      (mentioned ++ rules.flatMap fun rule => rule.body.terms.map Term.symbol)
      (written ++ rules.map fun rule => (lhs, rule)) := by
  induction rules generalizing set mentioned written with
  | nil => simpa using h
  | cons rule rules ih =>
      obtain ⟨hFirst, hRest⟩ := List.forall_mem_cons.1 hTerms
      obtain ⟨hRule, hKeeps⟩ := h.addRule hLhs hFirst
      have hAll := ih hRule (hKeeps _ _ hLhs) hRest
      rw [List.append_assoc, List.append_assoc] at hAll
      exact hAll

/-- A production adds its symbols and its rules. The symbol on its left is mentioned before its
terms. -/
theorem Numbers.addProduction (h : set.Numbers mentioned written) {production : Production}
    (hSymbols : ∀ symbol ∈ production.symbols, symbol.WellSpelled) :
    (set.addProduction production).Numbers (mentioned ++ production.symbols)
      (written ++ production.written) := by
  obtain ⟨hLhs, hTerms⟩ := List.forall_mem_cons.1 hSymbols
  have hSelf := SymbolTable.get?_intern_self h.wellSpelled_symbols hLhs
  have hInside : ∀ rule ∈ production.rules, ∀ term ∈ rule.body.terms, term.symbol.WellSpelled :=
    fun rule hRule term hTerm =>
      hTerms _ (List.mem_flatMap.2 ⟨rule, hRule, List.mem_map_of_mem hTerm⟩)
  have hRules := (h.intern hLhs).foldl_addRule hSelf hInside
  rw [List.append_assoc, List.singleton_append] at hRules
  exact hRules

/-- Numbered productions keep their symbols and rules, in the order in which they are taken. By
induction on the productions. -/
theorem numbers_ofProductions {productions : List Production}
    (hSymbols : ∀ production ∈ productions, ∀ symbol ∈ production.symbols, symbol.WellSpelled) :
    (ofProductions productions).Numbers (productions.flatMap Production.symbols)
      (productions.flatMap Production.written) := by
  induction productions using List.reverseRecOn with
  | nil => exact numbers_empty
  | append_singleton productions production ih =>
      have hBefore := ih fun p hp => hSymbols p (List.mem_append_left _ hp)
      have hLast := hBefore.addProduction (hSymbols production (by simp))
      simpa [ofProductions] using hLast

end RuleSet

end PlotQuery
