import PlotQuery.Proofs.GrammarReading

/-! The numbered rules of a grammar and the productions they come from. Each rule has the numbers of
the symbols that a rule of some production names, or is the rule of a literal, and no symbol that is
numbered later changes these numbers. -/
namespace PlotQuery

namespace SymbolTable

/-- Every spelling of the first table has the same number in the second one. -/
def Extends (before after : SymbolTable) : Prop :=
  ∀ spelling id, before.find? spelling = some id → after.find? spelling = some id

variable {a b c : SymbolTable}

theorem Extends.refl (a : SymbolTable) : Extends a a :=
  fun _ _ h => h

theorem Extends.trans (hab : Extends a b) (hbc : Extends b c) : Extends a c :=
  fun spelling id h => hbc spelling id (hab spelling id h)

theorem extends_intern (table : SymbolTable) (symbol : Symbol) :
    Extends table (table.intern symbol).1 :=
  fun _ _ h => find?_intern_of_find? symbol h

end SymbolTable

namespace Term

def symbol : Term → Symbol
  | nonterminal name => ⟨name, .nonterminal⟩
  | literal word => ⟨word, .constant⟩
  | placeholder name => ⟨name, .placeholder⟩

def spelling (term : Term) : String :=
  term.symbol.spelling

end Term

/-- The terms of a body that stand for symbols of their own. -/
def TermBody.terms : TermBody → List Term
  | words _ => []
  | unary child => [child]
  | binary left right => [left, right]

/-- A body of a rule has the numbers of the symbols that a body as written names. -/
inductive TermBody.NumberedAs (symbols : SymbolTable) : TermBody → RuleBody → Prop where
  | words (literals : List String) : NumberedAs symbols (.words literals) (.words literals)
  | unary {child : Term} {id : SymbolId} (found : symbols.find? child.spelling = some id) :
      NumberedAs symbols (.unary child) (.unary id)
  | binary {left right : Term} {leftId rightId : SymbolId}
      (foundLeft : symbols.find? left.spelling = some leftId)
      (foundRight : symbols.find? right.spelling = some rightId) :
      NumberedAs symbols (.binary left right) (.binary leftId rightId)

/-- Where a rule comes from: a literal beside other symbols, or a rule of a production. -/
inductive Rule.Origin (symbols : SymbolTable) (productions : List Production) : Rule → Prop where
  | literal {word : String} {id : SymbolId}
      (found : symbols.find? (Term.literal word).spelling = some id) :
      Origin symbols productions (RuleSet.literalRule id word)
  | production {production : Production} {written : TermRule} {rule : Rule}
      (listed : production ∈ productions) (member : written ∈ production.rules)
      (lhs : symbols.find? production.lhs = some rule.lhs)
      (body : written.body.NumberedAs symbols rule.body) (action : rule.action = written.action) :
      Origin symbols productions rule

/-- A body keeps its numbers when further symbols are numbered. -/
theorem TermBody.NumberedAs.mono {before after : SymbolTable} (hExtends : before.Extends after)
    {written : TermBody} {body : RuleBody} (h : written.NumberedAs before body) :
    written.NumberedAs after body := by
  cases h with
  | words literals => exact .words literals
  | unary found => exact .unary (hExtends _ _ found)
  | binary foundLeft foundRight => exact .binary (hExtends _ _ foundLeft) (hExtends _ _ foundRight)

/-- Where a rule comes from does not change when symbols and productions are added. -/
theorem Rule.Origin.mono {before after : SymbolTable} (hExtends : before.Extends after)
    {productions more : List Production} (hSubset : productions ⊆ more) {rule : Rule}
    (h : Origin before productions rule) : Origin after more rule := by
  cases h with
  | literal found => exact .literal (hExtends _ _ found)
  | production listed member lhs body action =>
      exact .production (hSubset listed) member (hExtends _ _ lhs) (body.mono hExtends) action

namespace RuleSet

/-- The second set has the numbers and rules of the first one, and beyond them only rules that come
from the productions. -/
structure Grows (productions : List Production) (before after : RuleSet) : Prop where
  numbers : before.symbols.Extends after.symbols
  rules : ∀ rule ∈ after.rules, rule ∈ before.rules ∨ rule.Origin after.symbols productions

variable {productions : List Production} {a b c : RuleSet}

theorem Grows.trans (hab : Grows productions a b) (hbc : Grows productions b c) :
    Grows productions a c where
  numbers := hab.numbers.trans hbc.numbers
  rules rule hRule := by
    rcases hbc.rules rule hRule with hRule | hOrigin
    · exact (hab.rules rule hRule).imp_right fun hOrigin =>
        hOrigin.mono hbc.numbers (List.Subset.refl productions)
    · exact .inr hOrigin

/-- A set grows if symbols are added and its rules stay. -/
theorem grows_of_rules_eq {before after : RuleSet}
    (hNumbers : before.symbols.Extends after.symbols) (hRules : after.rules = before.rules) :
    Grows productions before after :=
  ⟨hNumbers, fun _ hRule => .inl (hRules ▸ hRule)⟩

/-- Numbering a term finds its number, and adds no rule but that of a literal. A literal that is
known already adds none. -/
theorem addTerm_spec (set : RuleSet) (term : Term) :
    Grows productions set (set.addTerm term).1 ∧
      (set.addTerm term).1.symbols.find? term.spelling = some (set.addTerm term).2 := by
  have hFound := SymbolTable.find?_intern set.symbols term.symbol
  have hNumbers := set.symbols.extends_intern term.symbol
  cases term with
  | nonterminal name => exact ⟨grows_of_rules_eq hNumbers rfl, hFound⟩
  | placeholder name => exact ⟨grows_of_rules_eq hNumbers rfl, hFound⟩
  | literal word =>
      refine ⟨⟨hNumbers, fun rule hRule => ?_⟩, hFound⟩
      rcases List.mem_append.1 hRule with hRule | hRule
      · simp only [addTerm] at hRule
        split at hRule
        · exact .inl (List.mem_append_left _ hRule)
        · rcases List.mem_append.1 hRule with hRule | hRule
          · exact .inl (List.mem_append_left _ hRule)
          · rw [List.mem_singleton.1 hRule]
            exact .inr (.literal hFound)
      · exact .inl (List.mem_append_right _ hRule)

/-- Numbering a body gives its numbers, and adds no rules but those of its literals. The second
number is found in a table in which the first one still stands. -/
theorem addBody_spec (set : RuleSet) (body : TermBody) :
    Grows productions set (set.addBody body).1 ∧
      body.NumberedAs (set.addBody body).1.symbols (set.addBody body).2 := by
  cases body with
  | words literals => exact ⟨grows_of_rules_eq (.refl _) rfl, .words literals⟩
  | unary child =>
      obtain ⟨hGrows, hFound⟩ : Grows productions set (set.addTerm child).1 ∧ _ :=
        set.addTerm_spec child
      exact ⟨hGrows, .unary hFound⟩
  | binary left right =>
      obtain ⟨hLeft, hFoundLeft⟩ := set.addTerm_spec left
      obtain ⟨hRight, hFoundRight⟩ := (set.addTerm left).1.addTerm_spec right
      exact ⟨hLeft.trans hRight, .binary (hRight.numbers _ _ hFoundLeft) hFoundRight⟩

/-- A rule that a production lists comes from it. -/
theorem grows_addRule {production : Production} (hListed : production ∈ productions) {set : RuleSet}
    {lhs : SymbolId} (hLhs : set.symbols.find? production.lhs = some lhs) {written : TermRule}
    (hMember : written ∈ production.rules) : Grows productions set (addRule lhs set written) := by
  obtain ⟨hGrows, hBody⟩ : Grows productions set (set.addBody written.body).1 ∧ _ :=
    set.addBody_spec written.body
  refine ⟨hGrows.numbers, fun rule hRule => ?_⟩
  rw [addRule, rules, ← List.append_assoc] at hRule
  rcases List.mem_append.1 hRule with hRule | hRule
  · exact hGrows.rules rule hRule
  · rw [List.mem_singleton.1 hRule]
    exact .inr (.production hListed hMember (hGrows.numbers _ _ hLhs) hBody rfl)

/-- The rules of a production come from it. By induction on them, since the symbol on the left
keeps its number. -/
theorem grows_foldl_addRule {production : Production} (hListed : production ∈ productions)
    {lhs : SymbolId} {written : List TermRule}
    (hMembers : ∀ rule ∈ written, rule ∈ production.rules) {set : RuleSet}
    (hLhs : set.symbols.find? production.lhs = some lhs) :
    Grows productions set (written.foldl (addRule lhs) set) := by
  induction written generalizing set with
  | nil => exact grows_of_rules_eq (.refl _) rfl
  | cons first rest ih =>
      have hFirst := grows_addRule hListed hLhs (hMembers first List.mem_cons_self)
      exact hFirst.trans (ih (fun rule hRule => hMembers rule (List.mem_cons_of_mem first hRule))
        (hFirst.numbers _ _ hLhs))

/-- Numbering a production adds rules that come from it, and those of its literals. -/
theorem grows_addProduction {production : Production} (hListed : production ∈ productions)
    (set : RuleSet) : Grows productions set (set.addProduction production) := by
  have hIntern : Grows productions set
      { set with symbols := (set.symbols.intern ⟨production.lhs, .nonterminal⟩).1 } :=
    grows_of_rules_eq (set.symbols.extends_intern _) rfl
  exact hIntern.trans (grows_foldl_addRule hListed (fun _ hRule => hRule)
    (SymbolTable.find?_intern set.symbols ⟨production.lhs, .nonterminal⟩))

/-- Every rule of productions is the rule of a literal or one that a production lists. By
induction on the productions. -/
theorem origin_of_mem_ofProductions {rule : Rule} (h : rule ∈ (ofProductions productions).rules) :
    rule.Origin (ofProductions productions).symbols productions := by
  have hGrows (done : List Production) (hDone : done ⊆ productions) (set : RuleSet) :
      Grows productions set (done.foldl addProduction set) := by
    induction done generalizing set with
    | nil => exact grows_of_rules_eq (.refl _) rfl
    | cons production rest ih =>
        exact (grows_addProduction (hDone List.mem_cons_self) set).trans
          (ih (fun p hp => hDone (List.mem_cons_of_mem production hp)) _)
  exact ((hGrows productions (List.Subset.refl _) empty).rules rule h).resolve_left (by
    simp [empty, rules])

end RuleSet

namespace Grammar

variable {S : Type}

/-- Registering annotators adds symbols and renumbers none. -/
theorem extends_foldlM_register {annotators : List (Annotator S)} {symbols symbols' : SymbolTable}
    {registered registered' : List (SymbolId × Annotator S)}
    (h : annotators.foldlM register (symbols, registered) = .ok (symbols', registered')) :
    symbols.Extends symbols' := by
  induction annotators generalizing symbols registered with
  | nil =>
      cases h
      exact SymbolTable.Extends.refl _
  | cons annotator annotators ih =>
      rw [List.foldlM_cons] at h
      cases hRegister : register (symbols, registered) annotator with
      | error reason =>
          rw [hRegister] at h
          cases h
      | ok state =>
          rw [hRegister] at h
          have hState := register_eq_ok hRegister
          simp only [Prod.mk.injEq] at hState
          exact (hState.1 ▸ symbols.extends_intern _).trans (ih h)

def ofProductions (settings : Settings S) (annotators : List (Annotator S))
    (productions : List Production) : Except GrammarError (Grammar S) := do
  let set := RuleSet.ofProductions productions
  let (symbols, annotators) ← annotators.foldlM register (set.symbols, [])
  let (symbols, root) := symbols.intern ⟨settings.root, .nonterminal⟩
  return ⟨symbols, set.rules, annotators, root, settings⟩

/-- Once the productions of a text have been read, the text is no longer needed. -/
theorem read_eq_ofProductions {settings : Settings S} {annotators : List (Annotator S)}
    {text : String} {productions : List Production}
    (h : (productionTexts text).reverse.mapM Production.read = .ok productions) :
    read settings annotators text = ofProductions settings annotators productions := by
  rw [read, RuleSet.read, h]
  rfl

/-- The rules of a grammar that has been read come from the productions of its text. Annotators
add no rules. -/
theorem origin_of_read {settings : Settings S} {annotators : List (Annotator S)} {text : String}
    {grammar : Grammar S} (h : read settings annotators text = .ok grammar)
    {productions : List Production}
    (hProductions : (productionTexts text).reverse.mapM Production.read = .ok productions) :
    ∀ rule ∈ grammar.rules, rule.Origin grammar.symbols productions := by
  rw [read_eq_ofProductions hProductions, ofProductions] at h
  cases hRegister : annotators.foldlM register
      ((RuleSet.ofProductions productions).symbols, []) with
  | error reason =>
      simp only [bind, Except.bind, hRegister] at h
      cases h
  | ok state =>
      obtain ⟨symbols, registered⟩ := state
      simp only [bind, Except.bind, hRegister, pure, Except.pure, Except.ok.injEq] at h
      subst h
      intro rule hRule
      exact (RuleSet.origin_of_mem_ofProductions hRule).mono
        ((extends_foldlM_register hRegister).trans (symbols.extends_intern _))
        (List.Subset.refl productions)

/-- Annotators with different symbols can all be registered. -/
theorem exists_foldlM_register {annotators : List (Annotator S)} {symbols : SymbolTable}
    {registered : List (SymbolId × Annotator S)}
    (hDistinct : (annotators.map Annotator.symbol).Nodup)
    (hOld : ∀ entry ∈ registered, symbols.find? entry.2.symbol = some entry.1 ∧
      entry.2.symbol ∉ annotators.map Annotator.symbol) :
    ∃ state, annotators.foldlM register (symbols, registered) = .ok state := by
  induction annotators generalizing symbols registered with
  | nil => exact ⟨_, rfl⟩
  | cons annotator annotators ih =>
      rw [List.map_cons, List.nodup_cons] at hDistinct
      have hFound := SymbolTable.find?_intern symbols ⟨annotator.symbol, .placeholder⟩
      have hKept (entry : SymbolId × Annotator S) (hEntry : entry ∈ registered) :=
        symbols.extends_intern ⟨annotator.symbol, .placeholder⟩ _ _ (hOld entry hEntry).1
      have hNew : ¬(registered.any
          (·.1 == (symbols.intern ⟨annotator.symbol, .placeholder⟩).2)) = true := by
        rw [List.any_eq_true]
        rintro ⟨entry, hEntry, hSame⟩
        have hEntryFound := hKept entry hEntry
        rw [beq_iff_eq.1 hSame] at hEntryFound
        have hSpelling := SymbolTable.spelling_unique hEntryFound hFound
        exact (hOld entry hEntry).2 (List.mem_map.2 ⟨annotator, List.mem_cons_self, hSpelling.symm⟩)
      rw [List.foldlM_cons, register]
      simp only [if_neg hNew]
      refine ih hDistinct.2 fun entry hEntry => ?_
      rcases List.mem_append.1 hEntry with hEntry | hEntry
      · exact ⟨hKept entry hEntry, fun hMem =>
          (hOld entry hEntry).2 (List.mem_cons_of_mem _ hMem)⟩
      · rw [List.mem_singleton.1 hEntry]
        exact ⟨hFound, hDistinct.1⟩

/-- Well-formed productions and annotators of different symbols make a grammar. Nothing else can
go wrong. -/
theorem exists_read {settings : Settings S} {annotators : List (Annotator S)} {text : String}
    {productions : List Production}
    (hProductions : (productionTexts text).reverse.mapM Production.read = .ok productions)
    (hDistinct : (annotators.map Annotator.symbol).Nodup) :
    ∃ grammar, read settings annotators text = .ok grammar := by
  obtain ⟨state, hState⟩ : ∃ state, annotators.foldlM register
      ((RuleSet.ofProductions productions).symbols, []) = .ok state :=
    exists_foldlM_register hDistinct (by simp)
  rw [read_eq_ofProductions hProductions, ofProductions]
  simp only [bind, Except.bind, hState]
  exact ⟨_, rfl⟩

end Grammar

end PlotQuery
