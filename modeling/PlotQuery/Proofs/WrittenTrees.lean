import PlotQuery.Proofs.DerivationTrees
import PlotQuery.Proofs.MergeLaws
import PlotQuery.Proofs.RuleNumbering

/-! Trees told by the productions as written. Positions, noise and scores do not matter here, and
symbols go by their spelling. What each production keeps up holds of every tree. -/
namespace PlotQuery

/-- The value is one of the literals, or that of a term which is one of the sources. -/
def ActionValue.ComesFrom (terms : List Term) (literals sources : List String) :
    ActionValue → Prop
  | literal text => text ∈ literals
  | child index property =>
    property = valueKey ∧ ∃ term ∈ terms[index]?, term.spelling ∈ sources

instance (terms : List Term) (literals sources : List String) (value : ActionValue) :
    Decidable (value.ComesFrom terms literals sources) :=
  match value with
  | .literal text => inferInstanceAs (Decidable (text ∈ literals))
  | .child index property => inferInstanceAs
      (Decidable (property = valueKey ∧ ∃ term ∈ terms[index]?, term.spelling ∈ sources))

/-- The rule assigns the key nothing but one of the literals or the value of one of the sources. -/
def TermRule.AssignsOnly (key : String) (literals sources : List String) (rule : TermRule) : Prop :=
  ∀ assignment ∈ rule.action, assignment.key = key →
    assignment.value.ComesFrom rule.body.terms literals sources

instance (key : String) (literals sources : List String) (rule : TermRule) :
    Decidable (rule.AssignsOnly key literals sources) :=
  inferInstanceAs (Decidable (∀ assignment ∈ rule.action, assignment.key = key →
    assignment.value.ComesFrom rule.body.terms literals sources))

/-- Only a body of words becomes one. -/
theorem TermBody.NumberedAs.words_inv {symbols : SymbolTable} {written : TermBody}
    {literals : List String} (h : written.NumberedAs symbols (.words literals)) :
    written = .words literals := by
  cases h
  rfl

/-- Only a body of one term becomes one, and its number is that of the term. -/
theorem TermBody.NumberedAs.unary_inv {symbols : SymbolTable} {written : TermBody} {id : SymbolId}
    (h : written.NumberedAs symbols (.unary id)) :
    ∃ child, written = .unary child ∧ symbols.find? child.spelling = some id := by
  cases h with
  | unary found => exact ⟨_, rfl, found⟩

/-- Only a body of two terms becomes one, and the numbers are those of the terms. -/
theorem TermBody.NumberedAs.binary_inv {symbols : SymbolTable} {written : TermBody}
    {leftId rightId : SymbolId} (h : written.NumberedAs symbols (.binary leftId rightId)) :
    ∃ left right, written = .binary left right ∧ symbols.find? left.spelling = some leftId ∧
      symbols.find? right.spelling = some rightId := by
  cases h with
  | binary foundLeft foundRight => exact ⟨_, _, rfl, foundLeft, foundRight⟩

/-- A rule leaves a property of the value under a key, if it holds of what the rule may assign.
The value of a child may be assigned as well, and has to satisfy the property. -/
theorem TermRule.AssignsOnly.forall_get? {key : String} {literals sources : List String}
    {P : String → Prop} {rule : TermRule} (hRule : rule.AssignsOnly key literals sources)
    (hLiterals : ∀ text ∈ literals, P text) {target semantics : Semantics}
    {children : List Semantics}
    (hChildren : List.Forall₂ (fun term child => term.spelling ∈ sources →
      ∀ value ∈ child.get? valueKey, P value) rule.body.terms children)
    (hTarget : ∀ value ∈ target.get? key, P value)
    (acted : applyAction rule.action target children = some semantics) :
    ∀ value ∈ semantics.get? key, P value := by
  rcases applyAction_eq_some_iff.1 acted with
    ⟨-, rfl⟩ | ⟨assignment, value, hAction, hResolve, rfl⟩
  · exact hTarget
  rw [Semantics.get?_insert]
  split
  · next hHere =>
    rintro _ ⟨⟩
    have hValue := hRule assignment hAction hHere.symm
    rw [Action.resolve] at hResolve
    cases hAssigned : assignment.value with
    | literal text =>
        rw [hAssigned] at hValue hResolve
        exact Option.some.inj hResolve ▸ hLiterals text hValue
    | child index property =>
        rw [hAssigned] at hValue hResolve
        obtain ⟨rfl, term, hTerm, hSource⟩ := hValue
        obtain ⟨child, hChild, hResolve⟩ := Option.bind_eq_some_iff.1 hResolve
        obtain ⟨hTermAt, rfl⟩ := List.getElem?_eq_some_iff.1 hTerm
        obtain ⟨hChildAt, rfl⟩ := List.getElem?_eq_some_iff.1 hChild
        exact hChildren.get hTermAt hChildAt hSource value hResolve
  · exact hTarget

/-- An assignment takes no value away, and puts one under its key. This is said of actions that go
through. -/
theorem contains_applyAction_iff {action : Option Action} {target s : Semantics}
    {children : List Semantics} {key : String}
    (acted : applyAction action target children = some s) :
    s.contains key = true ↔
      target.contains key = true ∨ ∃ assignment ∈ action, assignment.key = key := by
  rcases applyAction_eq_some_iff.1 acted with
    ⟨rfl, rfl⟩ | ⟨assignment, value, rfl, -, rfl⟩
  · simp
  · rw [Semantics.contains, Semantics.get?_insert]
    split
    · next hHere => simp [hHere]
    · next hOther => simp [Semantics.contains, Ne.symm hOther]

/-- A rule of words starts with a value and no other key. -/
theorem contains_wordsValue_eq_false {key : String} (hKey : key ≠ valueKey) (text : String) :
    (Semantics.empty.insert valueKey text).contains key = false := by
  rw [Semantics.contains, Semantics.get?_insert, if_neg hKey]
  rfl

namespace Grammar

variable {S : Type} [Scalar S]

/-- The tree is a finding, the rule of a literal, or built by a rule of some production from trees
for the terms of the rule. -/
inductive Written (grammar : Grammar S) (schema : Schema S) (query : Query)
    (productions : List Production) : Derivation S → Prop where
  | finding {a b : Nat} {symbol : SymbolId} {annotator : Annotator S} {finding : Finding S}
      (registered : (symbol, annotator) ∈ grammar.annotators)
      (found : annotator.annotate (query.slice a b) schema = some finding) :
      Written grammar schema query productions
        (.leaf symbol finding.semantics finding.score)
  | literal {word text : String} {rule : Rule}
      (spelled : grammar.symbols.find? (Term.literal word).spelling = some rule.lhs) :
      Written grammar schema query productions
        (.words rule (Semantics.empty.insert valueKey text))
  | words {production : Production} {written : TermRule} {literals : List String} {text : String}
      {rule : Rule} {semantics : Semantics}
      (listed : production ∈ productions) (member : written ∈ production.rules)
      (spelled : grammar.symbols.find? production.lhs = some rule.lhs)
      (body : written.body = .words literals)
      (acted : applyAction written.action (Semantics.empty.insert valueKey text) [] =
        some semantics) :
      Written grammar schema query productions (.words rule semantics)
  | unary {production : Production} {written : TermRule} {term : Term} {rule : Rule}
      {child : Derivation S} {semantics : Semantics} {score : S}
      (inner : Written grammar schema query productions child)
      (listed : production ∈ productions) (member : written ∈ production.rules)
      (spelled : grammar.symbols.find? production.lhs = some rule.lhs)
      (body : written.body = .unary term)
      (spelledChild : grammar.symbols.find? term.spelling = some child.lhs)
      (acted : applyAction written.action child.semantics [child.semantics] = some semantics) :
      Written grammar schema query productions (.unary rule child semantics score)
  | binary {production : Production} {written : TermRule} {left right : Term} {rule : Rule}
      {first second : Derivation S} {semantics : Semantics} {score : S}
      (innerFirst : Written grammar schema query productions first)
      (innerSecond : Written grammar schema query productions second)
      (listed : production ∈ productions) (member : written ∈ production.rules)
      (spelled : grammar.symbols.find? production.lhs = some rule.lhs)
      (body : written.body = .binary left right)
      (spelledFirst : grammar.symbols.find? left.spelling = some first.lhs)
      (spelledSecond : grammar.symbols.find? right.spelling = some second.lhs)
      (acted : applyAction written.action
        (Semantics.merge grammar.settings.merge first.semantics second.semantics).1
        [first.semantics, second.semantics] = some semantics) :
      Written grammar schema query productions (.binary rule first second semantics score)

variable {grammar : Grammar S} {schema : Schema S} {query : Query}
  {productions : List Production} {d : Derivation S}

/-- Every tree that derives a span is one told by the productions. The numbers are gone then, and
symbols are told by their spellings. -/
theorem Derives.written {start stop : Nat}
    (hOrigin : ∀ rule ∈ grammar.rules, rule.Origin grammar.symbols productions)
    (h : grammar.Derives schema query start stop d) :
    grammar.Written schema query productions d := by
  induction h with
  | finding nonempty inside registered found => exact .finding registered found
  | words nonempty inside listed body spelled acted =>
      cases hOrigin _ listed with
      | literal found =>
          obtain rfl := Option.some.inj acted
          exact .literal found
      | production listed member lhs numbered action =>
          rw [body] at numbered
          exact .words listed member lhs numbered.words_inv (action ▸ acted)
  | unary inner leading trailing inside listed body leadingLimit limit acted ih =>
      cases hOrigin _ listed with
      | literal found => cases body
      | production listed member lhs numbered action =>
          rw [body] at numbered
          obtain ⟨term, hBody, hTerm⟩ := numbered.unary_inv
          exact .unary ih listed member lhs hBody hTerm (action ▸ acted)
  | binary left right leading between trailing inside listed body limit acted ihLeft ihRight =>
      cases hOrigin _ listed with
      | literal found => cases body
      | production listed member lhs numbered action =>
          rw [body] at numbered
          obtain ⟨leftTerm, rightTerm, hBody, hLeft, hRight⟩ := numbered.binary_inv
          exact .binary ihLeft ihRight listed member lhs hBody hLeft hRight (action ▸ acted)

/-- A symbol that no production and no literal stands for is that of an annotator. So its trees
are findings. -/
theorem Written.finding_of_spelling {settings : Settings S} {annotators : List (Annotator S)}
    {text : String} (hBuilt : grammar.BuiltFrom settings annotators text)
    (h : grammar.Written schema query productions d) {spelling : String}
    (hSpelling : grammar.symbols.find? spelling = some d.lhs)
    (hProductions : ∀ production ∈ productions, production.lhs ≠ spelling)
    (hLiteral : spelling.toList.head? ≠ some '"') :
    ∃ annotator ∈ annotators, annotator.symbol = spelling ∧ ∃ a b finding,
      annotator.annotate (query.slice a b) schema = some finding ∧
        d.semantics = finding.semantics := by
  have hOther {production : Production} (listed : production ∈ productions)
      (hLhs : grammar.symbols.find? production.lhs = some d.lhs) : False :=
    hProductions production listed (SymbolTable.spelling_unique hLhs hSpelling)
  cases h with
  | @finding a b symbol annotator finding registered found =>
      refine ⟨annotator, hBuilt.annotators_eq ▸ List.mem_map_of_mem (f := Prod.snd) registered,
        (hBuilt.find?_eq_some_iff registered spelling).1 hSpelling, a, b, finding, found, rfl⟩
  | literal spelled =>
      refine absurd ?_ hLiteral
      rw [← SymbolTable.spelling_unique spelled hSpelling]
      simp [Term.spelling, Term.symbol, Symbol.spelling]
  | words listed member spelled => exact (hOther listed spelled).elim
  | unary inner listed member spelled => exact (hOther listed spelled).elim
  | binary innerFirst innerSecond listed member spelled => exact (hOther listed spelled).elim

/-- What the assigned values of a key satisfy, and what merging keeps, holds of its value in every
tree. By induction on the tree. -/
theorem Written.forall_get? {key : String} {literals sources : List String} {P : String → Prop}
    (hKey : key ≠ valueKey)
    (hFindings : ∀ entry ∈ grammar.annotators, ∀ span finding,
      entry.2.annotate span schema = some finding → ∀ value ∈ finding.semantics.get? key, P value)
    (hRules : ∀ production ∈ productions, ∀ rule ∈ production.rules,
      rule.AssignsOnly key literals sources)
    (hLiterals : ∀ text ∈ literals, P text)
    (hSources : ∀ source ∈ sources, ∀ child, grammar.Written schema query productions child →
      grammar.symbols.find? source = some child.lhs →
      ∀ value ∈ child.semantics.get? valueKey, P value)
    (hMerge : ∀ a b, P a → P b → P (Semantics.mergeValue grammar.settings.merge key a b))
    (h : grammar.Written schema query productions d) :
    ∀ value ∈ d.semantics.get? key, P value := by
  have hWords (text : String) :
      ∀ value ∈ (Semantics.empty.insert valueKey text).get? key, P value := by
    simp [hKey]
  induction h with
  | @finding a b symbol annotator finding registered found =>
      exact hFindings _ registered _ finding found
  | literal spelled => exact hWords _
  | words listed member spelled body acted =>
      refine (hRules _ listed _ member).forall_get? hLiterals ?_ (hWords _) acted
      rw [body]
      exact .nil
  | unary inner listed member spelled body spelledChild acted ih =>
      refine (hRules _ listed _ member).forall_get? hLiterals ?_ ih acted
      rw [body]
      exact .cons (fun hSource => hSources _ hSource _ inner spelledChild) .nil
  | @binary production written left right rule first second semantics score innerFirst innerSecond
      listed member spelled body spelledFirst spelledSecond acted ihFirst ihSecond =>
      refine (hRules _ listed _ member).forall_get? hLiterals ?_ ?_ acted
      · rw [body]
        exact .cons (fun hSource => hSources _ hSource _ innerFirst spelledFirst)
          (.cons (fun hSource => hSources _ hSource _ innerSecond spelledSecond) .nil)
      · rw [Semantics.get?_merge]
        cases hFirst : first.semantics.get? key with
        | none => exact ihSecond
        | some value =>
            cases hSecond : second.semantics.get? key with
            | none =>
                rw [Semantics.mergedValue?_none_right, ← hFirst]
                exact ihFirst
            | some value' =>
                rintro _ ⟨⟩
                exact hMerge _ _ (ihFirst _ hFirst) (ihSecond _ hSecond)

/-- Every tree of one of the given symbols has a value under one of the given keys, if every
production of these symbols assigns such a key or has such a symbol below it. Assignments take
nothing away, and merging keeps all keys. -/
theorem Written.exists_contains (heads keys : List String)
    (hFindings : ∀ entry ∈ grammar.annotators, ∀ head ∈ heads,
      grammar.symbols.find? head = some entry.1 → ∀ span finding,
        entry.2.annotate span schema = some finding →
          ∃ key ∈ keys, finding.semantics.contains key = true)
    (hLiteral : ∀ head ∈ heads, head.toList.head? ≠ some '"')
    (hRules : ∀ production ∈ productions, production.lhs ∈ heads → ∀ rule ∈ production.rules,
      (∃ assignment ∈ rule.action, assignment.key ∈ keys) ∨
        ∃ term ∈ rule.body.terms, term.spelling ∈ heads)
    (h : grammar.Written schema query productions d)
    (hHead : ∃ head ∈ heads, grammar.symbols.find? head = some d.lhs) :
    ∃ key ∈ keys, d.semantics.contains key = true := by
  have hProduction {production : Production} {written : TermRule} {id : SymbolId}
      (listed : production ∈ productions) (member : written ∈ production.rules)
      (spelled : grammar.symbols.find? production.lhs = some id)
      (hHead : ∃ head ∈ heads, grammar.symbols.find? head = some id) :=
    have ⟨_, hMem, hHead⟩ := hHead
    hRules production listed (SymbolTable.spelling_unique spelled hHead ▸ hMem) written member
  induction h with
  | finding registered found =>
      obtain ⟨head, hMem, hHead⟩ := hHead
      exact hFindings _ registered head hMem hHead _ _ found
  | literal spelled =>
      obtain ⟨head, hMem, hHead⟩ := hHead
      refine absurd ?_ (hLiteral head hMem)
      rw [← SymbolTable.spelling_unique spelled hHead]
      simp [Term.spelling, Term.symbol, Symbol.spelling]
  | words listed member spelled body acted =>
      rcases hProduction listed member spelled hHead with ⟨assignment, hAction, hKey⟩ | hTerm
      · exact ⟨_, hKey, (contains_applyAction_iff acted).2 (.inr ⟨assignment, hAction, rfl⟩)⟩
      · simp [body, TermBody.terms] at hTerm
  | unary inner listed member spelled body spelledChild acted ih =>
      rcases hProduction listed member spelled hHead with
        ⟨assignment, hAction, hKey⟩ | ⟨term, hTerm, hSource⟩
      · exact ⟨_, hKey, (contains_applyAction_iff acted).2 (.inr ⟨assignment, hAction, rfl⟩)⟩
      · rw [body, TermBody.terms, List.mem_singleton] at hTerm
        obtain ⟨key, hKey, hContains⟩ := ih ⟨term.spelling, hSource, hTerm ▸ spelledChild⟩
        exact ⟨key, hKey, (contains_applyAction_iff acted).2 (.inl hContains)⟩
  | @binary production written left right rule first second semantics score innerFirst innerSecond
      listed member spelled body spelledFirst spelledSecond acted ihFirst ihSecond =>
      rcases hProduction listed member spelled hHead with
        ⟨assignment, hAction, hKey⟩ | ⟨term, hTerm, hSource⟩
      · exact ⟨_, hKey, (contains_applyAction_iff acted).2 (.inr ⟨assignment, hAction, rfl⟩)⟩
      · rw [body, TermBody.terms, List.mem_cons, List.mem_singleton] at hTerm
        obtain ⟨key, hKey, hContains⟩ : ∃ key ∈ keys,
            (first.semantics.contains key || second.semantics.contains key) = true := by
          rcases hTerm with rfl | rfl
          · obtain ⟨key, hKey, hContains⟩ := ihFirst ⟨_, hSource, spelledFirst⟩
            exact ⟨key, hKey, by rw [hContains, Bool.true_or]⟩
          · obtain ⟨key, hKey, hContains⟩ := ihSecond ⟨_, hSource, spelledSecond⟩
            exact ⟨key, hKey, by rw [hContains, Bool.or_true]⟩
        exact ⟨key, hKey, (contains_applyAction_iff acted).2
          (.inl ((Semantics.contains_merge _ _ _ _).trans hContains))⟩

end Grammar

end PlotQuery
