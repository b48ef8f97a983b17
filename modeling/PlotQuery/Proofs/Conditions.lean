import PlotQuery.Proofs.NumberTexts
import PlotQuery.Proofs.PlotTrees

/-! Conditions and what they leave in the semantics. A tree of the grammar for plots has an operator
and a value for each condition in it. A comparison on its own has both without a condition, and the
value of a comparison is there before its operator. -/
namespace PlotQuery

namespace Semantics

def itemCount (s : Semantics) (key : String) : Nat :=
  ((s.items? key).getD []).length

theorem get?_eq_none_of_contains {s : Semantics} {key : String} (h : s.contains key = false) :
    s.get? key = none := by
  rw [contains, Option.isSome_eq_false_iff] at h
  exact Option.isNone_iff_eq_none.1 h

theorem itemCount_of_not_contains {s : Semantics} {key : String} (h : s.contains key = false) :
    s.itemCount key = 0 := by
  rw [itemCount, items?, get?_eq_none_of_contains h]
  rfl

/-- Putting values one after the other adds up their items. The keys of conditions are merged in
this way. -/
theorem itemCount_merge {S : Type} [Scalar S] {policy : MergePolicy S} {key : String}
    (hConcat : ∀ a b, mergeValue policy key a b = concatValue a b) (left right : Semantics) :
    (merge policy left right).1.itemCount key = left.itemCount key + right.itemCount key := by
  simp only [itemCount, items?, get?_merge]
  cases hLeft : left.get? key with
  | none => simp [mergedValue?]
  | some a =>
      cases hRight : right.get? key with
      | none => simp [mergedValue?]
      | some b => simp [mergedValue?, hConcat, items_concatValue]

end Semantics

namespace Grammar

variable {S : Type} (grammar : Grammar S)

def isSpelled (d : Derivation S) (spelling : String) : Bool :=
  decide (grammar.symbols.find? spelling = some d.lhs)

def conditionCount (d : Derivation S) : Nat :=
  d.subtrees.countP fun node => grammar.isSpelled node "Condition"

variable {grammar} {d : Derivation S}

/-- In a list of names the symbol of a tree is found as often as the spelling of the symbol stands
there. -/
theorem countP_isSpelled {names : List String} {spelling : String}
    (h : grammar.symbols.find? spelling = some d.lhs) :
    names.countP (grammar.isSpelled d) = names.count spelling := by
  rw [List.count]
  congr 1
  funext name
  rw [Bool.eq_iff_iff, isSpelled, decide_eq_true_eq, beq_iff_eq]
  refine ⟨fun hName => SymbolTable.spelling_unique hName h, ?_⟩
  rintro rfl
  exact h

theorem conditionCount_of_children_eq_nil (h : d.children = []) :
    grammar.conditionCount d = ["Condition"].countP (grammar.isSpelled d) := by
  rw [conditionCount, Derivation.subtrees_of_children_eq_nil h]
  simp [List.countP_cons]

variable (rule : Rule) (first second child : Derivation S) (semantics : Semantics) (score : S)

theorem conditionCount_unary :
    grammar.conditionCount (.unary rule child semantics score) =
      ["Condition"].countP (grammar.isSpelled (.unary rule child semantics score)) +
        grammar.conditionCount child := by
  simp [conditionCount, Derivation.subtrees, List.countP_cons, Nat.add_comm]

theorem conditionCount_binary :
    grammar.conditionCount (.binary rule first second semantics score) =
      ["Condition"].countP (grammar.isSpelled (.binary rule first second semantics score)) +
        (grammar.conditionCount first + grammar.conditionCount second) := by
  simp [conditionCount, Derivation.subtrees, List.countP_cons, Nat.add_comm]

end Grammar

namespace PlotGrammar

/-- The symbols whose trees hold a value of the key for a condition around them. -/
def carriers (key : String) : List String :=
  if key = "filter_op" then ["Comparison"]
  else if key = "filter_v" then ["Comparison", "FilterValue"]
  else []

def filterKeys : List String :=
  ["filter_col", "filter_op", "filter_v"]

/-- The symbols of which a tree has no condition in it. -/
def isBelowConditions (spelling : String) : Bool :=
  spelling.toList.head? = some '$' || spelling.toList.head? = some '"' ||
    ["Comparison", "FilterValue"].contains spelling

/-- Each rule passes on what its terms hold and adds what it assigns. The rule of a condition
keeps a part of that for the condition. It is read off the productions of the grammar, one after
the other. -/
theorem balance : ∀ key ∈ filterKeys, ∀ production ∈ productions, ∀ rule ∈ production.rules,
    (rule.body.terms.map fun term => (carriers key).count term.spelling).sum +
        rule.action.toList.countP (·.key = key) =
      ["Condition"].count production.lhs + (carriers key).count production.lhs := by
  decide

/-- What stands below conditions only has terms of the same kind. The symbols of operators and
values are closed in this sense. -/
theorem isBelowConditions_of_mem_terms :
    ∀ production ∈ productions, isBelowConditions production.lhs = true →
      ∀ rule ∈ production.rules, ∀ term ∈ rule.body.terms,
        isBelowConditions term.spelling = true := by
  decide

/-- A rule that assigns a key of conditions has no term that holds such a value already. An
assignment puts its value in the place of what was there, so it must not meet another value. -/
theorem holds_nothing_of_assigned : ∀ key ∈ filterKeys, ∀ production ∈ productions,
    ∀ rule ∈ production.rules, (∃ assignment ∈ rule.action, assignment.key = key) →
      ∀ term ∈ rule.body.terms,
        isBelowConditions term.spelling = true ∧ term.spelling ∉ carriers key := by
  decide

/-- No symbol that carries values of conditions is a variable or a word, by the first character of
its spelling. -/
theorem head?_ne_of_mem_carriers : ∀ key ∈ filterKeys, ∀ name ∈ "Condition" :: carriers key,
    name.toList.head? ≠ some '$' ∧ name.toList.head? ≠ some '"' := by
  decide

theorem count_eq_zero_of_head? {key spelling : String} (hKey : key ∈ filterKeys)
    (h : spelling.toList.head? = some '$' ∨ spelling.toList.head? = some '"') :
    ["Condition"].count spelling = 0 ∧ (carriers key).count spelling = 0 := by
  have hNone : spelling ∉ "Condition" :: carriers key := fun hMem =>
    h.elim (head?_ne_of_mem_carriers key hKey spelling hMem).1
      (head?_ne_of_mem_carriers key hKey spelling hMem).2
  rw [List.mem_cons, not_or] at hNone
  exact ⟨List.count_eq_zero.2 (by simpa using hNone.1), List.count_eq_zero.2 hNone.2⟩

section Held

variable {S : Type} (grammar : Grammar S)

/-- How many values of a key a tree holds: one for each condition, and one more if its symbol
carries a value for a condition around it. -/
def held (key : String) (d : Derivation S) : Nat :=
  grammar.conditionCount d + (carriers key).countP (grammar.isSpelled d)

variable {grammar} {key : String} {production : Production} {written : TermRule} {rule : Rule}
  {d first second child : Derivation S} {semantics : Semantics} {score : S} {spelling : String}

theorem held_eq (hSpelling : grammar.symbols.find? spelling = some d.lhs) :
    held grammar key d = grammar.conditionCount d + (carriers key).count spelling := by
  rw [held, Grammar.countP_isSpelled hSpelling]

/-- A leaf that is a variable or a word holds nothing. -/
theorem held_of_head? (hKey : key ∈ filterKeys) (hChildren : d.children = [])
    (hSpelling : grammar.symbols.find? spelling = some d.lhs)
    (hHead : spelling.toList.head? = some '$' ∨ spelling.toList.head? = some '"') :
    held grammar key d = 0 := by
  obtain ⟨hCondition, hCarriers⟩ := count_eq_zero_of_head? hKey hHead
  rw [held_eq hSpelling, Grammar.conditionCount_of_children_eq_nil hChildren,
    Grammar.countP_isSpelled hSpelling, hCondition, hCarriers]

/-- A rule of words holds what its action assigns. -/
theorem held_words {literals : List String} (hKey : key ∈ filterKeys)
    (listed : production ∈ productions) (member : written ∈ production.rules)
    (spelled : grammar.symbols.find? production.lhs = some rule.lhs)
    (body : written.body = .words literals) :
    held grammar key (.words rule semantics) =
      written.action.toList.countP (·.key = key) := by
  have hBalance := balance key hKey production listed written member
  rw [body, TermBody.terms, List.map_nil, List.sum_nil] at hBalance
  rw [held_eq spelled, Grammar.conditionCount_of_children_eq_nil rfl,
    Grammar.countP_isSpelled spelled]
  omega

/-- A unary rule holds what its child holds and what its action assigns. One of the carriers may
become a condition here, and the sum stays the same. -/
theorem held_unary {term : Term} (hKey : key ∈ filterKeys)
    (listed : production ∈ productions) (member : written ∈ production.rules)
    (spelled : grammar.symbols.find? production.lhs = some rule.lhs)
    (body : written.body = .unary term)
    (spelledChild : grammar.symbols.find? term.spelling = some child.lhs) :
    held grammar key (.unary rule child semantics score) =
      held grammar key child + written.action.toList.countP (·.key = key) := by
  have hBalance := balance key hKey production listed written member
  rw [body, TermBody.terms, List.map_singleton, List.sum_singleton] at hBalance
  rw [held_eq spelled, held_eq spelledChild, Grammar.conditionCount_unary,
    Grammar.countP_isSpelled spelled]
  omega

/-- A binary rule holds what both its children hold and what its action assigns. -/
theorem held_binary {left right : Term} (hKey : key ∈ filterKeys)
    (listed : production ∈ productions) (member : written ∈ production.rules)
    (spelled : grammar.symbols.find? production.lhs = some rule.lhs)
    (body : written.body = .binary left right)
    (spelledFirst : grammar.symbols.find? left.spelling = some first.lhs)
    (spelledSecond : grammar.symbols.find? right.spelling = some second.lhs) :
    held grammar key (.binary rule first second semantics score) =
      held grammar key first + held grammar key second +
        written.action.toList.countP (·.key = key) := by
  have hBalance := balance key hKey production listed written member
  rw [body, TermBody.terms, List.map_cons, List.map_singleton, List.sum_cons,
    List.sum_singleton] at hBalance
  rw [held_eq spelled, held_eq spelledFirst, held_eq spelledSecond,
    Grammar.conditionCount_binary, Grammar.countP_isSpelled spelled]
  omega

theorem held_literal {word : String} (hKey : key ∈ filterKeys)
    (spelled : grammar.symbols.find? (Term.literal word).spelling = some rule.lhs) :
    held grammar key (.words rule semantics) = 0 :=
  held_of_head? hKey rfl spelled (.inr (by simp [Term.spelling, Term.symbol, Symbol.spelling]))

end Held

variable {S : Type} [Scalar S] {grammar : Grammar S} {schema : Schema S} {query : Query}
  {d : Derivation S}

/-- A tree of a symbol that stands below conditions only has no condition in it. By induction on
the tree. -/
theorem conditionCount_eq_zero (h : grammar.Written schema query productions d) {spelling : String}
    (hSpelling : grammar.symbols.find? spelling = some d.lhs)
    (hBelow : isBelowConditions spelling = true) : grammar.conditionCount d = 0 := by
  have hOwn {d : Derivation S} {spelling : String} (hBelow : isBelowConditions spelling = true)
      (hSpelling : grammar.symbols.find? spelling = some d.lhs) :
      ["Condition"].countP (grammar.isSpelled d) = 0 := by
    have hOther : spelling ≠ "Condition" := by
      rintro rfl
      exact absurd hBelow (by decide)
    rw [Grammar.countP_isSpelled hSpelling]
    exact List.count_eq_zero.2 (by simpa using hOther)
  induction h generalizing spelling with
  | finding registered found =>
      rw [Grammar.conditionCount_of_children_eq_nil rfl, hOwn hBelow hSpelling]
  | literal spelled =>
      rw [Grammar.conditionCount_of_children_eq_nil rfl, hOwn hBelow hSpelling]
  | words listed member spelled body acted =>
      rw [Grammar.conditionCount_of_children_eq_nil rfl, hOwn hBelow hSpelling]
  | unary inner listed member spelled body spelledChild acted ih =>
      obtain rfl := SymbolTable.spelling_unique spelled hSpelling
      have hTerms := isBelowConditions_of_mem_terms _ listed hBelow _ member
      simp only [body, TermBody.terms, List.forall_mem_singleton] at hTerms
      rw [Grammar.conditionCount_unary, hOwn hBelow hSpelling, ih spelledChild hTerms]
  | binary innerFirst innerSecond listed member spelled body spelledFirst spelledSecond acted
      ihFirst ihSecond =>
      obtain rfl := SymbolTable.spelling_unique spelled hSpelling
      have hTerms := isBelowConditions_of_mem_terms _ listed hBelow _ member
      simp only [body, TermBody.terms, List.forall_mem_cons, List.not_mem_nil,
        IsEmpty.forall_iff, implies_true, and_true] at hTerms
      rw [Grammar.conditionCount_binary, hOwn hBelow hSpelling, ihFirst spelledFirst hTerms.1,
        ihSecond spelledSecond hTerms.2]

theorem countP_key_pos_iff {action : Option Action} {key : String} :
    0 < action.toList.countP (·.key = key) ↔ ∃ assignment ∈ action, assignment.key = key := by
  simp [List.countP_pos_iff]

theorem mem_assignedValues_of_mem_filterKeys : ∀ key ∈ filterKeys,
    key ∈ assignedValues.map Prod.fst := by
  decide

/-- No annotator puts a value under a key of conditions. -/
theorem not_mem_ownKeys_of_mem_filterKeys {key : String} (hKey : key ∈ filterKeys) :
    key ∉ valueKey :: Annotator.Finds.ownKeys.map Prod.snd :=
  not_mem_ownKeys key (mem_assignedValues_of_mem_filterKeys key hKey)

variable [ScalarText S]

/-- A finding holds no value of a key of conditions. All values under such keys come from
actions. -/
theorem held_finding (hRead : Session.standardGrammar S text = .ok grammar) {key : String}
    (hKey : key ∈ filterKeys) {symbol : SymbolId} {annotator : Annotator S} {span : Query}
    {finding : Finding S} (registered : (symbol, annotator) ∈ grammar.annotators)
    (found : annotator.annotate span schema = some finding) :
    finding.semantics.contains key = false ∧
      held grammar key (.leaf symbol finding.semantics finding.score) = 0 := by
  have hFinds := finds_of_registered hRead registered found
  have hSpelling := (Grammar.builtFrom_of_read hRead).find?_annotator _ registered
  refine ⟨?_, held_of_head? hKey rfl hSpelling (.inl hFinds.head?_symbol)⟩
  rw [Semantics.contains, hFinds.get?_eq_none (not_mem_ownKeys_of_mem_filterKeys hKey)]
  rfl

/-- A tree has a value of a key of conditions just if it holds one. The two directions are proved
together, by induction on the tree. -/
theorem contains_iff_held (hRead : Session.standardGrammar S text = .ok grammar) {key : String}
    (hKey : key ∈ filterKeys) (h : grammar.Written schema query productions d) :
    d.semantics.contains key = true ↔ 0 < held grammar key d := by
  have hText :=
    contains_wordsValue_eq_false (List.ne_of_not_mem_cons (not_mem_ownKeys_of_mem_filterKeys hKey))
  induction h with
  | finding registered found =>
      obtain ⟨hNone, hHeld⟩ := held_finding hRead hKey registered found
      simp [Derivation.semantics, hNone, hHeld]
  | literal spelled => simp [Derivation.semantics, hText, held_literal hKey spelled]
  | words listed member spelled body acted =>
      rw [held_words hKey listed member spelled body, countP_key_pos_iff, Derivation.semantics,
        contains_applyAction_iff acted, or_iff_right (by simp [hText])]
  | unary inner listed member spelled body spelledChild acted ih =>
      rw [held_unary hKey listed member spelled body spelledChild, Nat.add_pos_iff_pos_or_pos,
        countP_key_pos_iff]
      exact (contains_applyAction_iff acted).trans (or_congr_left ih)
  | binary innerFirst innerSecond listed member spelled body spelledFirst spelledSecond acted
      ihFirst ihSecond =>
      rw [held_binary hKey listed member spelled body spelledFirst spelledSecond,
        Nat.add_pos_iff_pos_or_pos, Nat.add_pos_iff_pos_or_pos, countP_key_pos_iff]
      refine (contains_applyAction_iff acted).trans (or_congr_left ?_)
      rw [Semantics.contains_merge, Bool.or_eq_true]
      exact or_congr ihFirst ihSecond

/-- What stands below a rule that assigns a key of conditions has no value of the key. -/
theorem not_contains_of_assigned (hRead : Session.standardGrammar S text = .ok grammar)
    {key : String} (hKey : key ∈ filterKeys) {production : Production} {written : TermRule}
    (listed : production ∈ productions) (member : written ∈ production.rules)
    (hAssigned : ∃ assignment ∈ written.action, assignment.key = key) {term : Term}
    (hTerm : term ∈ written.body.terms) (h : grammar.Written schema query productions d)
    (hSpelling : grammar.symbols.find? term.spelling = some d.lhs) :
    d.semantics.contains key = false := by
  obtain ⟨hBelow, hCarriers⟩ :=
    holds_nothing_of_assigned key hKey production listed written member hAssigned term hTerm
  rw [Bool.eq_false_iff, ne_eq, contains_iff_held hRead hKey h, held_eq hSpelling,
    conditionCount_eq_zero h hSpelling hBelow, List.count_eq_zero.2 hCarriers]
  exact lt_irrefl 0

/-- A rule adds an item to a key if it assigns the key. -/
theorem itemCount_applyAction {key : String} {sources : List String} {written : TermRule}
    (hRule : written.AssignsOnly key [] sources) {target s : Semantics} {children : List Semantics}
    (hChildren : List.Forall₂ (fun term child => term.spelling ∈ sources →
      ∀ value ∈ child.get? valueKey, (Text.items listSeparator value).length = 1)
      written.body.terms children)
    (hTarget : (∃ assignment ∈ written.action, assignment.key = key) → target.contains key = false)
    (acted : applyAction written.action target children = some s) :
    s.itemCount key = target.itemCount key + written.action.toList.countP (·.key = key) := by
  by_cases hAssigned : ∃ assignment ∈ written.action, assignment.key = key
  · -- An assignment replaces what is there, so it adds an item only if there is nothing.
    have hEmpty := Semantics.get?_eq_none_of_contains (hTarget hAssigned)
    have hNone := Semantics.itemCount_of_not_contains (hTarget hAssigned)
    have hItem := hRule.forall_get? (P := fun value => (Text.items listSeparator value).length = 1)
      (by simp) hChildren (by simp [hEmpty]) acted
    have hSome := (contains_applyAction_iff acted).2 (.inr hAssigned)
    obtain ⟨value, hValue⟩ := Option.isSome_iff_exists.1 hSome
    have hOne : s.itemCount key = 1 := by
      rw [Semantics.itemCount, Semantics.items?, hValue]
      exact hItem value hValue
    have hCount : written.action.toList.countP (·.key = key) = 1 := by
      obtain ⟨assignment, hAction, hHere⟩ := hAssigned
      simp [Option.mem_def.1 hAction, hHere]
    omega
  · have hNone : ¬0 < written.action.toList.countP (·.key = key) :=
      fun hPos => hAssigned (countP_key_pos_iff.1 hPos)
    have hSame := get?_of_applyAction acted fun assignment hAction hHere =>
      hAssigned ⟨assignment, hAction, hHere⟩
    rw [Semantics.itemCount, Semantics.itemCount, Semantics.items?, Semantics.items?, hSame]
    omega

/-- A tree has as many operators, and as many values, as it holds. By induction on the tree, where
a rule that assigns the key meets no value of it from below. -/
theorem itemCount_eq_held (hRead : Session.standardGrammar S text = .ok grammar) {key : String}
    (sources : List String) (hKey : key ∈ filterKeys)
    (hValues : (key, [], sources) ∈ assignedValues)
    (hSources : ∀ source ∈ sources, ∀ a b finding,
      Annotator.Finds (query.slice a b) schema source finding →
        ∀ value ∈ finding.semantics.get? valueKey, (Text.items listSeparator value).length = 1)
    (hConcat : ∀ a b, Semantics.mergeValue (Settings.standard : Settings S).merge key a b =
      Semantics.concatValue a b)
    (h : grammar.Written schema query productions d) :
    d.semantics.itemCount key = held grammar key d := by
  have hText :=
    contains_wordsValue_eq_false (List.ne_of_not_mem_cons (not_mem_ownKeys_of_mem_filterKeys hKey))
  have hRules := assignsOnly_of_mem_assignedValues _ hValues
  have hChild {child : Derivation S} (hWritten : grammar.Written schema query productions child)
      {term : Term} (hSpelling : grammar.symbols.find? term.spelling = some child.lhs)
      (hSource : term.spelling ∈ sources) :
      ∀ value ∈ child.semantics.get? valueKey, (Text.items listSeparator value).length = 1 := by
    obtain ⟨a, b, finding, hFinds, hSemantics⟩ :=
      finds_of_spelling hRead hWritten (head?_of_mem_sources _ hValues _ hSource) hSpelling
    rw [hSemantics]
    exact hSources _ hSource a b finding hFinds
  induction h with
  | finding registered found =>
      obtain ⟨hNone, hHeld⟩ := held_finding hRead hKey registered found
      rw [hHeld]
      exact Semantics.itemCount_of_not_contains hNone
  | literal spelled =>
      rw [held_literal hKey spelled]
      exact Semantics.itemCount_of_not_contains (hText _)
  | words listed member spelled body acted =>
      rw [held_words hKey listed member spelled body, Derivation.semantics,
        itemCount_applyAction (hRules _ listed _ member) (body ▸ .nil) (fun _ => hText _) acted,
        Semantics.itemCount_of_not_contains (hText _), Nat.zero_add]
  | unary inner listed member spelled body spelledChild acted ih =>
      have hNone hAssigned := not_contains_of_assigned hRead hKey listed member hAssigned
        (body ▸ List.mem_singleton_self _) inner spelledChild
      rw [held_unary hKey listed member spelled body spelledChild, Derivation.semantics,
        itemCount_applyAction (hRules _ listed _ member)
          (body ▸ .cons (hChild inner spelledChild) .nil) hNone acted, ih]
  | binary innerFirst innerSecond listed member spelled body spelledFirst spelledSecond acted
      ihFirst ihSecond =>
      have hNone hAssigned := Bool.or_eq_false_iff.2
        ⟨not_contains_of_assigned hRead hKey listed member hAssigned
          (body ▸ List.mem_cons_self) innerFirst spelledFirst,
        not_contains_of_assigned hRead hKey listed member hAssigned
          (body ▸ List.mem_cons_of_mem _ (List.mem_singleton_self _)) innerSecond spelledSecond⟩
      rw [held_binary hKey listed member spelled body spelledFirst spelledSecond,
        Derivation.semantics, itemCount_applyAction (hRules _ listed _ member)
          (body ▸ .cons (hChild innerFirst spelledFirst)
            (.cons (hChild innerSecond spelledSecond) .nil))
          (fun hAssigned => (Semantics.contains_merge _ _ _ _).trans (hNone hAssigned)) acted,
        (Grammar.builtFrom_of_read hRead).settings_eq, Semantics.itemCount_merge hConcat, ihFirst,
        ihSecond]

end PlotGrammar

end PlotQuery
