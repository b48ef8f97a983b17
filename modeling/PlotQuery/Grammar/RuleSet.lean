import PlotQuery.Grammar.Production

/-! Rules with numbered symbols. Productions are written from the root down and taken in reverse, so
that the rules of a symbol come before the rules that use it. A literal beside other symbols gets a
rule of its own, and all such rules come first. -/
namespace PlotQuery

/-- The rules of a grammar in the order in which they are applied, the table of their symbols, and
those symbols that only annotators produce. -/
structure RuleSet where
  symbols : SymbolTable
  /-- The rules for single literals, in the order in which the literals first appear. -/
  literalRules : List Rule
  /-- The rules of the productions. -/
  productionRules : List Rule
  placeholders : List SymbolId

namespace RuleSet

def empty : RuleSet :=
  ⟨SymbolTable.empty, [], [], []⟩

instance : Inhabited RuleSet := ⟨empty⟩

/-- All rules in the order in which they are applied. -/
def rules (set : RuleSet) : List Rule :=
  set.literalRules ++ set.productionRules

/-- The rule by which a literal derives its word. -/
def literalRule (id : SymbolId) (word : String) : Rule :=
  ⟨id, .words [word], none⟩

/-- Number a symbol. The first use of a literal brings its rule, and the first use of a placeholder
is noted. -/
def addTerm (set : RuleSet) : Term → RuleSet × SymbolId
  | .nonterminal name =>
    let (symbols, id) := set.symbols.intern ⟨name, .nonterminal⟩
    ({ set with symbols }, id)
  | .placeholder name =>
    let (symbols, id) := set.symbols.intern ⟨name, .placeholder⟩
    let placeholders :=
      if set.placeholders.contains id then set.placeholders else set.placeholders ++ [id]
    ({ set with symbols, placeholders }, id)
  | .literal word =>
    let (symbols, id) := set.symbols.intern ⟨word, .constant⟩
    let literalRules :=
      if set.literalRules.any (·.lhs == id) then set.literalRules
      else set.literalRules ++ [literalRule id word]
    ({ set with symbols, literalRules }, id)

/-- Number the symbols on the right side of a rule, from left to right. -/
def addBody (set : RuleSet) : TermBody → RuleSet × RuleBody
  | .words literals => (set, .words literals)
  | .unary child =>
    let (set, child) := set.addTerm child
    (set, .unary child)
  | .binary left right =>
    let (set, left) := set.addTerm left
    let (set, right) := set.addTerm right
    (set, .binary left right)

def addRule (lhs : SymbolId) (set : RuleSet) (rule : TermRule) : RuleSet :=
  let (set, body) := set.addBody rule.body
  { set with productionRules := set.productionRules ++ [⟨lhs, body, rule.action⟩] }

def addProduction (set : RuleSet) (production : Production) : RuleSet :=
  let (symbols, lhs) := set.symbols.intern ⟨production.lhs, .nonterminal⟩
  production.rules.foldl (addRule lhs) { set with symbols }

/-- The rules of productions in the order given. -/
def ofProductions (productions : List Production) : RuleSet :=
  productions.foldl addProduction empty

/-- The rules in the text of a grammar, or the reason why the last malformed production is none. -/
def read (text : String) : Except GrammarError RuleSet :=
  ((productionTexts text).reverse.mapM Production.read).map ofProductions

end RuleSet

end PlotQuery
