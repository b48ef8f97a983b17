import PlotQuery.Chart.Application
import PlotQuery.Grammar.RuleSet

/-! Grammars with annotators, and the parsing of queries with them. The chart of a query is filled from
short spans to long ones. Its best derivation of the root for the whole query is the parse. -/
namespace PlotQuery

/-- A grammar ready for use: numbered rules, annotators under the numbers of their symbols, and the
number of the root. -/
structure Grammar (S : Type) where
  symbols : SymbolTable
  rules : List Rule
  annotators : List (SymbolId × Annotator S)
  root : SymbolId
  settings : Settings S

namespace Grammar

variable {S : Type}

/-- Number the symbol of an annotator, which no annotator before it may have. -/
def register (registered : SymbolTable × List (SymbolId × Annotator S)) (annotator : Annotator S) :
    Except GrammarError (SymbolTable × List (SymbolId × Annotator S)) :=
  let (symbols, id) := registered.1.intern ⟨annotator.symbol, .placeholder⟩
  if registered.2.any (·.1 == id) then throw (.duplicateAnnotator annotator.symbol)
  else return (symbols, registered.2 ++ [(id, annotator)])

def read (settings : Settings S) (annotators : List (Annotator S)) (text : String) :
    Except GrammarError (Grammar S) := do
  let set ← RuleSet.read text
  let (symbols, annotators) ← annotators.foldlM register (set.symbols, [])
  let (symbols, root) := symbols.intern ⟨settings.root, .nonterminal⟩
  return ⟨symbols, set.rules, annotators, root, settings⟩

/-- What the annotators make of a span, in the order of the annotators. -/
def annotate (grammar : Grammar S) (schema : Schema S) (span : Query) : List (Derivation S) :=
  grammar.annotators.filterMap fun entry =>
    (entry.2.annotate span schema).map (Derivation.ofFinding entry.1)

variable [Scalar S]

/-- Fill the cell of a span: findings first, then what each rule derives, which may use what the
rules before it have derived for the same span. -/
def fillCell (grammar : Grammar S) (schema : Schema S) (query : Query) (chart : Chart S)
    (span : Nat × Nat) : Chart S :=
  let annotated :=
    chart.extend span.1 span.2 (grammar.annotate schema (query.slice span.1 span.2))
  let derived := grammar.rules.foldl (fun chart rule =>
    chart.extend span.1 span.2
      (rule.derive grammar.settings chart.cell query span.1 span.2)) annotated
  derived.prune span.1 span.2 grammar.settings.cellLimit

/-- The spans of a query, short ones first and those of equal size from left to right. -/
def spans (size : Nat) : List (Nat × Nat) :=
  (List.range size).flatMap fun less =>
    (List.range (size - less)).map fun start => (start, start + less + 1)

def chart (grammar : Grammar S) (schema : Schema S) (query : Query) : Chart S :=
  (spans query.size).foldl (grammar.fillCell schema query) (Chart.empty query.size)

/-- The best derivation of the root for a query, if there is one. -/
def parseQuery (grammar : Grammar S) (schema : Schema S) (query : Query) :
    Option (Derivation S) :=
  (grammar.chart schema query).best? grammar.root

def parseStatement (grammar : Grammar S) (schema : Schema S) (statement : String) :
    Option (Derivation S) :=
  grammar.parseQuery schema (Query.ofText statement)

/-- The statement that stands for a blank text. -/
def blankStatement : String :=
  "overview"

/-- The statements of a text, with a `;` between them, less those that are blank. -/
def statements (text : String) : List String :=
  Text.items ';' (if Text.isBlankText text then blankStatement else text)

def parse (grammar : Grammar S) (schema : Schema S) (text : String) :
    List (Option (Derivation S)) :=
  (statements text).map (grammar.parseStatement schema)

end Grammar

end PlotQuery
