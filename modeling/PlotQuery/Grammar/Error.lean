import PlotQuery.Text.Quoted

/-! The reasons for which a text is not a grammar. -/
namespace PlotQuery

/-- What is wrong with a grammar. The text of the production at fault goes with every reason that
lies in a production. -/
inductive GrammarError where
  /-- The production does not have a single symbol, the sign `:=` and a right side. -/
  | invalidProduction (production : String)
  /-- The assignment in braces is malformed. -/
  | invalidSemantics (production : String)
  /-- The assignment refers to a symbol that the alternative does not have. -/
  | invalidReference (reference production : String)
  /-- A symbol has no name. -/
  | blankSymbol (production : String)
  /-- A quoted word is blank or has no closing quote. -/
  | invalidLiteral (literal production : String)
  /-- The alternative has no symbol. -/
  | emptyAlternative (production : String)
  /-- The alternative has more than two symbols, not all of them literals. -/
  | arityTooLarge (arity : Nat) (production : String)
  /-- Two annotators have the same symbol. -/
  | duplicateAnnotator (symbol : String)
  deriving DecidableEq, Repr

def GrammarError.message : GrammarError → String
  | .invalidProduction production =>
    "Producción inválida (se esperaba `LHS := RHS`): " ++ production
  | .invalidSemantics production => "Semántica inválida en la producción: " ++ production
  | .invalidReference reference production =>
    "Referencia " ++ reference ++ " fuera de rango en la producción: " ++ production
  | .blankSymbol production => "Símbolo vacío en la producción: " ++ production
  | .invalidLiteral literal production =>
    "Literal vacío o sin cerrar " ++ Text.quoted literal ++ " en la producción: " ++ production
  | .emptyAlternative production => "Alternativa vacía en la producción: " ++ production
  | .arityTooLarge arity production =>
    "La alternativa tiene " ++ toString arity ++ " símbolos (máximo 2): " ++ production
  | .duplicateAnnotator symbol => "Anotador duplicado: " ++ symbol

end PlotQuery
