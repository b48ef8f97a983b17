import PlotQuery.Annotator
import PlotQuery.Rule

/-! Derivations: the trees by which a grammar derives a span of a query. Each node holds the semantics
and the score of its tree. -/
namespace PlotQuery

/-- A derivation of a span. -/
inductive Derivation (S : Type) where
  /-- What an annotator recognises, under the symbol of the annotator. -/
  | leaf (symbol : SymbolId) (semantics : Semantics) (score : S)
  /-- The words of a rule. They have the full score. -/
  | words (rule : Rule) (semantics : Semantics)
  /-- A rule with one child. -/
  | unary (rule : Rule) (child : Derivation S) (semantics : Semantics) (score : S)
  /-- A rule with two children. -/
  | binary (rule : Rule) (first second : Derivation S) (semantics : Semantics) (score : S)

namespace Derivation

variable {S : Type}

def lhs : Derivation S → SymbolId
  | leaf symbol _ _ => symbol
  | words rule _ => rule.lhs
  | unary rule _ _ _ => rule.lhs
  | binary rule _ _ _ _ => rule.lhs

def semantics : Derivation S → Semantics
  | leaf _ semantics _ => semantics
  | words _ semantics => semantics
  | unary _ _ semantics _ => semantics
  | binary _ _ _ semantics _ => semantics

def score [Scalar S] : Derivation S → S
  | leaf _ _ score => score
  | words _ _ => Scalar.one
  | unary _ _ _ score => score
  | binary _ _ _ _ score => score

/-- The rule at the root of the tree. A finding has none. -/
def rule? : Derivation S → Option Rule
  | leaf _ _ _ => none
  | words rule _ => some rule
  | unary rule _ _ _ => some rule
  | binary rule _ _ _ _ => some rule

def children : Derivation S → List (Derivation S)
  | leaf _ _ _ => []
  | words _ _ => []
  | unary _ child _ _ => [child]
  | binary _ first second _ _ => [first, second]

/-- Whether two trees derive the same symbol with the same semantics. Neither the score nor the shape
of the trees counts. -/
def sameReading (a b : Derivation S) : Bool :=
  a.lhs == b.lhs && decide (a.semantics = b.semantics)

def ofFinding (symbol : SymbolId) (finding : Finding S) : Derivation S :=
  .leaf symbol finding.semantics finding.score

end Derivation

def Semantics.display (s : Semantics) : String :=
  Text.join "," (s.entries.map fun e => e.1 ++ "=" ++ e.2)

/-- A parse on one line: the symbol, the semantics and the score. No parse is shown as an empty one. -/
def describeParse {S : Type} [Scalar S] [ScalarText S] (symbols : SymbolTable) :
    Option (Derivation S) → String
  | none =>
    "<vacío>[] score=" ++ ScalarText.places 4 (Scalar.zero : S)
  | some d =>
    symbols.name d.lhs ++ "[" ++ d.semantics.display ++ "] score=" ++ ScalarText.places 4 d.score

end PlotQuery
