import PlotQuery.Query
import PlotQuery.Schema
import PlotQuery.Semantics.Merge

/-! Annotators: recognisers for the parts of a query that no list of words can describe, such as
numbers and column names. An annotator sees a run of tokens and the schema and nothing else. -/
namespace PlotQuery

/-- What an annotator makes of a run of tokens. -/
structure Finding (S : Type) where
  semantics : Semantics
  score : S

/-- A recogniser and the symbol under which its findings enter the chart. -/
structure Annotator (S : Type) where
  symbol : String
  annotate : Query → Schema S → Option (Finding S)

namespace Finding

variable {S : Type} [Scalar S]

/-- A finding with a value and the full score. -/
def ofValue (value : String) : Finding S :=
  ⟨Semantics.empty.insert valueKey value, Scalar.one⟩

def put (finding : Finding S) (key value : String) : Finding S :=
  { finding with semantics := finding.semantics.insert key value }

def rated (finding : Finding S) (score : S) : Finding S :=
  { finding with score := score }

end Finding

/-- The forms in which a token is looked up in a vocabulary: its normal form first, then the word as
typed in lower case. -/
def Token.forms (token : Token) : List String :=
  [token.normal, Text.lower token.raw]

def Query.single? (query : Query) : Option Token :=
  match query.tokens with
  | [token] => some token
  | _ => none

end PlotQuery
