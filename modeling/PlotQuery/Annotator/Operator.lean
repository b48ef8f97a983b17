import PlotQuery.Annotator

/-! Annotators for comparisons and for aggregate functions. -/
namespace PlotQuery.Annotator

/-- What a word says in a comparison. -/
inductive Comparison where
  | greater
  | less
  | equal
  | negation
  deriving DecidableEq, Repr

def comparisonWords : List (String × Comparison) :=
  [("greater", .greater), ("larger", .greater), ("more", .greater), ("smaller", .less),
   ("less", .less), ("equal", .equal), ("=", .equal), ("not", .negation)]

/-- Operators that stand for themselves. -/
def operatorSigns : List String :=
  ["<", "<=", ">", ">=", "==", "!="]

def Comparison.ofToken? (token : Token) : Option Comparison :=
  token.forms.findSome? fun form => comparisonWords.lookup form

/-- The operator that two words make together. A single word counts twice. -/
def Comparison.combine? : Comparison → Comparison → Option String
  | .negation, .negation => none
  | .greater, .greater => some ">"
  | .less, .less => some "<"
  | .equal, .equal => some "=="
  | .negation, .greater => some "<="
  | .negation, .less => some ">="
  | .negation, .equal => some "!="
  | .greater, .equal | .equal, .greater => some ">="
  | .less, .equal | .equal, .less => some "<="
  | _, _ => none

def operatorIn? (tokens : List Token) : Option String :=
  match tokens with
  | [token] =>
    if operatorSigns.contains token.raw then some token.raw
    else (Comparison.ofToken? token).bind fun word => word.combine? word
  | [first, second] => do
    (← Comparison.ofToken? first).combine? (← Comparison.ofToken? second)
  | _ => none

/-- Aggregate functions under the words for them, in normal form or as typed. -/
def aggregates : List (String × String) :=
  [("mean", "mean"), ("averag", "mean"), ("average", "mean"), ("avg", "mean"), ("sum", "sum"),
   ("count", "count"), ("std", "std"), ("standard deviat", "std"), ("standard deviation", "std"),
   ("standard error", "std"), ("min", "min"), ("minimum", "min"), ("max", "max"),
   ("maximum", "max")]

variable {S : Type} [Scalar S]

/-- A comparison of one or two tokens. -/
def operator : Annotator S where
  symbol := "$operator"
  annotate span _ := (operatorIn? span.tokens).map Finding.ofValue

/-- An aggregate function of at most two tokens. -/
def aggregate : Annotator S where
  symbol := "$aggreop"
  annotate span _ :=
    if span.size ≤ 2 then
      ([Text.join " " span.normals, Text.lower span.rawText].findSome? fun form =>
        aggregates.lookup form).map
        Finding.ofValue
    else none

end PlotQuery.Annotator
