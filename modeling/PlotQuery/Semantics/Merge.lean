import PlotQuery.Scalar
import PlotQuery.Semantics
import PlotQuery.Text.Pieces

/-! Merging of semantic maps. When two parts of a query stand side by side their maps become one. A
value under a key of both maps is joined to the other as a list or gives way to it, as a policy says,
and a repetition that the policy does not expect costs a factor of the score. -/
namespace PlotQuery

/-- The key for the text or value of a part as a whole. -/
def valueKey : String :=
  "Value"

/-- The character between the members of a value with several members. -/
def listSeparator : Char :=
  ';'

/-- How values under a common key are merged. -/
structure MergePolicy (S : Type) where
  /-- Keys that are not expected in both maps. -/
  nonRepeated : List String
  /-- The factor for each such key. -/
  repeatPenalty : S
  /-- Keys whose values are united: each member once, in the order of first appearance. -/
  unionKeys : List String
  /-- Keys whose values are put one after the other. -/
  concatKeys : List String

/-- The policy for queries about plots. -/
def MergePolicy.standard {S : Type} [Scalar S] : MergePolicy S where
  nonRepeated :=
    ["histodens", "histobins", "histostack", "histolog", "scattermarker", "scattercolor"]
  repeatPenalty := Scalar.hundredths 80
  unionKeys := ["ColName", "group_col"]
  concatKeys := ["filter_v", "filter_op"]

namespace Semantics

variable {S : Type} [Scalar S]

/-- The members of two lists, each once, in the order of first appearance. -/
def unionValue (a b : String) : String :=
  Text.join (String.singleton listSeparator)
    (Text.split listSeparator a ++ Text.split listSeparator b).eraseDups

/-- One list after the other. -/
def concatValue (a b : String) : String :=
  a ++ String.singleton listSeparator ++ b

/-- The value under a key of both maps. -/
def mergeValue (policy : MergePolicy S) (key left right : String) : String :=
  if policy.unionKeys.contains key then unionValue left right
  else if policy.concatKeys.contains key then concatValue left right
  else right

/-- Whether a key in both maps is penalised. -/
def penalizes (policy : MergePolicy S) (key : String) : Bool :=
  key != valueKey && policy.nonRepeated.contains key

/-- Merge one entry into a map, with the penalty that has been incurred so far. -/
def mergeEntry (policy : MergePolicy S) (merged : Semantics × S) (entry : String × String) :
    Semantics × S :=
  match merged.1.get? entry.1 with
  | none => (merged.1.insert entry.1 entry.2, merged.2)
  | some value =>
    (merged.1.insert entry.1 (mergeValue policy entry.1 value entry.2),
      if penalizes policy entry.1 then merged.2 * policy.repeatPenalty else merged.2)

/-- Merge the right map into the left one, and the penalty for the repetitions. -/
def merge (policy : MergePolicy S) (left right : Semantics) : Semantics × S :=
  right.entries.foldl (mergeEntry policy) (left, Scalar.one)

end Semantics

end PlotQuery
