import PlotQuery.EditDistance
import PlotQuery.Scalar
import PlotQuery.Text.Pieces

/-! The name that a text most likely means. -/
namespace PlotQuery

/-- One less the distance per character of the name. It is one for the name itself in any case, and
negative if the text is much longer than the name. No text is similar to the empty name. -/
def similarity {S : Type} [Scalar S] (text name : String) : S :=
  if Text.size name = 0 then Scalar.zero
  else Scalar.one - Scalar.ofNat (EditDistance.ofTexts text name) / Scalar.ofNat (Text.size name)

/-- A name and how similar it is to the text that was looked up. -/
structure NameMatch (S : Type) where
  name : String
  similarity : S

namespace NameMatch

variable {S : Type} [Scalar S]

/-- Whether a name is long enough for the text to mean it: at least half as long. -/
def isEligible (text name : String) : Bool :=
  Text.size text ≤ Text.size name * 2

/-- What a name has to exceed: the similarity of the best match so far, or none at all. -/
def bound (best : Option (NameMatch S)) : S :=
  match best with
  | none => Scalar.zero
  | some found => found.similarity

/-- The better of the best match so far and a name. An earlier name wins against one that is only as
similar. -/
def better (text : String) (best : Option (NameMatch S)) (name : String) : Option (NameMatch S) :=
  if isEligible text name then
    let here : S := PlotQuery.similarity text name
    if Scalar.lt (bound best) here then some ⟨name, here⟩ else best
  else best

/-- The name most similar to the text, if it reaches the threshold. -/
def best? (text : String) (names : List String) (threshold : S) : Option (NameMatch S) :=
  (names.foldl (better text) none).filter fun found => Scalar.le threshold found.similarity

end NameMatch

end PlotQuery
