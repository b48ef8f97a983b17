import PlotQuery.Annotator.Standard
import PlotQuery.Proofs.CheckedDistance

/-! The annotators of the library with every token read by its position. On a span that is not empty
none of them reads a token that is not there, and they find what they find without the checks. -/
namespace PlotQuery

namespace NameMatch

variable {S : Type} [Scalar S]

def checkedSimilarity (text name : String) : Except Fault S :=
  if Text.size name = 0 then return Scalar.zero
  else do
    let distance ← EditDistance.checkedOfTexts text name
    return Scalar.one - Scalar.ofNat distance / Scalar.ofNat (Text.size name)

def checkedBetter (text : String) (best : Option (NameMatch S)) (name : String) :
    Except Fault (Option (NameMatch S)) :=
  if isEligible text name then do
    let here : S ← checkedSimilarity text name
    if Scalar.lt (bound best) here then return some ⟨name, here⟩ else return best
  else return best

def checkedBest? (text : String) (names : List String) (threshold : S) :
    Except Fault (Option (NameMatch S)) := do
  let best ← names.foldlM (checkedBetter text) none
  return best.filter fun found => Scalar.le threshold found.similarity

/-- The similarity of a name rests on its distance from the text, and nothing else in it can go
wrong. -/
theorem checkedSimilarity_eq_ok (text name : String) :
    checkedSimilarity text name = .ok (PlotQuery.similarity text name : S) := by
  rw [checkedSimilarity, PlotQuery.similarity, EditDistance.checkedOfTexts_eq_ok]
  split <;> rfl

/-- Comparing one more name with the best one so far does not go wrong. -/
theorem checkedBetter_eq_ok (text : String) (best : Option (NameMatch S)) (name : String) :
    checkedBetter text best name = .ok (better text best name) := by
  rw [checkedBetter, better, checkedSimilarity_eq_ok, Checked.ok_bind]
  split
  · dsimp only
    split <;> rfl
  · rfl

/-- The search through a list of names does not go wrong, for any names and any threshold. -/
theorem checkedBest?_eq_ok (text : String) (names : List String) (threshold : S) :
    checkedBest? text names threshold = .ok (best? text names threshold) := by
  have hRun (best : Option (NameMatch S)) :
      names.foldlM (checkedBetter text) best = .ok (names.foldl (better text) best) := by
    induction names generalizing best with
    | nil => rfl
    | cons name names ih =>
        rw [List.foldlM_cons, checkedBetter_eq_ok, Checked.ok_bind, ih, List.foldl_cons]
  rw [checkedBest?, hRun, Checked.ok_bind, best?, Checked.pure_eq_ok]

end NameMatch

namespace Annotator

variable {S : Type} [Scalar S]

def checkedName (threshold : S) (span : Query) (schema : Schema S) :
    Except Fault (Option (NameMatch S)) :=
  NameMatch.checkedBest? span.rawText schema.candidateNames threshold

def checkedSingle (find : Token → Option (Finding S)) (span : Query) :
    Except Fault (Option (Finding S)) :=
  if span.size = 1 then do
    let token ← Checked.read span.tokens 0
    return find token
  else return none

def checkedComparison (span : Query) (place : Nat) : Except Fault (Option Comparison) := do
  return Comparison.ofToken? (← Checked.read span.tokens place)

def checkedOperator (span : Query) : Except Fault (Option String) :=
  if span.size = 1 then do
    let token ← Checked.read span.tokens 0
    if operatorSigns.contains token.raw then return some token.raw
    else return (← checkedComparison span 0).bind fun word => word.combine? word
  else if span.size = 2 then do
    match ← checkedComparison span 0 with
    | none => return none
    | some first => return (← checkedComparison span 1).bind first.combine?
  else return none

def checkedNumberList [ScalarText S] (span : Query) : Except Fault (Option (Finding S)) :=
  if span.size < leastListSize then return none
  else do
    let first ← Checked.read span.tokens 0
    if isNumber S first then
      let last ← Checked.read span.tokens (← Checked.sub span.size 1)
      if isNumber S last then
        let texts := numberTexts S span.tokens
        let others := span.tokens.countP fun token => !isNumber S token
        if 1 < others ∨ texts.length < leastListSize then return none
        else return some ((Finding.ofValue (Text.join "," texts)).rated
          (Scalar.ofNat texts.length / Scalar.ofNat span.size))
      else return none
    else return none

omit [Scalar S] in
/-- A span of one token has a first token, and on others nothing is read. -/
theorem checkedSingle_eq_ok (find : Token → Option (Finding S)) (span : Query) :
    checkedSingle find span = .ok (span.single?.bind find) := by
  rcases span with ⟨_ | ⟨token, _ | ⟨next, rest⟩⟩⟩ <;> rfl

/-- A token that is there can be read as a comparison. -/
theorem checkedComparison_eq_ok {span : Query} {place : Nat} {token : Token}
    (h : span.tokens[place]? = some token) :
    checkedComparison span place = .ok (Comparison.ofToken? token) := by
  rw [checkedComparison, Checked.read_eq_ok h, Checked.ok_bind, Checked.pure_eq_ok]

/-- An operator is looked up only in spans of one or two tokens, and by tokens that are there. -/
theorem checkedOperator_eq_ok (span : Query) :
    checkedOperator span = .ok (operatorIn? span.tokens) := by
  rcases span with ⟨_ | ⟨first, _ | ⟨second, _ | ⟨third, rest⟩⟩⟩⟩
  · rfl
  · have hSize : (Query.mk [first]).size = 1 := rfl
    have hFirst : (Query.mk [first]).tokens[0]? = some first := rfl
    rw [checkedOperator, if_pos hSize, checkedComparison_eq_ok hFirst, Checked.read_eq_ok hFirst,
      Checked.ok_bind, Checked.ok_bind, operatorIn?]
    split <;> rfl
  · have hSize : (Query.mk [first, second]).size = 2 := rfl
    have hFirst : (Query.mk [first, second]).tokens[0]? = some first := rfl
    have hSecond : (Query.mk [first, second]).tokens[1]? = some second := rfl
    rw [checkedOperator, if_neg (by omega), if_pos hSize, checkedComparison_eq_ok hFirst,
      checkedComparison_eq_ok hSecond, Checked.ok_bind, operatorIn?]
    cases Comparison.ofToken? first with
    | none => rfl
    | some word => cases Comparison.ofToken? second <;> rfl
  · simp [checkedOperator, operatorIn?, Query.size]

/-- There are as many texts of numbers as tokens that are numbers. Together with the number of
tokens this says how many are left over. -/
theorem length_numberTexts [ScalarText S] (tokens : List Token) :
    (numberTexts S tokens).length = tokens.countP (isNumber S) := by
  rw [numberTexts, List.length_filterMap_eq_countP]
  exact List.countP_congr fun token _ => by rw [Option.isSome_map, isNumber]

/-- The tokens that are not numbers are those that the numbers leave over. So the difference of
their counts is not negative. -/
theorem checkedNumberList_eq_ok [ScalarText S] (span : Query) (schema : Schema S) :
    checkedNumberList span = .ok (numberList.annotate span schema) := by
  have hOthers : span.tokens.length - (numberTexts S span.tokens).length =
      span.tokens.countP fun token => !isNumber S token := by
    rw [length_numberTexts, List.length_eq_countP_add_countP (isNumber S) (l := span.tokens)]
    simp
  simp only [checkedNumberList, numberList, hOthers]
  by_cases hSize : span.size < leastListSize
  · have hLength : ¬leastListSize ≤ span.tokens.length := Nat.not_le.2 hSize
    simp [hSize, hLength]
  · have hLength : leastListSize ≤ span.tokens.length := Nat.not_lt.1 hSize
    have hPositive : 0 < span.tokens.length := Nat.lt_of_lt_of_le (by decide) hLength
    have hFirst := List.getElem?_eq_getElem hPositive
    have hLast := List.getElem?_eq_getElem (Nat.sub_one_lt_of_lt hPositive)
    have hEnd : Checked.sub span.size 1 = .ok (span.tokens.length - 1) :=
      Checked.sub_eq_ok hPositive
    rw [if_neg hSize, Checked.read_eq_ok hFirst, Checked.ok_bind, hEnd, Checked.ok_bind,
      Checked.read_eq_ok hLast, Checked.ok_bind, List.head?_eq_getElem?, hFirst,
      List.getLast?_eq_getElem?, hLast, Option.any_some, Option.any_some]
    cases isNumber S span.tokens[0] with
    | false => simp
    | true =>
        cases isNumber S span.tokens[span.tokens.length - 1] with
        | false => simp
        | true =>
            simp only [hLength, decide_true, Bool.true_and, if_true, Bool.and_eq_true,
              decide_eq_true_eq, Checked.pure_eq_ok]
            split
            · next hFew => rw [if_neg (by omega)]
            · next hMany =>
              rw [if_pos (by omega)]
              rfl

/-- An annotator of the library. -/
inductive Kind (S : Type) where
  | number
  | numberList
  | column (threshold : S)
  | auxiliaryColumn (threshold : S)
  | color
  | lineStyle
  | marker
  | quotedText
  | operator
  | aggregate

namespace Kind

variable [ScalarText S]

def annotator : Kind S → Annotator S
  | number => Annotator.number
  | numberList => Annotator.numberList
  | column threshold => Annotator.column threshold
  | auxiliaryColumn threshold => Annotator.auxiliaryColumn threshold
  | color => Annotator.color
  | lineStyle => Annotator.lineStyle
  | marker => Annotator.marker
  | quotedText => Annotator.quotedText
  | operator => Annotator.operator
  | aggregate => Annotator.aggregate

/-- What the annotator makes of a span, with every token read by its position. -/
def checked (kind : Kind S) (span : Query) (schema : Schema S) :
    Except Fault (Option (Finding S)) :=
  match kind with
  | number => checkedSingle (fun token => do
      let n : S ← finite? token.normal
      return Finding.ofValue (ScalarText.text n)) span
  | numberList => checkedNumberList span
  | column threshold => do
      return (← checkedName threshold span schema).map fun found =>
        ((Finding.ofValue found.name).put "ColName" found.name).rated found.similarity
  | auxiliaryColumn threshold => do
      return (← checkedName threshold span schema).map fun found =>
        (Finding.ofValue found.name).rated found.similarity
  | color => checkedSingle (fun token => do
      let code ← token.forms.findSome? fun form => colors.lookup form
      return coded "color" code) span
  | lineStyle => checkedSingle (fun token => do
      let code ← lineStyles.lookup (Text.lower token.raw)
      return coded "line" code) span
  | marker => checkedSingle (fun token => do
      let code ← markers.lookup (Text.lower token.raw)
      return coded "marker" code) span
  | quotedText => checkedSingle (fun token =>
      if isQuoted token.raw.toList then some (Finding.ofValue token.raw) else none) span
  | operator => do
      return (← checkedOperator span).map Finding.ofValue
  -- An aggregate is looked up by the words of the whole span.
  | aggregate => return Annotator.aggregate.annotate span schema

/-- No annotator of the library reads beyond the span. Each finds there what it finds without the
checks. -/
theorem checked_eq_ok (kind : Kind S) (span : Query) (schema : Schema S) :
    kind.checked span schema = .ok (kind.annotator.annotate span schema) := by
  cases kind with
  | numberList => exact checkedNumberList_eq_ok span schema
  | column threshold | auxiliaryColumn threshold =>
      rw [checked, checkedName, NameMatch.checkedBest?_eq_ok]
      rfl
  | operator =>
      rw [checked, checkedOperator_eq_ok]
      rfl
  | aggregate => rfl
  | number | color | lineStyle | marker | quotedText => exact checkedSingle_eq_ok _ span

end Kind

end Annotator

end PlotQuery
