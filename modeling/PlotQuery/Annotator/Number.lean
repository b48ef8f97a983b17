import PlotQuery.Annotator

/-! Annotators for numbers and for lists of numbers. -/
namespace PlotQuery.Annotator

variable {S : Type} [Scalar S] [ScalarText S]

def finite? (text : String) : Option S :=
  (ScalarText.read? text).filter Scalar.isFinite

/-- A token that is a number, with the number in its shortest form. -/
def number : Annotator S where
  symbol := "$number"
  annotate span _ := do
    let token ← span.single?
    let n : S ← finite? token.normal
    return Finding.ofValue (ScalarText.text n)

def leastListSize : Nat := 3

/-- The numbers among the tokens, in their shortest form. -/
def numberTexts (S : Type) [Scalar S] [ScalarText S] (tokens : List Token) : List String :=
  tokens.filterMap fun token => (finite? token.normal : Option S).map ScalarText.text

def isNumber (S : Type) [Scalar S] [ScalarText S] (token : Token) : Bool :=
  (finite? token.normal : Option S).isSome

/-- Three numbers or more with at most one other token among them. The list starts and ends with a
number, and its score is the share of its tokens that are numbers. -/
def numberList : Annotator S where
  symbol := "$number_list"
  annotate span _ :=
    let tokens := span.tokens
    let texts := numberTexts S tokens
    let ends := tokens.head?.any (isNumber S) && tokens.getLast?.any (isNumber S)
    if leastListSize ≤ tokens.length && ends && tokens.length - texts.length ≤ 1
      && leastListSize ≤ texts.length then
      some ((Finding.ofValue (Text.join "," texts)).rated
        (Scalar.ofNat texts.length / Scalar.ofNat tokens.length))
    else none

end PlotQuery.Annotator
