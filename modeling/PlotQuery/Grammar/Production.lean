import PlotQuery.Decimal.Reading
import PlotQuery.Grammar.Error
import PlotQuery.Query
import PlotQuery.Rule

/-! Productions as they are written. A production is a symbol, the sign `:=` and alternatives with
`|` between them. An alternative is a row of symbols, of which those with a `?` may be left out, and
at most one assignment in braces. Each choice of the symbols that are present gives one rule. Reading
a production needs nothing but its text. -/
namespace PlotQuery

/-- A symbol as written in a production. -/
inductive Term where
  | nonterminal (name : String)
  | literal (word : String)
  | placeholder (name : String)
  deriving DecidableEq, Repr

/-- A term of an alternative, which may be left out if it is optional. -/
structure Slot where
  term : Term
  optional : Bool
  deriving DecidableEq, Repr

/-- The right side of a rule before its symbols are numbered. -/
inductive TermBody where
  | words (literals : List String)
  | unary (child : Term)
  | binary (left right : Term)
  deriving DecidableEq, Repr

/-- A rule before its symbols are numbered. -/
structure TermRule where
  body : TermBody
  action : Option Action
  deriving DecidableEq, Repr

/-- A production: the symbol on its left side and its rules in order. -/
structure Production where
  lhs : String
  rules : List TermRule
  deriving DecidableEq, Repr

namespace Production

/-- The word of a literal, if the term is one. -/
def literal? : Term → Option String
  | .literal word => some word
  | _ => none

/-- The pieces of a text between the occurrences of the sign `:=`. -/
def splitSides : List Char → List (List Char)
  | [] => [[]]
  | ':' :: '=' :: rest => [] :: splitSides rest
  | c :: rest =>
    match splitSides rest with
    | [] => [[c]]
    | piece :: pieces => (c :: piece) :: pieces

/-- The text without a last character, which has to be the given one. -/
def dropLast? (last : Char) (text : List Char) : Option (List Char) :=
  if text.getLast? = some last then some text.dropLast else none

/-- The text before and after the first occurrence of a separator. -/
def splitFirst? (separator : Char) (text : List Char) : Option (List Char × List Char) :=
  match text.dropWhile (· != separator) with
  | [] => none
  | _ :: rest => some (text.takeWhile (· != separator), rest)

/-- Positions in an alternative are below this bound. -/
def indexBound : Nat :=
  Nat.pow 2 64

/-- The reference `$index.property`, less the sign in front. -/
def readReference? (text : List Char) : Option ActionValue := do
  let (index, property) ← splitFirst? '.' text
  let index ← Decimal.readNat? index
  if index < indexBound && !property.isEmpty && !property.any Text.isBlank then
    some (.child index (String.ofList property))
  else none

def readValue? (text : List Char) : Option ActionValue :=
  match text with
  | '$' :: reference => readReference? reference
  | _ => some (.literal (String.ofList text))

/-- The assignment `key : value }`, which has lost its opening brace. -/
def readAction? (clause : List Char) : Option Action := do
  let inner ← dropLast? '\x7d' (Text.trim clause)
  match (inner.splitOn ':').map Text.trim with
  | [key, value] =>
    if key.isEmpty || value.isEmpty || key.any Text.isBlank then none
    else (readValue? value).map (Action.mk (String.ofList key))
  | _ => none

/-- The symbols of an alternative and its assignment. -/
def splitAction? (alternative : List Char) : Option (List Char × Option Action) :=
  match alternative.splitOn '\x7b' with
  | [body] => if body.contains '\x7d' then none else some (body, none)
  | [body, clause] =>
    if body.contains '\x7d' then none
    else (readAction? clause).map fun action => (body, some action)
  | _ => none

/-- The word between the quotes of a literal, which has lost its opening quote. -/
def readLiteral? (rest : List Char) : Option String :=
  match dropLast? '"' rest with
  | none => none
  | some inner => if Text.allBlank inner then none else some (normalForm (String.ofList inner))

def readTerm (production : String) (name : List Char) : Except GrammarError Term :=
  match name with
  | [] => throw (.blankSymbol production)
  | '"' :: rest =>
    match readLiteral? rest with
    | some word => return .literal word
    | none => throw (.invalidLiteral (String.ofList name) production)
  | '$' :: rest =>
    if rest.isEmpty then throw (.blankSymbol production)
    else return .placeholder (String.ofList name)
  | _ => return .nonterminal (String.ofList name)

def readSlot (production : String) (word : List Char) : Except GrammarError Slot :=
  match dropLast? '?' word with
  | some name => (readTerm production name).map fun term => ⟨term, true⟩
  | none => (readTerm production word).map fun term => ⟨term, false⟩

/-- The choices of the slots that are present, where a slot that is optional is first absent and then
present. -/
def expansions : List Slot → List (List Bool)
  | [] => [[]]
  | slot :: slots =>
    (if slot.optional then [false, true] else [true]).flatMap fun choice =>
      (expansions slots).map (choice :: ·)

def present (slots : List Slot) (mask : List Bool) : List Term :=
  ((slots.zip mask).filter Prod.snd).map fun pair => pair.1.term

/-- The assignment with its reference counted among the symbols that are present. Without the symbol
it refers to there is no assignment. -/
def reindex (mask : List Bool) (action : Action) : Option Action :=
  match action.value with
  | .literal _ => some action
  | .child index property =>
    if mask[index]?.getD false then
      some ⟨action.key, .child (index - (mask.take index).count false) property⟩
    else none

def referenceText (index : Nat) (property : String) : String :=
  "$" ++ toString index ++ "." ++ property

/-- The rule for the terms that are present. Literals alone are a row of words, which has no children
to refer to. Any other row has one symbol or two. -/
def ruleOf (production : String) (terms : List Term) (action : Option Action) :
    Except GrammarError TermRule :=
  if terms.all fun term => (literal? term).isSome then
    match action with
    | some ⟨_, .child index property⟩ =>
      throw (.invalidReference (referenceText index property) production)
    | _ => return ⟨.words (terms.filterMap literal?), action⟩
  else
    match terms with
    | [child] => return ⟨.unary child, action⟩
    | [left, right] => return ⟨.binary left right, action⟩
    | _ => throw (.arityTooLarge terms.length production)

/-- Whether an assignment refers to a symbol at a position that an alternative of the given size does
not have. -/
def danglingReference? (size : Nat) (action : Option Action) : Option String :=
  match action with
  | some ⟨_, .child index property⟩ =>
    if size ≤ index then some (referenceText index property) else none
  | _ => none

/-- The rules of an alternative, one for each choice of symbols that leaves any. -/
def readAlternative (production : String) (alternative : List Char) :
    Except GrammarError (List TermRule) := do
  match splitAction? alternative with
  | none => throw (.invalidSemantics production)
  | some (body, action) =>
    let slots ← (Text.words body).mapM (readSlot production)
    if slots.isEmpty then throw (.emptyAlternative production)
    match danglingReference? slots.length action with
    | some reference => throw (.invalidReference reference production)
    | none =>
      ((expansions slots).filter fun mask => !(present slots mask).isEmpty).mapM fun mask =>
        ruleOf production (present slots mask) (action.bind (reindex mask))

/-- Whether a text can stand on the left side. -/
def isSymbolName (text : List Char) : Bool :=
  match text with
  | [] => false
  | c :: _ => c != '"' && c != '$' && !text.any Text.isBlank

/-- Read the characters of a production, which is quoted in errors. -/
def readChars (production : String) (text : List Char) : Except GrammarError Production :=
  match (splitSides text).map Text.trim with
  | [lhs, rhs] =>
    if isSymbolName lhs && !rhs.isEmpty then
      ((rhs.splitOn '|').mapM fun alternative =>
        readAlternative production (Text.trim alternative)).map fun rules =>
          ⟨String.ofList lhs, rules.flatten⟩
    else throw (.invalidProduction production)
  | _ => throw (.invalidProduction production)

def read (text : String) : Except GrammarError Production :=
  readChars text text.toList

end Production

/-- The text without comments, which start with `#` and end with the line. -/
def stripComments (text : List Char) : List Char :=
  ['\n'].intercalate ((Text.lines text).map fun line => line.takeWhile (· != '#'))

/-- The productions of a text, which has a `;` between them. -/
def productionTexts (text : String) : List String :=
  ((((stripComments text.toList).splitOn ';').map Text.trim).filter (!·.isEmpty)).map String.ofList

end PlotQuery
