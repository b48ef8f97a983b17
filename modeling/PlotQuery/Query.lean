import PlotQuery.Stem
import PlotQuery.Text.Casing
import PlotQuery.Text.Pieces
import PlotQuery.Text.Quoted

/-! Queries as sequences of tokens. A token keeps the word as it was typed beside its normal form, in
which words are compared with the literals of a grammar. -/
namespace PlotQuery

/-- A word of a query: as typed, and in normal form. -/
structure Token where
  raw : String
  normal : String
  deriving DecidableEq, Repr

/-- The normal form of a word: the stem of its lower case. -/
def normalForm (word : String) : String :=
  String.ofList (Stem.ofWord (Text.lower word).toList)

def Token.ofWord (word : String) : Token :=
  ⟨word, normalForm word⟩

/-- A query, or a part of one: its tokens from left to right. -/
structure Query where
  tokens : List Token
  deriving DecidableEq, Repr

namespace Query

/-- Pair typed words with normal forms given beside them, if there are equally many. -/
def ofAligned? (raw normal : List String) : Option Query :=
  if raw.length = normal.length then some ⟨List.zipWith Token.mk raw normal⟩ else none

def size (query : Query) : Nat :=
  query.tokens.length

def raw (query : Query) : List String :=
  query.tokens.map Token.raw

def normals (query : Query) : List String :=
  query.tokens.map Token.normal

/-- The tokens from position `start` up to, and without, position `stop`. -/
def slice (query : Query) (start stop : Nat) : Query :=
  ⟨(query.tokens.drop start).take (stop - start)⟩

/-- The words as typed, with a space between them. -/
def rawText (query : Query) : String :=
  Text.join " " query.raw

/-- The number of characters in the normal forms. -/
def charCount (query : Query) : Nat :=
  (query.tokens.map fun token => Text.size token.normal).foldl (· + ·) 0

/-- Words that carry no meaning in a query. Words on which a grammar may hang, such as prepositions
and negation, are not among them. -/
def stopWords : List String :=
  ["a", "an", "the", "of", "me", "please", "show", "give", "draw", "make", "create",
   "generate", "display", "i", "want", "would", "like", "can", "could", "you", "let", "us",
   "is", "are", "be", "that", "this", "it", "its", "and", "using", "use"]

def isSeparator (c : Char) : Bool :=
  c == ' ' || c == '\t' || c == ','

/-- The text without blanks at its end, and then without full stops and question marks there. -/
def stripEnd (text : List Char) : List Char :=
  Text.dropEndWhile (fun c => c == '.' || c == '?') (Text.trimEnd text)

/-- The words of a text that are not among the given words, which are compared with the lower case of
each word. -/
def wordsWithout (ignored : List String) (text : String) : List String :=
  (((stripEnd text.toList).splitOnP isSeparator).filter (!·.isEmpty)).map String.ofList
    |>.filter fun word => !ignored.contains (Text.lower word)

/-- The query in a text, leaving out the given words. -/
def ofTextWithout (ignored : List String) (text : String) : Query :=
  ⟨(wordsWithout ignored text).map Token.ofWord⟩

def ofText (text : String) : Query :=
  ofTextWithout stopWords text

end Query

end PlotQuery
