import PlotQuery.Text.Blank

/-! Text taken apart at separators and put together again. Values with several members are kept as
one text with a separator between the members, so these operations say what such a value holds. -/
namespace PlotQuery.Text

/-- The pieces of a text between the occurrences of a separator. There is one piece more than there
are separators, and pieces may be empty. -/
def split (separator : Char) (text : String) : List String :=
  (text.toList.splitOn separator).map String.ofList

/-- The items of a list written as one text: the trimmed pieces that are not empty. -/
def items (separator : Char) (text : String) : List String :=
  (((text.toList.splitOn separator).map trim).filter (!·.isEmpty)).map String.ofList

/-- The texts one after the other with the separator between neighbours. -/
def join (separator : String) : List String → String
  | [] => ""
  | [text] => text
  | text :: rest => text ++ separator ++ join separator rest

def trimmed (text : String) : String :=
  String.ofList (trim text.toList)

def isBlankText (text : String) : Bool :=
  allBlank text.toList

/-- Whether `part` occurs in `cs` as a run of neighbouring characters. -/
def containsRun (part : List Char) : List Char → Bool
  | [] => part.isEmpty
  | c :: cs => part.isPrefixOf (c :: cs) || containsRun part cs

def size (text : String) : Nat :=
  text.toList.length

/-- Lines end with a line feed or with a carriage return and a line feed. What follows the last line
feed is a line of its own unless it is empty, and keeps a carriage return at its end. -/
def lines (cs : List Char) : List (List Char) :=
  let pieces := cs.splitOn '\n'
  let ended := pieces.dropLast.map fun line =>
    if line.getLast? = some '\r' then line.dropLast else line
  match pieces.getLast? with
  | none => ended
  | some [] => ended
  | some rest => ended ++ [rest]

end PlotQuery.Text
