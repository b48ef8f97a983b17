import PlotQuery.Json
import PlotQuery.Text.Pieces

/-! JSON text over several lines: two blanks of indentation for each level, the members of an object
in the order of their keys, and all characters as they are except quotes, backslashes and controls. -/
namespace PlotQuery.Json

def hexDigit (n : Nat) : Char :=
  Nat.digitChar (n % 16)

def escapeChar (c : Char) : List Char :=
  let n := c.toNat
  if c == '"' then ['\\', '"']
  else if c == '\\' then ['\\', '\\']
  else if n == 0x08 then ['\\', 'b']
  else if n == 0x09 then ['\\', 't']
  else if n == 0x0A then ['\\', 'n']
  else if n == 0x0C then ['\\', 'f']
  else if n == 0x0D then ['\\', 'r']
  else if n < 0x20 then ['\\', 'u', '0', '0', hexDigit (n / 16), hexDigit n]
  else [c]

def quote (text : String) : String :=
  String.ofList ('"' :: text.toList.flatMap escapeChar ++ ['"'])

/-- The start of a line at the given level. -/
def indentation (level : Nat) : String :=
  String.ofList ('\n' :: List.replicate (2 * level) ' ')

/-- Items between brackets, each on a line of its own. -/
def bracket (opening closing : String) (level : Nat) (items : List String) : String :=
  if items.isEmpty then opening ++ closing
  else
    opening ++ indentation (level + 1)
      ++ Text.join ("," ++ indentation (level + 1)) items ++ indentation level ++ closing

/-- Whether a member comes before another one in the order of the keys. -/
def keyBefore (a b : String × String) : Bool :=
  decide (a.1 ≤ b.1)

mutual

/-- The text of a value at a level of indentation. -/
def writeAt (level : Nat) : Json → String
  | .null => "null"
  | .bool value => if value then "true" else "false"
  | .number text => text
  | .string value => quote value
  | .array items => bracket "[" "]" level (writeItems (level + 1) items)
  | .object members =>
    bracket "\x7b" "\x7d" level
      (((writeMembers (level + 1) members).mergeSort keyBefore).map fun member =>
        quote member.1 ++ ": " ++ member.2)

def writeItems (level : Nat) : List Json → List String
  | [] => []
  | item :: items => writeAt level item :: writeItems level items

/-- The keys of an object with the texts of their values. -/
def writeMembers (level : Nat) : List (String × Json) → List (String × String)
  | [] => []
  | (key, value) :: members => (key, writeAt level value) :: writeMembers level members

end

def write (value : Json) : String :=
  writeAt 0 value

end PlotQuery.Json
