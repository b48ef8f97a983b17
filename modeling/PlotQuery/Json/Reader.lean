import PlotQuery.Decimal.Reading
import PlotQuery.Json

/-! JSON text read as a value. Each step takes characters off the front of the text, so a bound equal
to the length of the text never runs out. -/
namespace PlotQuery.Json

def isSpace (c : Char) : Bool :=
  c == ' ' || c == '\n' || c == '\t' || c == '\r'

def skipSpace (text : List Char) : List Char :=
  text.dropWhile isSpace

def hexValue? (c : Char) : Option Nat :=
  if '0' ≤ c && c ≤ '9' then some (c.toNat - 48)
  else if 'a' ≤ c && c ≤ 'f' then some (c.toNat - 87)
  else if 'A' ≤ c && c ≤ 'F' then some (c.toNat - 55)
  else none

def readHex? (text : List Char) : Option (Nat × List Char) :=
  match text with
  | a :: b :: c :: d :: rest => do
    return (((← hexValue? a) * 16 + (← hexValue? b)) * 256
      + ((← hexValue? c) * 16 + (← hexValue? d)), rest)
  | _ => none

/-- The character of an escape in hexadecimal digits, for which two escapes may stand together. -/
def readUnicode? (text : List Char) : Option (Char × List Char) := do
  let (high, rest) ← readHex? text
  if 0xD800 ≤ high && high ≤ 0xDBFF then
    match rest with
    | '\\' :: 'u' :: rest =>
      let (low, rest) ← readHex? rest
      if 0xDC00 ≤ low && low ≤ 0xDFFF then
        some (Char.ofNat (0x10000 + (high - 0xD800) * 0x400 + (low - 0xDC00)), rest)
      else none
    | _ => none
  else if 0xDC00 ≤ high && high ≤ 0xDFFF then none
  else some (Char.ofNat high, rest)

/-- The character of an escape, after the backslash. -/
def readEscape? (text : List Char) : Option (Char × List Char) :=
  match text with
  | '"' :: rest => some ('"', rest)
  | '\\' :: rest => some ('\\', rest)
  | '/' :: rest => some ('/', rest)
  | 'b' :: rest => some (Char.ofNat 0x08, rest)
  | 'f' :: rest => some (Char.ofNat 0x0C, rest)
  | 'n' :: rest => some ('\n', rest)
  | 'r' :: rest => some ('\r', rest)
  | 't' :: rest => some ('\t', rest)
  | 'u' :: rest => readUnicode? rest
  | _ => none

/-- The characters of a string after its opening quote, and the text after its closing quote. -/
def readString? : Nat → List Char → Option (List Char × List Char)
  | 0, _ => none
  | _, [] => none
  | bound + 1, c :: rest =>
    if c == '"' then some ([], rest)
    else if c == '\\' then do
      let (escaped, rest) ← readEscape? rest
      let (cs, rest) ← readString? bound rest
      return (escaped :: cs, rest)
    else if c.toNat < 0x20 then none
    else do
      let (cs, rest) ← readString? bound rest
      return (c :: cs, rest)

def isNumberChar (c : Char) : Bool :=
  Decimal.isDigit c || c == '-' || c == '+' || c == '.' || c == 'e' || c == 'E'

/-- Whether a text is a number: no sign but a minus, no zero in front of another digit, and a digit on
either side of a point. -/
def isNumber (text : List Char) : Bool :=
  let unsigned := match text with
    | '-' :: rest => rest
    | _ => text
  let whole := unsigned.takeWhile Decimal.isDigit
  let rest := unsigned.dropWhile Decimal.isDigit
  let startsWell := match whole with
    | [] => false
    | ['0'] => true
    | c :: _ => c != '0'
  let (placed, tail) := match rest with
    | '.' :: more => (!(more.takeWhile Decimal.isDigit).isEmpty, more.dropWhile Decimal.isDigit)
    | _ => (true, rest)
  startsWell && placed && (Decimal.readExponent? tail).isSome

mutual

/-- A value in front of a text, and the rest of the text. -/
def readValue? : Nat → List Char → Option (Json × List Char)
  | 0, _ => none
  | bound + 1, text =>
    match skipSpace text with
    | 'n' :: 'u' :: 'l' :: 'l' :: rest => some (.null, rest)
    | 't' :: 'r' :: 'u' :: 'e' :: rest => some (.bool true, rest)
    | 'f' :: 'a' :: 'l' :: 's' :: 'e' :: rest => some (.bool false, rest)
    | '"' :: rest => do
      let (cs, rest) ← readString? (rest.length + 1) rest
      return (.string (String.ofList cs), rest)
    | '[' :: rest =>
      match skipSpace rest with
      | ']' :: rest => some (.array [], rest)
      | _ => do
        let (items, rest) ← readItems? bound rest
        return (.array items, rest)
    | '\x7b' :: rest =>
      match skipSpace rest with
      | '\x7d' :: rest => some (.object [], rest)
      | _ => do
        let (members, rest) ← readMembers? bound rest
        return (.object members, rest)
    | text =>
      let number := text.takeWhile isNumberChar
      if isNumber number then
        some (.number (String.ofList number), text.dropWhile isNumberChar)
      else none

/-- The items of an array up to its closing bracket. -/
def readItems? : Nat → List Char → Option (List Json × List Char)
  | 0, _ => none
  | bound + 1, text => do
    let (item, rest) ← readValue? bound text
    match skipSpace rest with
    | ',' :: rest =>
      let (items, rest) ← readItems? bound rest
      return (item :: items, rest)
    | ']' :: rest => return ([item], rest)
    | _ => none

/-- The members of an object up to its closing brace. -/
def readMembers? : Nat → List Char → Option (List (String × Json) × List Char)
  | 0, _ => none
  | bound + 1, text =>
    match skipSpace text with
    | '"' :: rest => do
      let (key, rest) ← readString? (rest.length + 1) rest
      match skipSpace rest with
      | ':' :: rest =>
        let (value, rest) ← readValue? bound rest
        let key := String.ofList key
        match skipSpace rest with
        | ',' :: rest =>
          let (members, rest) ← readMembers? bound rest
          return ((key, value) :: members, rest)
        | '\x7d' :: rest => return ([(key, value)], rest)
        | _ => none
      | _ => none
    | _ => none

end

/-- The value in a text that holds nothing else but white space. -/
def read? (text : String) : Option Json := do
  let cs := text.toList
  let (value, rest) ← readValue? (2 * cs.length + 2) cs
  if (skipSpace rest).isEmpty then some value else none

end PlotQuery.Json
