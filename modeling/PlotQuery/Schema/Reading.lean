import PlotQuery.Json
import PlotQuery.Schema

/-! Schemas read from JSON. A record is an object with its fields by name, or an array with its fields
in order. Fields may be missing, in an array only at the end, but a field that is there has to have
the right type. Fields of other names are passed over, and no field may be given twice. -/
namespace PlotQuery.Schema

/-- The fields of a record by the names given, in their order: what is there for each. -/
def readFields? (names : List String) : Json → Option (List (Option Json))
  | .array items =>
    if items.length ≤ names.length then
      some (items.map some ++ List.replicate (names.length - items.length) none)
    else none
  | .object members =>
    if names.any fun name => 1 < (members.map Prod.fst).count name then none
    else some (names.map fun name => members.lookup name)
  | _ => none

def readText? : Json → Option String
  | .string value => some value
  | _ => none

/-- A list whose items are all read by the same function. -/
def readList? {α : Type} (readItem? : Json → Option α) : Json → Option (List α)
  | .array items => items.mapM readItem?
  | _ => none

def readField? {α : Type} (missing : α) (readValue? : Json → Option α) :
    Option Json → Option α
  | none => some missing
  | some value => readValue? value

variable {S : Type} [Scalar S] [ScalarText S]

/-- A number. Numbers beyond all finite ones are refused. -/
def readNumber? : Json → Option S
  | .number text => (ScalarText.read? text).filter Scalar.isFinite
  | _ => none

/-- A range, or null for none. -/
def readRange? : Json → Option (Option (S × S))
  | .null => some none
  | .array [low, high] => do return some (← readNumber? low, ← readNumber? high)
  | _ => none

def readProfile? (value : Json) : Option (ColumnProfile S) := do
  match ← readFields? ["dtype", "range"] value with
  | [dtype, range] =>
    return ⟨← readField? "" readText? dtype, ← readField? none readRange? range⟩
  | _ => none

def ofJson? (value : Json) : Option (Schema S) := do
  match ← readFields? ["data_frame", "columns", "single_frame_names", "profiles"] value with
  | [dataFrame, columns, looseNames, profiles] =>
    return ⟨← readField? "" readText? dataFrame, ← readField? [] (readList? readText?) columns,
      ← readField? [] (readList? readText?) looseNames,
      ← readField? [] (readList? readProfile?) profiles⟩
  | _ => none

end PlotQuery.Schema
