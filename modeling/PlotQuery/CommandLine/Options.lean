/-! The command line: options with their values, and the query. -/
namespace PlotQuery

/-- What the command line asks for. -/
structure Options where
  query : Option String
  /-- The name of the table. -/
  frame : String
  /-- The columns of the table. -/
  columns : List String
  /-- The file with the schema, which takes the place of the two fields before. -/
  schema : Option String
  /-- The file with a grammar of its own. -/
  grammar : Option String
  /-- The file with a query on each line. -/
  input : Option String
  /-- The file for the result. -/
  output : Option String
  /-- Whether the result is JSON. -/
  json : Bool
  deriving DecidableEq, Repr

/-- The reasons for which a command line asks for nothing. -/
inductive OptionError where
  /-- An option is unknown, or there is a second query. -/
  | unknownArgument
  /-- An option has no value. -/
  | missingValue
  /-- An option is given twice. -/
  | repeated
  /-- A flag is given a value. -/
  | unexpectedValue
  /-- The help is asked for. -/
  | helpWanted
  /-- The version is asked for. -/
  | versionWanted
  deriving DecidableEq, Repr

namespace Options

/-- The options that take a value. -/
inductive Name where
  | frame
  | columns
  | schema
  | grammar
  | input
  | output
  deriving DecidableEq, Repr

/-- What an option stands for. -/
inductive Kind where
  | valued (name : Name)
  | json
  | help
  | version
  deriving DecidableEq, Repr

def longNames : List (String × Kind) :=
  [("frame", .valued .frame), ("columns", .valued .columns), ("schema", .valued .schema),
   ("grammar", .valued .grammar), ("input", .valued .input), ("output", .valued .output),
   ("json", .json), ("help", .help), ("version", .version)]

def shortNames : List (Char × Kind) :=
  [('f', .valued .frame), ('c', .valued .columns), ('s', .valued .schema),
   ('g', .valued .grammar), ('i', .valued .input), ('o', .valued .output), ('h', .help),
   ('V', .version)]

/-- An argument by its form. -/
inductive Argument where
  /-- Two hyphens alone, which end the options. -/
  | separator
  /-- A long option, perhaps with a value behind a sign of equality. -/
  | long (name : String) (value : Option String)
  /-- Short options after one hyphen. -/
  | short (letters : List Char)
  /-- Any other text, a single hyphen included. -/
  | plain (text : String)
  deriving DecidableEq, Repr

def Argument.ofText (text : String) : Argument :=
  match text.toList with
  | ['-', '-'] => .separator
  | '-' :: '-' :: rest =>
    match rest.dropWhile (· != '=') with
    | [] => .long (String.ofList rest) none
    | _ :: value =>
      .long (String.ofList (rest.takeWhile (· != '='))) (some (String.ofList value))
  | ['-'] => .plain text
  | '-' :: letters => .short letters
  | _ => .plain text

/-- What has been given so far. -/
structure Given where
  query : Option String
  frame : Option String
  columns : List String
  schema : Option String
  grammar : Option String
  input : Option String
  output : Option String
  json : Bool

namespace Given

def nothing : Given :=
  ⟨none, none, [], none, none, none, none, false⟩

/-- The options, with a name for the table if none is given. -/
def options (g : Given) : Options :=
  ⟨g.query, g.frame.getD "df", g.columns, g.schema, g.grammar, g.input, g.output, g.json⟩

/-- A value for a file, which may be given once and not be empty. -/
def file (field : Option String) (value : String) : Except OptionError (Option String) :=
  if field.isSome then throw .repeated
  else if value.isEmpty then throw .missingValue
  else return some value

/-- Take in the value of an option. Only columns may be given more than once. They are separated by
commas. -/
def put (g : Given) (name : Name) (value : String) : Except OptionError Given :=
  match name with
  | .frame => if g.frame.isSome then throw .repeated else return { g with frame := some value }
  | .columns =>
    return { g with columns := g.columns ++ (value.toList.splitOn ',').map String.ofList }
  | .schema => (file g.schema value).map fun schema => { g with schema }
  | .grammar => (file g.grammar value).map fun grammar => { g with grammar }
  | .input => (file g.input value).map fun input => { g with input }
  | .output => (file g.output value).map fun output => { g with output }

def putJson (g : Given) : Except OptionError Given :=
  if g.json then throw .repeated else return { g with json := true }

end Given

/-- An option whose value is still to come, or has come but is not yet taken in. -/
inductive Pending where
  | nothing
  | waiting (name : Name)
  | filled (name : Name) (value : String)

/-- The state between two arguments. -/
structure State where
  given : Given
  pending : Pending
  /-- Whether all further arguments are queries, whatever their form. -/
  ended : Bool

namespace State

def start : State :=
  ⟨Given.nothing, .nothing, false⟩

/-- What is given once the pending option is taken in. -/
def settle (s : State) : Except OptionError Given :=
  match s.pending with
  | .nothing => return s.given
  | .waiting _ => throw .missingValue
  | .filled name value => s.given.put name value

/-- Take in an option with a value beside it, or wait for the value. -/
def takeValued (s : State) (name : Name) (value : Option String) : Except OptionError State := do
  let given ← s.settle
  match value with
  | some value => return { s with given := ← given.put name value, pending := .nothing }
  | none => return { s with given, pending := .waiting name }

def takeFlag (s : State) (flag : Kind) : Except OptionError State := do
  let given ← s.settle
  match flag with
  | .json => return { s with given := ← given.putJson, pending := .nothing }
  | .help => throw .helpWanted
  | _ => throw .versionWanted

/-- Take in a query. There is room for one, which counts before what is pending. -/
def takeQuery (s : State) (text : String) : Except OptionError State :=
  if s.given.query.isSome then throw .unknownArgument
  else s.settle.map fun given =>
    { s with given := { given with query := some text }, pending := .nothing }

/-- Take in a long option. A value that a flag does not take counts before what is pending. -/
def takeLong (s : State) (name : String) (value : Option String) : Except OptionError State :=
  match longNames.lookup name with
  | none => throw .unknownArgument
  | some (.valued name) => s.takeValued name value
  | some flag => if value.isSome then throw .unexpectedValue else s.takeFlag flag

/-- Take in a short option. What follows its letter is its value, less a sign of equality in front. -/
def takeShort (s : State) (letters : List Char) : Except OptionError State :=
  match letters with
  | [] => throw .unknownArgument
  | letter :: rest =>
    match shortNames.lookup letter with
    | none => throw .unknownArgument
    | some (.valued name) =>
      match rest with
      | [] => s.takeValued name none
      | '=' :: value => s.takeValued name (some (String.ofList value))
      | value => s.takeValued name (some (String.ofList value))
    | some flag => s.takeFlag flag

def take (s : State) (text : String) : Except OptionError State :=
  if s.ended then s.takeQuery text
  else
    match Argument.ofText text with
    | .separator => return { s with ended := true }
    | .long name value => s.takeLong name value
    | .short letters => s.takeShort letters
    | .plain text =>
      match s.pending with
      | .waiting name => return { s with pending := .filled name text }
      | _ => s.takeQuery text

end State

def ofArguments (arguments : List String) : Except OptionError Options := do
  let s ← arguments.foldlM State.take State.start
  return (← s.settle).options

end Options

end PlotQuery
