import PlotQuery.Annotator.Standard
import PlotQuery.CommandLine.Options
import PlotQuery.CommandLine.Report
import PlotQuery.Grammar
import PlotQuery.Json.Reader
import PlotQuery.PlotGrammar
import PlotQuery.Schema.Reading

/-! A run of the program: from the command line and the files it names to what is printed or written.
The run is a function. What it reads is given to it, and what it writes is part of its result. -/
namespace PlotQuery

/-- The files that a run can see. -/
structure Directory where
  /-- The text of a file, if there is such a file. -/
  read? : String → Option String
  /-- Whether a file of that name can be written. -/
  canWrite : String → Bool

/-- The reasons for which a run fails. -/
inductive RunError where
  | schemaMissing (path : String)
  | schemaInvalid (path : String)
  | grammarMissing (path : String)
  | grammarInvalid (path : String) (reason : GrammarError)
  | plotGrammarInvalid (reason : GrammarError)
  | inputMissing (path : String)
  | noQuery
  | outputRefused (path : String)
  deriving DecidableEq, Repr

namespace RunError

def message : RunError → String
  | schemaMissing path => "Error leyendo esquema '" ++ path ++ "'"
  | schemaInvalid path => "Esquema JSON inválido en '" ++ path ++ "'"
  | grammarMissing path => "Error leyendo gramática '" ++ path ++ "'"
  | grammarInvalid path _ => "Gramática inválida en '" ++ path ++ "'"
  | plotGrammarInvalid _ => "Gramática incluida inválida"
  | inputMissing path => "Error leyendo archivo '" ++ path ++ "'"
  | noQuery => "No se proporcionó ninguna consulta (use un argumento o --input)"
  | outputRefused path => "Error escribiendo archivo '" ++ path ++ "'"

/-- What lies behind a reason. -/
def cause? : RunError → Option String
  | schemaMissing _ | grammarMissing _ | inputMissing _ | outputRefused _ =>
    some "No such file or directory (os error 2)"
  | grammarInvalid _ reason | plotGrammarInvalid reason => some reason.message
  | schemaInvalid _ | noQuery => none

end RunError

/-- What a run leaves behind. -/
structure Outcome where
  /-- The exit status. -/
  code : Nat
  /-- What is printed. -/
  printed : String
  /-- The file that is written, with its text. -/
  written : Option (String × String)
  /-- Why the run failed, if the command line was understood. -/
  failure : Option RunError

namespace Session

variable (S : Type) [Scalar S] [ScalarText S]

/-- The schema of a run: from its file, or with the columns of the command line. -/
def schema (directory : Directory) (options : Options) : Except RunError (Schema S) :=
  match options.schema with
  | none => return Schema.ofColumns options.frame options.columns
  | some path =>
    match directory.read? path with
    | none => throw (.schemaMissing path)
    | some text =>
      match (Json.read? text).bind Schema.ofJson? with
      | none => throw (.schemaInvalid path)
      | some schema => return schema

/-- The grammar with the standard settings and annotators. -/
def standardGrammar (text : String) : Except GrammarError (Grammar S) :=
  Grammar.read Settings.standard (Annotator.standard S) text

/-- The grammar of a run: from its file, or the one for plots. -/
def grammar (directory : Directory) (options : Options) : Except RunError (Grammar S) :=
  match options.grammar with
  | none => (standardGrammar S PlotGrammar.text).mapError .plotGrammarInvalid
  | some path =>
    match directory.read? path with
    | none => throw (.grammarMissing path)
    | some text => (standardGrammar S text).mapError (.grammarInvalid path)

/-- The queries of a run: the lines of the input file that are not blank, or else the query of the
command line. -/
def queries (directory : Directory) (options : Options) : Except RunError (List String) :=
  match options.input with
  | some path =>
    match directory.read? path with
    | none => throw (.inputMissing path)
    | some text =>
      return ((Text.lines text.toList).filter (!Text.allBlank ·)).map String.ofList
  | none =>
    match options.query with
    | some query => return [query]
    | none => throw .noQuery

def reports (directory : Directory) (options : Options) : Except RunError (List (Report S)) := do
  let schema ← schema S directory options
  let grammar ← grammar S directory options
  let queries ← queries directory options
  return queries.flatMap fun query =>
    (grammar.parse schema query).map (Report.ofParse schema query)

def runOptions (directory : Directory) (options : Options) : Outcome :=
  match reports S directory options with
  | .error reason => ⟨1, "", none, some reason⟩
  | .ok reports =>
    let text := Report.writeAll options.json reports
    match options.output with
    | none => ⟨0, text ++ "\n", none, none⟩
    | some path =>
      if directory.canWrite path then ⟨0, "", some (path, text), none⟩
      else ⟨1, "", none, some (.outputRefused path)⟩

def version : String :=
  "vizparse 0.1.0"

def run (directory : Directory) (arguments : List String) : Outcome :=
  match Options.ofArguments arguments with
  | .ok options => runOptions S directory options
  | .error .versionWanted => ⟨0, version ++ "\n", none, none⟩
  | .error .helpWanted => ⟨0, "", none, none⟩
  | .error _ => ⟨2, "", none, none⟩

end Session

end PlotQuery
