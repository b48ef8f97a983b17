import PlotQuery.CommandLine.Session
import PlotQuery.Double

/-! The program: reads the files that the command line names, runs, and prints or writes the result. -/
namespace PlotQuery

def readFile? (path : String) : IO (Option String) := do
  try
    return some (← IO.FS.readFile path)
  catch _ =>
    return none

/-- The files that the options name, with their texts. -/
def loadFiles (options : Options) : IO (List (String × String)) := do
  let paths := [options.schema, options.grammar, options.input].filterMap id
  let texts ← paths.mapM fun path => return (← readFile? path).map fun text => (path, text)
  return texts.filterMap id

def complain (reason : RunError) : IO Unit := do
  IO.eprintln ("Error: " ++ reason.message)
  match reason.cause? with
  | some cause => IO.eprintln ("\nCaused by:\n    " ++ cause)
  | none => return ()

end PlotQuery

open PlotQuery in
def main (arguments : List String) : IO UInt32 := do
  let files ← match Options.ofArguments arguments with
    | .ok options => loadFiles options
    | .error _ => pure []
  let outcome := Session.run Float ⟨fun path => files.lookup path, fun _ => true⟩ arguments
  IO.print outcome.printed
  match outcome.failure with
  | some reason => complain reason
  | none => pure ()
  match outcome.written with
  | none => return outcome.code.toUInt32
  | some (path, text) =>
    try
      IO.FS.writeFile path text
      return 0
    catch _ =>
      complain (.outputRefused path)
      return 1
