import CallTrace.Command.Log

/-!
A run of the program as a process: its exit code, what it prints and what it reports.
-/
namespace CallTrace

def versionText : String := "jstrace 0.1.0\n"

def helpText : String :=
  "Resolve JavaScript call sites to the function bodies they run\n\n" ++
  "Usage: jstrace [OPTIONS] <COMMAND>\n\n" ++
  "Commands:\n" ++
  "  analyze  Print the stack trace of each program\n" ++
  "  resolve  Resolve the callee of a single call expression\n" ++
  "  help     Print this message or the help of the given subcommand(s)\n\n" ++
  "Options:\n" ++
  "      --pretty   Pretty-print the JSON output\n" ++
  "  -h, --help     Print help\n" ++
  "  -V, --version  Print version\n"

/-- How a process ends. -/
inductive Outcome where
  | success (stdout : String) (events : List Event)
  | failure (error : RunError)
  | usage (error : UsageError)

/-- The outcome for command-line words. -/
def process (files : Files) (words : List String) : Outcome :=
  match Invocation.parse words with
  | .error .versionWanted => .success versionText []
  | .error .helpWanted => .success helpText []
  | .error e => .usage e
  | .ok i => match i.run files with
    | .ok text => .success (text ++ "\n") (i.command.events files)
    | .error e => .failure e

namespace Outcome

def code : Outcome → UInt32
  | .success _ _ => 0
  | .failure _ => 1
  | .usage _ => 2

def stdout : Outcome → String
  | .success stdout _ => stdout
  | _ => ""

/-- The line on standard error that says what failed. -/
def complaint : RunError → String := fun e => "Error: " ++ e.message

/-- Whether a successful run reports anything under the settings. -/
def reports (settings : LogSettings) : Outcome → Bool
  | .success _ events => match settings.filterText? with
    | some text => (Filter.parse text).reports events
    | none => false
  | _ => false

end Outcome

end CallTrace
