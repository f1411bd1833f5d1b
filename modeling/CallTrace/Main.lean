import CallTrace.Command.Process

/-!
The executable: words and variables in, text and exit code out.
-/
namespace CallTrace

/-- The text of a file on disk. -/
def readFile (path : String) : IO (Except ReadError String) := do
  try
    return decodeText (← IO.FS.readBinFile path)
  catch
    | .noFileOrDirectory .. => return .error .missing
    | .inappropriateType _ 20 _ => return .error .notDirectory
    | .inappropriateType .. => return .error .isDirectory
    | e => return .error (.refused (toString e))

/-- The files that a command names, read beforehand. -/
def readFiles : Command → IO Files := fun command => do
  let paths := match command with
    | .analyze paths => paths
    | .resolve path _ => [path]
  let texts ← paths.mapM fun path => return (path, ← readFile path)
  return fun path => match texts.find? fun e => e.1 = path with
    | some e => e.2
    | none => .error .missing

def settingsFromEnvironment : IO LogSettings := do
  return ⟨← IO.getEnv "JSTRACE_LOG", ← IO.getEnv "RUST_LOG", ← IO.getEnv "JSTRACE_LOG_FORMAT"⟩

/-- The events of a run that its settings ask for, a line each, after a complaint about directives
that cannot be read. -/
def reportEvents (settings : LogSettings) (events : List Event) : IO Unit := do
  if let some text := settings.filterText? then
    let filter := Filter.parse text
    if filter.hasUnread then IO.eprintln ("ignoring invalid filter directives in " ++ text)
    for e in events.filter filter.passes do
      IO.eprintln (e.level.name ++ " " ++ e.target)

end CallTrace

open CallTrace in
def main (words : List String) : IO UInt32 := do
  let files ← match Invocation.parse words with
    | .ok i => readFiles i.command
    | .error _ => pure fun _ => .error .missing
  let outcome := process files words
  match outcome with
  | .success stdout events =>
    reportEvents (← settingsFromEnvironment) events
    IO.print stdout
  | .failure e =>
    IO.eprintln (Outcome.complaint e)
    IO.eprintln ("\nCaused by:\n    " ++ e.cause)
  | .usage _ => IO.eprint helpText
  return outcome.code
