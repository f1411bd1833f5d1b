import CallTrace.Command.Args
import CallTrace.Command.Files
import CallTrace.Import
import CallTrace.Trace.Record
import CallTrace.Trace.Resolve

/-!
Running a command on input files. The result is JSON text.
-/
namespace CallTrace

inductive RunError where
  | unreadable (path : String) (cause : ReadError)
  | notImported (path : String) (cause : ImportError)
  | notResolved (path : String) (call : Nat)
deriving DecidableEq, Repr

namespace RunError

def message : RunError → String
  | .unreadable path _ => "failed to read " ++ path
  | .notImported path _ => "failed to import ESTree from " ++ path
  | .notResolved path call => "failed to resolve call " ++ toString call ++ " in " ++ path

def cause : RunError → String
  | .unreadable _ cause => cause.message
  | .notImported _ cause => cause.message
  | .notResolved _ call => noSuchCall call

end RunError

/-- An imported program. -/
structure Loaded where
  arena : Arena
  root : Ref

def loadProgram (files : Files) (path : String) : Except RunError Loaded :=
  match files path with
  | .error cause => .error (.unreadable path cause)
  | .ok text => match importText text with
    | .error cause => .error (.notImported path cause)
    | .ok (arena, root) => .ok ⟨arena, root⟩

/-- The trace of an imported program, all of whose walks end. -/
def Loaded.trace (p : Loaded) : List Call := (p.arena.defaultTrace p.root).getD []

mutual

/-- An entry of a trace with the source span of the body that runs. -/
def entryJson (a : Arena) : Call → Json
  | .mk name callee calls =>
    let span := (a.span? callee).getD ⟨0, 0⟩
    .object [("name", Record.optionalText name), ("callee", Ref.toJson callee),
      ("pos", wordJson span.pos), ("end", wordJson span.stop),
      ("stack_trace", .array (entriesJson a calls))]

def entriesJson (a : Arena) : List Call → List Json
  | [] => []
  | c :: rest => entryJson a c :: entriesJson a rest

end

/-- The trace of one file. -/
def reportJson (path : String) (p : Loaded) : Json :=
  .object [("file", .string path), ("stack_trace", .array (entriesJson p.arena p.trace))]

def Resolution.toJson (r : Resolution) : Json :=
  .object [("call", Ref.toJson r.call), ("callee", (r.callee.map Callee.toJson).getD .null)]

/-- The answer to a command. -/
def Command.answer (files : Files) : Command → Except RunError Json
  | .analyze paths => do
    let reports ← paths.mapM fun path => return reportJson path (← loadProgram files path)
    return .array reports
  | .resolve path call => do
    let p ← loadProgram files path
    match (p.arena.resolveCall p.root call).join with
    | some resolution => return resolution.toJson
    | none => throw (.notResolved path call)

/-- The text that a run prints. -/
def Invocation.run (files : Files) (i : Invocation) : Except RunError String := do
  let answer ← i.command.answer files
  return if i.pretty then answer.pretty else answer.compress

end CallTrace
