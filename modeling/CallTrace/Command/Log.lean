import CallTrace.Alphanumeric
import CallTrace.Command.Run

/-!
Logging. The environment chooses a format and a filter; the filter decides which events of a run are
reported.
-/
namespace CallTrace

inductive LogFormat where
  | text
  | tree
  | json
deriving DecidableEq, Repr

/-- The format of a given name, in any case. Only ASCII letters have these letters as their lower
case, and any other name stands for plain text. -/
def LogFormat.parse (name : String) : LogFormat :=
  match name.toList.map Char.toLower with
  | ['t', 'r', 'e', 'e'] => .tree
  | ['j', 's', 'o', 'n'] => .json
  | _ => .text

/-- The variables that govern logging. -/
structure LogSettings where
  ownFilter : Option String
  sharedFilter : Option String
  format : Option String

namespace LogSettings

def defaultFilter : String := "jstrace_analyzer=debug,jstrace_cli=info"

def logFormat (s : LogSettings) : LogFormat := .parse (s.format.getD "")

/-- The program's own filter comes first, then the shared one; a format alone asks for the default. -/
def filterText? (s : LogSettings) : Option String :=
  s.ownFilter.or (s.sharedFilter.or (s.format.map fun _ => defaultFilter))

end LogSettings

/-- How much a filter lets through, and how important an event is. -/
inductive Level where
  | off
  | error
  | warn
  | info
  | debug
  | trace
deriving DecidableEq, Repr

namespace Level

def rank : Level → Nat
  | .off => 0
  | .error => 1
  | .warn => 2
  | .info => 3
  | .debug => 4
  | .trace => 5

def name : Level → String
  | .off => "off"
  | .error => "error"
  | .warn => "warn"
  | .info => "info"
  | .debug => "debug"
  | .trace => "trace"

def all : List Level := [.off, .error, .warn, .info, .debug, .trace]

/-- A level by its name in any case or by its rank. -/
def ofText? (s : String) : Option Level :=
  let name := String.ofList (s.toList.map Char.toLower)
  all.find? fun l => l.name = name ∨ unsigned? s = some l.rank

end Level

/-- Events of targets that start with the given one are let through up to the level. -/
structure Directive where
  target : String
  level : Level
deriving DecidableEq, Repr

namespace Directive

/-- Whether a directive may start with the character. -/
def opens (c : Char) : Bool := isAlphanumeric c || c = '-' || c = ':' || c = '_'

/-- A level for all targets, a target with its level, or a target alone, for which every level
counts. Blanks are passed over to find the first character, but belong to a target alone, and a
target with a level has none before it. -/
def ofText? (s : String) : Option Directive :=
  let cs := s.toList
  let target := cs.takeWhile (· ≠ '=')
  if !(cs.dropWhile isBlankChar).head?.any opens || target.contains '[' then none
  else match cs.dropWhile (· ≠ '=') with
    | [] => match Level.ofText? s with
      | some level => some ⟨"", level⟩
      | none => some ⟨s, .trace⟩
    | _ :: level =>
      if cs.head?.any isBlankChar then none
      else if level.isEmpty then some ⟨String.ofList target, .trace⟩
      else (Level.ofText? (String.ofList level)).map fun level => ⟨String.ofList target, level⟩

/-- Whether the first directive rules over the second where both apply. -/
def outranks (x y : Directive) : Bool := y.target.length < x.target.length

end Directive

structure Event where
  level : Level
  target : String
deriving DecidableEq, Repr

/-- A filter: its directives, and whether there were some that could not be read. -/
structure Filter where
  directives : List Directive
  hasUnread : Bool

namespace Filter

/-- A comma-separated list of directives. A filter without any lets errors through. -/
def parse (text : String) : Filter :=
  let parts := (text.splitOn ",").filter fun s => s ≠ ""
  let read := parts.map Directive.ofText?
  let directives := read.filterMap id
  ⟨if directives.isEmpty then [⟨"", .error⟩] else directives, read.any Option.isNone⟩

/-- The directive with the longest target that applies; of equal targets the last. -/
def ruling? (f : Filter) (target : String) : Option Directive :=
  (f.directives.filter fun d => d.target.isPrefixOf target).foldl
    (fun best d => match best with
      | some b => if b.outranks d then some b else some d
      | none => some d) none

def passes (f : Filter) (e : Event) : Bool :=
  (f.ruling? e.target).any fun d => e.level.rank ≤ d.level.rank

/-- Whether anything is reported when the given events happen. -/
def reports (f : Filter) (events : List Event) : Bool := f.hasUnread || events.any f.passes

end Filter

def importTarget : String := "jstrace_parser::estree"

def traceTarget : String := "jstrace_analyzer::stack_trace"

def calleeTarget : String := "jstrace_analyzer::extractors::function_expression"

def runTarget : String := "jstrace_cli::driver"

/-- The events of importing a file. -/
def loadEvents : List Event :=
  [⟨.trace, importTarget⟩, ⟨.debug, importTarget⟩, ⟨.debug, runTarget⟩]

/-- The event of finding the function that a name stands for. -/
def nameEvents (happens : Bool) : List Event := if happens then [⟨.trace, calleeTarget⟩] else []

namespace Loaded

/-- Whether some call made directly in a scope body has a name as its callee that is resolved. -/
def resolvesName (p : Loaded) (body : List Ref) : Bool :=
  ((p.arena.calleesIn body).getD []).any fun callee =>
    match p.arena.identifierText? callee with
    | some name => (p.arena.resolveName body name).join.isSome
    | none => false

/-- The scope bodies of a trace, each with its depth. -/
def bodies (p : Loaded) : List (Nat × List Ref) :=
  (0, (p.arena.statements? p.root).getD []) ::
    (Call.flattenList 1 p.trace).map fun e => (e.1, (p.arena.statements? e.2.2).getD [])

/-- The events of tracing a program. -/
def traceEvents (p : Loaded) : List Event :=
  let bodies := p.bodies
  let cut := bodies.any fun b => b.1 = maxDepth ∧ ¬ b.2.isEmpty
  let named := bodies.any fun b => b.1 < maxDepth ∧ p.resolvesName b.2
  ⟨.debug, traceTarget⟩ :: (if cut then [⟨.warn, traceTarget⟩] else []) ++ nameEvents named

/-- The events of resolving one call. -/
def resolveEvents (p : Loaded) (n : Nat) : List Event :=
  nameEvents <| match (p.arena.resolveCall p.root n).join with
    | some ⟨call, some _⟩ =>
      (p.arena.identifierText? ((p.arena.node? call).bind Node.callee?)).isSome
    | _ => false

end Loaded

/-- The events of a command that succeeds. -/
def Command.events (files : Files) : Command → List Event
  | .analyze paths =>
    paths.flatMap (fun path => match loadProgram files path with
      | .ok p => loadEvents ++ p.traceEvents
      | .error _ => []) ++ [⟨.info, runTarget⟩]
  | .resolve path call => match loadProgram files path with
    | .ok p => loadEvents ++ p.resolveEvents call
    | .error _ => []

end CallTrace
