/-!
The command line: `analyze FILE…` and `resolve FILE --call N`, each with `--pretty`, which may also
stand before the subcommand.

Words are taken from left to right. The values of an option or of the file list are kept until a word
of another kind comes, and are checked then; an unknown word is reported before that check. What is
missing is reported last.
-/
namespace CallTrace

inductive Command where
  | analyze (files : List String)
  | resolve (file : String) (call : Nat)
deriving DecidableEq, Repr

structure Invocation where
  command : Command
  pretty : Bool
deriving DecidableEq, Repr

inductive UsageError where
  | nothingGiven
  | missingSubcommand
  | unknownSubcommand
  | unknownArgument
  | missingArgument
  | emptyValue
  | badNumber
  | repeated
  | needlessValue
  | helpWanted
  | versionWanted
deriving DecidableEq, Repr

inductive Word where
  | escape
  | long (name : String) (value : Option String)
  | short (flags : List Char)
  | plain

namespace Word

/-- A long option, with its value after the first equals sign. -/
def longOf (cs : List Char) : Word :=
  let name := cs.takeWhile (· ≠ '=')
  let rest := cs.dropWhile (· ≠ '=')
  .long (String.ofList name) (if rest.isEmpty then none else some (String.ofList (rest.drop 1)))

def ofString (s : String) : Word :=
  match s.toList with
  | ['-', '-'] => .escape
  | '-' :: '-' :: cs => longOf cs
  | '-' :: c :: cs => .short (c :: cs)
  | _ => .plain

end Word

/-- A natural number below `2 ^ 64`, possibly with a plus sign and leading zeros. -/
def unsigned? (s : String) : Option Nat :=
  let digits := match s.toList with
    | '+' :: cs => cs
    | cs => cs
  if digits.isEmpty || !digits.all Char.isDigit then none
  else
    let n := digits.foldl (fun n c => n * 10 + (c.toNat - '0'.toNat)) 0
    if n < 0x10000000000000000 then some n else none

inductive Unchecked where
  | nothing
  | paths (values : List String)
  | call (value : Option String)

structure Given where
  pretty : Bool
  paths : List String
  call : Option Nat
  unchecked : Unchecked

def Given.nothing : Given := ⟨false, [], none, .nothing⟩

structure Subcommand where
  manyPaths : Bool
  takesCall : Bool

namespace Given

def check (g : Given) : Except UsageError Given :=
  match g.unchecked with
  | .nothing => .ok g
  | .paths values =>
    if values.any fun s => s = "" then .error .emptyValue
    else .ok { g with paths := g.paths ++ values, unchecked := .nothing }
  | .call none => .error .emptyValue
  | .call (some value) =>
    if g.call.isSome then .error .repeated
    else match unsigned? value with
      | some n => .ok { g with call := some n, unchecked := .nothing }
      | none => .error .badNumber

def addPath (sub : Subcommand) (g : Given) (s : String) : Except UsageError Given :=
  match g.unchecked with
  | .paths values =>
    if sub.manyPaths then .ok { g with unchecked := .paths (values ++ [s]) }
    else .error .unknownArgument
  | _ =>
    if sub.manyPaths || g.paths.isEmpty then do
      let g ← g.check
      return { g with unchecked := .paths [s] }
    else .error .unknownArgument

def addLong (sub : Subcommand) (g : Given) (name : String) (value : Option String) :
    Except UsageError Given :=
  if name = "call" ∧ sub.takesCall then do
    let g ← g.check
    let g := { g with unchecked := .call value }
    if value.isSome then g.check else return g
  else if name = "pretty" ∨ name = "help" then
    if value.isSome then .error .needlessValue
    else do
      let g ← g.check
      if name = "help" then throw .helpWanted
      else if g.pretty then throw .repeated
      else return { g with pretty := true }
  else .error .unknownArgument

def addShort (g : Given) (flags : List Char) : Except UsageError Given :=
  if flags.head? = some 'h' then do
    let _ ← g.check
    throw .helpWanted
  else .error .unknownArgument

/-- A word before the escape `--`. -/
def add (sub : Subcommand) (g : Given) (s : String) : Except UsageError Given :=
  match Word.ofString s, g.unchecked with
  | .long name value, _ => g.addLong sub name value
  | .short flags, _ => g.addShort flags
  | _, .call none => .ok { g with unchecked := .call (some s) }
  | _, _ => g.addPath sub s

/-- All words of a subcommand; after the escape every word is a path. -/
def addAll (sub : Subcommand) : Given → List String → Except UsageError Given
  | g, [] => g.check
  | g, s :: rest =>
    match Word.ofString s with
    | .escape => do (← rest.foldlM (addPath sub) g).check
    | _ => do addAll sub (← g.add sub s) rest

end Given

def parseAnalyze (pretty : Bool) (words : List String) : Except UsageError Invocation := do
  let g ← Given.nothing.addAll ⟨true, false⟩ words
  if g.paths.isEmpty then throw .missingArgument
  else return ⟨.analyze g.paths, pretty || g.pretty⟩

def parseResolve (pretty : Bool) (words : List String) : Except UsageError Invocation := do
  let g ← Given.nothing.addAll ⟨false, true⟩ words
  match g.paths, g.call with
  | path :: _, some n => return ⟨.resolve path n, pretty || g.pretty⟩
  | _, _ => throw .missingArgument

/-- The words after `help`: at most one subcommand. -/
def parseHelp (words : List String) : UsageError :=
  match words with
  | [] | ["analyze"] | ["resolve"] | ["help"] => .helpWanted
  | _ => .unknownSubcommand

def withoutSubcommand (pretty : Bool) : UsageError :=
  if pretty then .missingSubcommand else .nothingGiven

/-- The words after an escape in front of every subcommand: no subcommand can follow it. -/
def parseEscaped (pretty : Bool) : List String → UsageError
  | [] => withoutSubcommand pretty
  | "analyze" :: _ | "resolve" :: _ | "help" :: _ => .unknownArgument
  | _ => .unknownSubcommand

/-- The words of a command line, given whether `--pretty` has come before them. -/
def parseWords (pretty : Bool) : List String → Except UsageError Invocation
  | [] => .error (withoutSubcommand pretty)
  | "analyze" :: rest => parseAnalyze pretty rest
  | "resolve" :: rest => parseResolve pretty rest
  | "help" :: rest => .error (parseHelp rest)
  | s :: rest =>
    match Word.ofString s with
    | .escape => .error (parseEscaped pretty rest)
    | .long "pretty" none => if pretty then .error .repeated else parseWords true rest
    | .long "help" none => .error .helpWanted
    | .long "version" none => .error .versionWanted
    | .long name value =>
      .error (if value.isSome ∧ name ∈ ["pretty", "help", "version"] then .needlessValue
        else .unknownArgument)
    | .short ('h' :: _) => .error .helpWanted
    | .short ('V' :: _) => .error .versionWanted
    | .short _ => .error .unknownArgument
    | .plain => .error .unknownSubcommand

def Invocation.parse (words : List String) : Except UsageError Invocation := parseWords false words

end CallTrace
