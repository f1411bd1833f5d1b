import CallTrace.Tree.Read

/-!
Importing an ESTree document into an arena. The root must be a program.
-/
namespace CallTrace

/-- What stands at the root in place of a program. -/
def rootFound : Json → String
  | .null => "null"
  | .bool _ => "a boolean"
  | .int _ | .float _ _ => "a number"
  | .string _ => "a string"
  | .array _ => "an array"
  | .object members => (Tree.typeName? members).getD "an object without `type`"

def isProgram : Json → Bool
  | .object members => Tree.typeName? members = some "Program"
  | _ => false

def programTree (v : Json) : Except ImportError Tree :=
  if isProgram v then
    match Tree.read maxLevels "program" v with
    | .ok (some t) => .ok t
    | .ok none => .error (.rootNotProgram (rootFound v))
    | .error e => .error e
  else .error (.rootNotProgram (rootFound v))

/-- The arena of a document and the reference of its program. -/
def importProgram (v : Json) : Except ImportError (Arena × Ref) := (programTree v).map Tree.toArena

def importText (text : String) : Except ImportError (Arena × Ref) :=
  match Json.parse text with
  | .ok v => importProgram v
  | .error fault => .error (.notJson fault)

end CallTrace
