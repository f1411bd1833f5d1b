import CallTrace.Json.Reader

/-!
What can be wrong with an ESTree document.
-/
namespace CallTrace

/-- What a field of a node object should hold. -/
inductive Expected where
  | node
  | nodes
  | string
deriving DecidableEq, Repr

def Expected.text : Expected → String
  | .node => "a node object or null"
  | .nodes => "an array of nodes"
  | .string => "a string"

/-- How many levels of nodes a document may have. -/
def maxLevels : Nat := 500

inductive ImportError where
  | notJson (fault : Json.Fault)
  | rootNotProgram (found : String)
  | missingType (field : String)
  | unexpectedValue (field : String) (expected : Expected)
  | unknownVariableKind (kind : String)
  | tooDeep
deriving DecidableEq, Repr

def ImportError.message : ImportError → String
  | .notJson _ => "invalid ESTree JSON"
  | .rootNotProgram found => "expected a Program node at the root, found " ++ found
  | .missingType field => "node object in field `" ++ field ++ "` has no `type`"
  | .unexpectedValue field expected => "field `" ++ field ++ "` should be " ++ expected.text
  | .unknownVariableKind kind => "unknown variable declaration kind `" ++ kind ++ "`"
  | .tooDeep => "AST nesting exceeds the limit of " ++ toString maxLevels ++ " levels"

end CallTrace
