import CallTrace.Json.Printer
import CallTrace.Tree.Basic
import CallTrace.Tree.Error

/-!
Reading the syntax tree of an ESTree document.

A node is an object with a `type`. The kinds that matter to calls and scopes are read field by
field; any other node keeps its type and, in the order of its members, the nodes that it holds.
-/
namespace CallTrace.Tree

abbrev Members := List (String × Json)

/-- A reader for a child that stands in the given field. -/
abbrev ChildReader := String → Json → Except ImportError (Option Tree)

def typeName? (members : Members) : Option String := (Json.lookup "type" members).bind Json.string?

def isNodeObject (v : Json) : Bool :=
  match v with
  | .object members => (typeName? members).isSome
  | _ => false

/-- Offsets of a node: `start` and `end`, or else the pair `range`. -/
def span? (members : Members) : Option Span :=
  match (Json.lookup "start" members).bind Json.word?, (Json.lookup "end" members).bind Json.word? with
  | some pos, some stop => some ⟨pos, stop⟩
  | _, _ => match Json.lookup "range" members with
    | some (.array [pos, stop]) => do
      let pos ← pos.word?
      let stop ← stop.word?
      return ⟨pos, stop⟩
    | _ => none

/-- The text of a literal: as written in the source if known, else its value. -/
def literalText (members : Members) : String :=
  match (Json.lookup "raw" members).bind Json.string? with
  | some raw => raw
  | none => match Json.lookup "value" members with
    | some (.string text) => text
    | some v => v.compress
    | none => ""

/-- A flag is set only by the value `true`. -/
def flag (members : Members) (key : String) : Bool :=
  match Json.lookup key members with
  | some (.bool b) => b
  | _ => false

def readField (child : ChildReader) (members : Members) (key : String) :
    Except ImportError (Option Tree) :=
  match Json.lookup key members with
  | some v => child key v
  | none => .ok none

/-- A list of children; empty places are left out. -/
def readList (child : ChildReader) (members : Members) (key : String) :
    Except ImportError (List (Option Tree)) :=
  match Json.lookup key members with
  | none | some .null => .ok []
  | some (.array items) => (items.filter fun v => !v.isNull).mapM (child key)
  | some _ => .error (.unexpectedValue key .nodes)

/-- Members that never hold children. -/
def skipped : List String := ["type", "loc", "range", "start", "end", "comments", "tokens"]

/-- The node objects that a member holds, itself or in an array, with its key. -/
def heldNodes : String × Json → List (String × Json)
  | (key, .array items) => (items.filter isNodeObject).map fun v => (key, v)
  | (key, v) => if isNodeObject v then [(key, v)] else []

/-- The children of a node of no particular kind. -/
def readHeld (child : ChildReader) (members : Members) :
    Except ImportError (List (Option Tree)) :=
  ((members.filter fun m => !skipped.contains m.1).flatMap heldNodes).mapM fun m => child m.1 m.2

def readKind (members : Members) : Except ImportError VariableKind :=
  let keyword := ((Json.lookup "kind" members).bind Json.string?).getD "var"
  match VariableKind.ofKeyword? keyword with
  | some kind => .ok kind
  | none => .error (.unknownVariableKind keyword)

def readFunction (child : ChildReader) (members : Members) (form : FunctionForm) :
    Except ImportError (Node Tree) := do
  let name ← readField child members "id"
  let parameters ← readList child members "params"
  let body ← readField child members "body"
  return .function form name parameters body (flag members "async") (flag members "generator")

def readNode (child : ChildReader) (typeName : String) (members : Members) :
    Except ImportError (Node Tree) := do
  match typeName with
  | "Program" =>
    let statements ← readList child members "body"
    return .program statements
  | "BlockStatement" | "StaticBlock" =>
    let statements ← readList child members "body"
    return .block statements
  | "VariableDeclaration" =>
    let kind ← readKind members
    let declarations ← readList child members "declarations"
    return .variableStatement kind declarations
  | "VariableDeclarator" =>
    let name ← readField child members "id"
    let initializer ← readField child members "init"
    return .variableDeclaration name initializer
  | "Identifier" =>
    match (Json.lookup "name" members).bind Json.string? with
    | some name => return .identifier name
    | none => throw (.unexpectedValue "name" .string)
  | "FunctionDeclaration" => readFunction child members .declaration
  | "FunctionExpression" => readFunction child members .expression
  | "ArrowFunctionExpression" => readFunction child members .arrow
  | "CallExpression" =>
    let callee ← readField child members "callee"
    let arguments ← readList child members "arguments"
    return .call callee arguments (flag members "optional")
  | "MemberExpression" =>
    let object ← readField child members "object"
    let property ← readField child members "property"
    return .member object property (flag members "computed")
  | "ExpressionStatement" =>
    let expression ← readField child members "expression"
    return .expressionStatement expression
  | "ReturnStatement" =>
    let argument ← readField child members "argument"
    return .returnStatement argument
  | "Literal" => return .literal (literalText members)
  | _ =>
    let children ← readHeld child members
    return .other typeName children

/-- A child in the given field, with the reader for the level below if there may be one more. -/
def readChild (below : Option ChildReader) : ChildReader := fun field v =>
  match v with
  | .null => .ok none
  | .object members =>
    match typeName? members, below with
    | none, _ => .error (.missingType field)
    | some _, none => .error .tooDeep
    | some typeName, some child => do
      let shape ← readNode child typeName members
      return some (.node (span? members) shape)
  | _ => .error (.unexpectedValue field .node)

/-- A reader for children with at most the given number of levels. -/
def read : Nat → ChildReader
  | 0 => readChild none
  | levels + 1 => readChild (some (read levels))

end CallTrace.Tree
