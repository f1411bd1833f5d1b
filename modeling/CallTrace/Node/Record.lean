import CallTrace.Node.Basic
import CallTrace.Record

/-!
Nodes as JSON records: a tag for the kind, and the data of that kind. Data that comes before its kind
is kept until the kind is known.
-/
namespace CallTrace

def Ref.toJson (r : Ref) : Json := .int (Ref.code r)

def Ref.ofCell? (v : Cell) : Option Ref := v.word?.map Ref.ofWord

def Ref.listToJson (rs : List Ref) : Json := .array (rs.map Ref.toJson)

def Ref.listOfCell? (v : Cell) : Option (List Ref) := v.list? Ref.ofCell?

def VariableKind.tag : VariableKind → String
  | .var => "var"
  | .letKind => "let"
  | .const => "const"
  | .using => "using"
  | .awaitUsing => "await_using"

def VariableKind.toJson (kind : VariableKind) : Json := .string kind.tag

def VariableKind.ofTag? (tag : String) : Option VariableKind :=
  [VariableKind.var, .letKind, .const, .using, .awaitUsing].find? fun kind => kind.tag = tag

def VariableKind.ofCell? (v : Cell) : Option VariableKind := v.tag?.bind VariableKind.ofTag?

def FunctionForm.tag : FunctionForm → String
  | .declaration => "FunctionDeclaration"
  | .expression => "FunctionExpression"
  | .arrow => "ArrowFunction"

namespace Node

/-- The tag of a node's kind. -/
def tag : Node Index → String
  | .program _ => "Program"
  | .block _ => "Block"
  | .variableStatement _ _ => "VariableStatement"
  | .variableDeclaration _ _ => "VariableDeclaration"
  | .identifier _ => "Identifier"
  | .function form _ _ _ _ _ => form.tag
  | .call _ _ _ => "CallExpression"
  | .member _ _ _ => "PropertyAccess"
  | .expressionStatement _ => "ExpressionStatement"
  | .returnStatement _ => "ReturnStatement"
  | .literal _ => "Literal"
  | .other _ _ => "Other"

/-- The data of a node beside its kind. -/
def data : Node Index → Json
  | .program statements => .object [("statements", Ref.listToJson statements)]
  | .block statements => .object [("statements", Ref.listToJson statements)]
  | .variableStatement kind declarations =>
    .object [("kind", kind.toJson), ("declarations", Ref.listToJson declarations)]
  | .variableDeclaration name initializer =>
    .object [("name", Ref.toJson name), ("initializer", Ref.toJson initializer)]
  | .identifier text => .object [("escaped_text", .string text)]
  | .function _ name parameters body isAsync isGenerator =>
    .object [("name", Ref.toJson name), ("parameters", Ref.listToJson parameters),
      ("body", Ref.toJson body), ("is_async", .bool isAsync), ("asterisk", .bool isGenerator)]
  | .call callee arguments optional =>
    .object [("expression", Ref.toJson callee), ("arguments", Ref.listToJson arguments),
      ("optional", .bool optional)]
  | .member object property computed =>
    .object [("expression", Ref.toJson object), ("name_or_argument", Ref.toJson property),
      ("computed", .bool computed)]
  | .expressionStatement expression => .object [("expression", Ref.toJson expression)]
  | .returnStatement argument => .object [("expression", Ref.toJson argument)]
  | .literal text => .object [("text", .string text)]
  | .other typeName children =>
    .object [("type_name", .string typeName), ("children", Ref.listToJson children)]

def toJson (n : Node Index) : Json := .object [("kind", .string n.tag), ("data", n.data)]

/-- The kind of a variable in a node's data. In data that was kept the tag may stand over an empty
object. -/
def variableKind? (kept : Bool) : Cell → Option VariableKind
  | .record [(tag, .record [])] => if kept then VariableKind.ofTag? tag else none
  | v => VariableKind.ofCell? v

def functionOfData? (form : FunctionForm) (data : Cell) : Option (Node Index) := do
  match ← data.fields? ["name", "parameters", "body", "is_async", "asterisk"] with
  | [some name, some parameters, some body, some isAsync, some isGenerator] =>
    return .function form (← Ref.ofCell? name) (← Ref.listOfCell? parameters) (← Ref.ofCell? body)
      (← isAsync.bool?) (← isGenerator.bool?)
  | _ => none

/-- The one field of data that has no other. -/
def soleField? (name : String) (data : Cell) : Option Cell := do
  match ← data.fields? [name] with
  | [some v] => return v
  | _ => none

/-- The node of the given kind and data. -/
def ofData? (kept : Bool) (tag : String) (data : Cell) : Option (Node Index) :=
  match tag with
  | "Program" => do
    let statements ← soleField? "statements" data
    return .program (← Ref.listOfCell? statements)
  | "Block" => do
    let statements ← soleField? "statements" data
    return .block (← Ref.listOfCell? statements)
  | "VariableStatement" => do
    match ← data.fields? ["kind", "declarations"] with
    | [some kind, some declarations] =>
      return .variableStatement (← variableKind? kept kind) (← Ref.listOfCell? declarations)
    | _ => none
  | "VariableDeclaration" => do
    match ← data.fields? ["name", "initializer"] with
    | [some name, some initializer] =>
      return .variableDeclaration (← Ref.ofCell? name) (← Ref.ofCell? initializer)
    | _ => none
  | "Identifier" => do
    let text ← soleField? "escaped_text" data
    return .identifier (← text.string?)
  | "FunctionDeclaration" => functionOfData? .declaration data
  | "FunctionExpression" => functionOfData? .expression data
  | "ArrowFunction" => functionOfData? .arrow data
  | "CallExpression" => do
    match ← data.fields? ["expression", "arguments", "optional"] with
    | [some callee, some arguments, some optional] =>
      return .call (← Ref.ofCell? callee) (← Ref.listOfCell? arguments) (← optional.bool?)
    | _ => none
  | "PropertyAccess" => do
    match ← data.fields? ["expression", "name_or_argument", "computed"] with
    | [some object, some property, some computed] =>
      return .member (← Ref.ofCell? object) (← Ref.ofCell? property) (← computed.bool?)
    | _ => none
  | "ExpressionStatement" => do
    let expression ← soleField? "expression" data
    return .expressionStatement (← Ref.ofCell? expression)
  | "ReturnStatement" => do
    let argument ← soleField? "expression" data
    return .returnStatement (← Ref.ofCell? argument)
  | "Literal" => do
    let text ← soleField? "text" data
    return .literal (← text.string?)
  | "Other" => do
    match ← data.fields? ["type_name", "children"] with
    | [some typeName, some children] =>
      return .other (← typeName.string?) (← Ref.listOfCell? children)
    | _ => none
  | _ => none

/-- Whether the data stands before the kind, so that it has to be kept. -/
def keepsData (members : List (String × Cell)) : Bool :=
  (members.find? fun m => m.1 = "kind" ∨ m.1 = "data").any fun m => m.1 = "data"

/-- The node of a record that stands inside as many arrays and objects as given. In an array the
tag is a string. -/
def ofCell? (outer : Nat) : Cell → Option (Node Index)
  | .list [.scalar (.string tag), data] => ofData? false tag data
  | .record members => do
    match ← (Cell.record members).fields? ["kind", "data"] with
    | [some tag, some data] =>
      let kept := keepsData members
      if kept && !data.isKeepable (Record.maxNesting - outer - 1) then none
      else ofData? kept (← tag.tag?) data
    | _ => none
  | _ => none

end Node

end CallTrace
