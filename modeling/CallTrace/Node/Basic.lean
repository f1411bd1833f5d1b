/-!
Syntax nodes and references to them.

`Node α` is one node whose children are given by references of type `α`: numbers of nodes in an
arena, or the subtrees themselves in a tree. A single child may be absent, and so may a listed one.
-/
namespace CallTrace

/-- The number of a node. The largest 32-bit word is left out: it stands for absence. -/
abbrev Index := Fin 0xffffffff

/-- A reference to a node, or its absence. -/
abbrev Ref := Option Index

namespace Ref

/-- The reference for a number, taken modulo `2 ^ 32`. -/
def ofNat (n : Nat) : Ref :=
  if h : n % 0x100000000 < 0xffffffff then some ⟨n % 0x100000000, h⟩ else none

/-- The 32-bit word of a reference. -/
def code : Ref → Nat
  | some i => i.val
  | none => 0xffffffff

/-- The reference of a 32-bit word. -/
def ofWord (w : UInt32) : Ref := ofNat w.toNat

def text : Ref → String
  | some i => "#" ++ toString i.val
  | none => "<none>"

end Ref

/-- How a declaration introduces its names. -/
inductive VariableKind where
  | var
  | letKind
  | const
  | using
  | awaitUsing
deriving DecidableEq, Repr

def VariableKind.ofKeyword? (s : String) : Option VariableKind :=
  if s = "var" then some .var
  else if s = "let" then some .letKind
  else if s = "const" then some .const
  else if s = "using" then some .using
  else if s = "await using" then some .awaitUsing
  else none

/-- The three ways to write a function. -/
inductive FunctionForm where
  | declaration
  | expression
  | arrow
deriving DecidableEq, Repr

inductive Node (α : Type) where
  | program (statements : List (Option α))
  | block (statements : List (Option α))
  | variableStatement (kind : VariableKind) (declarations : List (Option α))
  | variableDeclaration (name initializer : Option α)
  | identifier (text : String)
  | function (form : FunctionForm) (name : Option α) (parameters : List (Option α))
      (body : Option α) (isAsync isGenerator : Bool)
  | call (callee : Option α) (arguments : List (Option α)) (optional : Bool)
  | member (object property : Option α) (computed : Bool)
  | expressionStatement (expression : Option α)
  | returnStatement (argument : Option α)
  | literal (text : String)
  | other (typeName : String) (children : List (Option α))
deriving DecidableEq, Repr

namespace Node

variable {α : Type}

/-- A single child as a list: nothing if it is absent. -/
def single : Option α → List (Option α)
  | some a => [some a]
  | none => []

/-- The children in source order. Lists are taken as they are, except that a node of no particular
kind leaves out the absent ones. -/
def children : Node α → List (Option α)
  | .program statements => statements
  | .block statements => statements
  | .variableStatement _ declarations => declarations
  | .variableDeclaration name initializer => single name ++ single initializer
  | .identifier _ => []
  | .function _ name parameters body _ _ => single name ++ parameters ++ single body
  | .call callee arguments _ => single callee ++ arguments
  | .member object property _ => single object ++ single property
  | .expressionStatement expression => single expression
  | .returnStatement argument => single argument
  | .literal _ => []
  | .other _ children => children.filter Option.isSome

/-- The name of the node's kind in ESTree. -/
def kindName : Node α → String
  | .program _ => "Program"
  | .block _ => "BlockStatement"
  | .variableStatement _ _ => "VariableDeclaration"
  | .variableDeclaration _ _ => "VariableDeclarator"
  | .identifier _ => "Identifier"
  | .function .declaration _ _ _ _ _ => "FunctionDeclaration"
  | .function .expression _ _ _ _ _ => "FunctionExpression"
  | .function .arrow _ _ _ _ _ => "ArrowFunctionExpression"
  | .call _ _ _ => "CallExpression"
  | .member _ _ _ => "MemberExpression"
  | .expressionStatement _ => "ExpressionStatement"
  | .returnStatement _ => "ReturnStatement"
  | .literal _ => "Literal"
  | .other typeName _ => typeName

def isBlock : Node α → Bool
  | .block _ => true
  | _ => false

def isIdentifier : Node α → Bool
  | .identifier _ => true
  | _ => false

def isFunction : Node α → Bool
  | .function _ _ _ _ _ _ => true
  | _ => false

def isFunctionExpression : Node α → Bool
  | .function .expression _ _ _ _ _ => true
  | _ => false

def isVariableDeclaration : Node α → Bool
  | .variableDeclaration _ _ => true
  | _ => false

def isCall : Node α → Bool
  | .call _ _ _ => true
  | _ => false

/-- The statements of a program or a block. -/
def statements? : Node α → Option (List (Option α))
  | .program statements => some statements
  | .block statements => some statements
  | _ => none

def text? : Node α → Option String
  | .identifier text => some text
  | _ => none

/-- The body of a function, if it has one. -/
def functionBody? : Node α → Option α
  | .function _ _ _ body _ _ => body
  | _ => none

/-- The callee of a call, if it has one. -/
def callee? : Node α → Option α
  | .call callee _ _ => callee
  | _ => none

end Node

end CallTrace
