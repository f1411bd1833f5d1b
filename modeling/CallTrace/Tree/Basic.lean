import CallTrace.Arena.Basic

/-!
Syntax trees: a node whose children are trees, with its source span. Building a tree in an arena adds
its nodes from the leaves up, so that every node comes after its children and the root comes last.
-/
namespace CallTrace

inductive Tree where
  | node (span : Option Span) (shape : Node Tree)

namespace Tree

/-- Adds a node and sets its span. -/
def place (span : Option Span) (n : Node Index) (a : Arena) : Ref × Arena :=
  let (r, a) := a.add n
  match span with
  | some span => (r, a.setSpan r span)
  | none => (r, a)

mutual

/-- The reference of the tree's root, and the arena with the tree added. -/
def build : Tree → StateM Arena Ref
  | .node span shape => do
    let n ← buildNode shape
    modifyGet (place span n)

def buildNode : Node Tree → StateM Arena (Node Index)
  | .program statements => do
    let statements ← buildList [] statements
    return .program statements
  | .block statements => do
    let statements ← buildList [] statements
    return .block statements
  | .variableStatement kind declarations => do
    let declarations ← buildList [] declarations
    return .variableStatement kind declarations
  | .variableDeclaration name initializer => do
    let name ← buildChild name
    let initializer ← buildChild initializer
    return .variableDeclaration name initializer
  | .identifier text => return .identifier text
  | .function form name parameters body isAsync isGenerator => do
    let name ← buildChild name
    let parameters ← buildList [] parameters
    let body ← buildChild body
    return .function form name parameters body isAsync isGenerator
  | .call callee arguments optional => do
    let callee ← buildChild callee
    let arguments ← buildList [] arguments
    return .call callee arguments optional
  | .member object property computed => do
    let object ← buildChild object
    let property ← buildChild property
    return .member object property computed
  | .expressionStatement expression => do
    let expression ← buildChild expression
    return .expressionStatement expression
  | .returnStatement argument => do
    let argument ← buildChild argument
    return .returnStatement argument
  | .literal text => return .literal text
  | .other typeName children => do
    let children ← buildList [] children
    return .other typeName children

/-- The references of a list of trees, after those of the trees before it in reverse. -/
def buildList (done : List Ref) : List (Option Tree) → StateM Arena (List Ref)
  | [] => return done.reverse
  | t :: rest => do
    let r ← buildChild t
    buildList (r :: done) rest

def buildChild : Option Tree → StateM Arena Ref
  | none => return none
  | some t => build t

end

/-- The arena of a tree, and its root. -/
def toArena (t : Tree) : Arena × Ref :=
  let (root, a) := build t .empty
  (a, root)

end Tree

end CallTrace
