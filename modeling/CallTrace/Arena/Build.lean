import CallTrace.Arena.Basic

/-!
Building an arena by hand, one function for each kind of node. Functions are plain unless added as
nodes: neither asynchronous nor generators; calls are not optional.
-/
namespace CallTrace.Arena

def addProgram (a : Arena) (statements : List Ref) : Ref × Arena := a.add (.program statements)

def addBlock (a : Arena) (statements : List Ref) : Ref × Arena := a.add (.block statements)

def addVariableStatement (a : Arena) (kind : VariableKind) (declarations : List Ref) :
    Ref × Arena :=
  a.add (.variableStatement kind declarations)

def addVariableDeclaration (a : Arena) (name initializer : Ref) : Ref × Arena :=
  a.add (.variableDeclaration name initializer)

def addIdentifier (a : Arena) (text : String) : Ref × Arena := a.add (.identifier text)

def addFunction (a : Arena) (form : FunctionForm) (name : Ref) (parameters : List Ref)
    (body : Ref) : Ref × Arena :=
  a.add (.function form name parameters body false false)

def addCall (a : Arena) (callee : Ref) (arguments : List Ref) : Ref × Arena :=
  a.add (.call callee arguments false)

/-- The access `object.property`, or `object[property]` if computed. -/
def addMember (a : Arena) (object property : Ref) (computed : Bool) : Ref × Arena :=
  a.add (.member object property computed)

def addExpressionStatement (a : Arena) (expression : Ref) : Ref × Arena :=
  a.add (.expressionStatement expression)

def addReturnStatement (a : Arena) (argument : Ref) : Ref × Arena :=
  a.add (.returnStatement argument)

def addLiteral (a : Arena) (text : String) : Ref × Arena := a.add (.literal text)

def addOther (a : Arena) (typeName : String) (children : List Ref) : Ref × Arena :=
  a.add (.other typeName children)

end CallTrace.Arena
