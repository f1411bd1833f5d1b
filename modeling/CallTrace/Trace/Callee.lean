import CallTrace.Arena.Scope
import CallTrace.Arena.Walk

/-!
From the callee of a call to the function body that it runs.

A name stands for the first function expression bound to it in the scope around the statements at
hand; an inline function expression stands for itself. Other callees are not resolved.
-/
namespace CallTrace

structure Callee where
  body : Ref
  name : Option String
deriving DecidableEq, Repr

/-- A way to resolve the callee of a call among the statements of a scope. -/
abbrev Extractor := Arena → List Ref → Ref → Walked (Option Callee)

namespace Arena

/-- Whether a visit is at a function expression bound to the name: `name = function …`. -/
def bindsFunction (a : Arena) (name : String) (v : Visit) : Bool :=
  (a.node? v.node).any Node.isFunctionExpression &&
    match a.node? v.parent with
    | some (.variableDeclaration target _) => a.identifierText? target = some name
    | _ => false

def boundFunction (a : Arena) (root : Ref) (name : String) : Walked Ref :=
  (a.findVisit (fun v => if a.bindsFunction name v then some v.node else none) root).map
    fun found => (found.bind a.node?).bind Node.functionBody?

/-- The scope in which names are looked up: the one around the first of the statements. -/
def lookupScope (a : Arena) (body : List Ref) : Ref := body.head?.bind a.innermostScope

def resolveName (a : Arena) (body : List Ref) (name : String) : Walked (Option Callee) :=
  match a.lookupScope body with
  | none => some none
  | some scope => (a.boundFunction (some scope) name).map fun found =>
    found.map fun i => ⟨some i, some name⟩

def functionExpressions : Extractor := fun a body callee =>
  match a.node? callee with
  | some (.identifier name) => a.resolveName body name
  | some (.function .expression name _ inner _ _) =>
    some (inner.map fun i => ⟨some i, a.identifierText? name⟩)
  | _ => some none

end Arena

/-- An extractor for one name that always runs the given body. -/
def Extractor.named (name : String) (body : Ref) : Extractor := fun a _ callee =>
  some (if a.identifierText? callee = some name then some ⟨body, some name⟩ else none)

end CallTrace
