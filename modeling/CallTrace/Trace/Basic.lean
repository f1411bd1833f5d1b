import CallTrace.Trace.Callee
import CallTrace.Trace.Limit

/-!
The trace of a program: for each call made directly in its body, the function body that the call
runs, and in turn the calls made there.
-/
namespace CallTrace

/-- An entry of a trace. -/
inductive Call where
  | mk (name : Option String) (callee : Ref) (calls : List Call)
deriving Repr

namespace Call

def name : Call → Option String
  | .mk name _ _ => name

def callee : Call → Ref
  | .mk _ callee _ => callee

def calls : Call → List Call
  | .mk _ _ calls => calls

mutual

/-- The number of entries from this one down. -/
def total : Call → Nat
  | .mk _ _ calls => 1 + totalList calls

def totalList : List Call → Nat
  | [] => 0
  | c :: rest => total c + totalList rest

end

mutual

/-- The entries from this one down in pre-order, each with its depth. -/
def flatten (depth : Nat) : Call → List (Nat × Option String × Ref)
  | .mk name callee calls => (depth, name, callee) :: flattenList (depth + 1) calls

def flattenList (depth : Nat) : List Call → List (Nat × Option String × Ref)
  | [] => []
  | c :: rest => flatten depth c ++ flattenList depth rest

end

end Call

/-- How many calls deep a trace goes. -/
def maxDepth : Nat := 256

namespace Arena

/-- The callees of the calls below a statement that lie in the statement's own scope. -/
def calleesBelow (a : Arena) (statement : Ref) : Walked (List Ref) :=
  (a.preOrder statement).map fun visits =>
    visits.filterMap fun v =>
      match a.node? v.node with
      | some (.call callee _ _) =>
        if a.liesIn (a.parent statement) v.node then some callee else none
      | _ => none

def lookedAt (body : List Ref) : List Ref := body.take (lastLooked body.length + 1)

/-- The callees of the calls made directly in a scope body, in source order. -/
def calleesIn (a : Arena) (body : List Ref) : Walked (List Ref) :=
  ((lookedAt body).mapM a.calleesBelow).map List.flatten

/-- The bodies that the extractors, in order, find for a callee. -/
def resolutions (a : Arena) (extractors : List Extractor) (body : List Ref) (callee : Ref) :
    Walked (List Callee) :=
  (extractors.mapM fun (extract : Extractor) => extract a body callee).map (List.filterMap id)

/-- The bodies that the calls made directly in a scope body run. -/
def callsIn (a : Arena) (extractors : List Extractor) (body : List Ref) : Walked (List Callee) := do
  let callees ← a.calleesIn body
  let found ← callees.mapM (a.resolutions extractors body)
  return found.flatten

/-- The entries for a scope body, at most the given number of calls deep. -/
def traceBody (a : Arena) (extractors : List Extractor) : Nat → List Ref → Walked (List Call)
  | 0, _ => some []
  | depth + 1, body => do
    let found ← a.callsIn extractors body
    found.mapM fun callee => do
      let calls ← a.traceBody extractors depth ((a.statements? callee.body).getD [])
      return .mk callee.name callee.body calls

/-- The trace of a program or block; nothing for other nodes. -/
def trace (a : Arena) (extractors : List Extractor) (program : Ref) : Walked (List Call) :=
  a.traceBody extractors maxDepth ((a.statements? program).getD [])

/-- The trace with the extractors that are used by default. -/
def defaultTrace (a : Arena) (program : Ref) : Walked (List Call) :=
  a.trace [functionExpressions] program

end Arena

end CallTrace
