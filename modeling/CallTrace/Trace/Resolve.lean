import CallTrace.Trace.Callee

/-!
Resolving one call of a program, given by its number. Calls are numbered from zero in the order of
the walk.
-/
namespace CallTrace

structure Resolution where
  call : Ref
  callee : Option Callee
deriving DecidableEq, Repr

namespace Arena

/-- The call with the given number below a root. A circle that has calls at all has one in each
round, so that this many rounds decide. -/
def nthCall (a : Arena) (root : Ref) (n : Nat) : Walked (Option Ref) :=
  (a.scan (n + 1) (fun (left : Nat) v =>
    if (a.node? v.node).any Node.isCall then
      match left with
      | 0 => .error v.node
      | left + 1 => .ok left
    else .ok left) n root).map
    fun
    | .error r => some r
    | .ok _ => none

/-- The statements of the innermost scope around a node. -/
def scopeBody (a : Arena) (r : Ref) : List Ref := (a.statements? (a.innermostScope r)).getD []

/-- What the call with the given number runs; nothing if the program has no such call. -/
def resolveCall (a : Arena) (program : Ref) (n : Nat) : Walked (Option Resolution) := do
  match ← a.nthCall program n with
  | none => return none
  | some call =>
    let callee ← functionExpressions a (a.scopeBody call) ((a.node? call).bind Node.callee?)
    return some ⟨call, callee⟩

end Arena

def noSuchCall (n : Nat) : String := "program has no call expression number " ++ toString n

end CallTrace
