import CallTrace.Arena.Record
import CallTrace.Trace.Basic

/-!
Callees and trace entries as JSON records.
-/
namespace CallTrace

def Callee.toJson (c : Callee) : Json :=
  .object [("body", Ref.toJson c.body), ("name", Record.optionalText c.name)]

def Callee.ofCell? (v : Cell) : Option Callee := do
  match ← v.fields? ["body", "name"] with
  | [some body, name] => return ⟨← Ref.ofCell? body, ← Cell.optionalText? name⟩
  | _ => none

namespace Call

mutual

def toJson : Call → Json
  | .mk name callee calls =>
    .object [("name", Record.optionalText name), ("callee", Ref.toJson callee),
      ("stack_trace", .array (listToJson calls))]

def listToJson : List Call → List Json
  | [] => []
  | c :: rest => toJson c :: listToJson rest

end

/-- How many levels of entries a record may have: each is an object and the list in it. -/
def maxRecordLevels : Nat := Record.maxNesting / 2

def ofCellWithin? : Nat → Cell → Option Call
  | 0, _ => none
  | levels + 1, v => do
    match ← v.fields? ["name", "callee", "stack_trace"] with
    | [name, some callee, some calls] =>
      return .mk (← Cell.optionalText? name) (← Ref.ofCell? callee)
        (← calls.list? (ofCellWithin? levels))
    | _ => none

def ofCell? (v : Cell) : Option Call := ofCellWithin? maxRecordLevels v

end Call

end CallTrace
