import CallTrace.Arena.Basic
import CallTrace.Json.Printer
import CallTrace.Node.Record

/-!
Arenas as JSON records. The two tables are stored side by side and need not have the same length.
-/
namespace CallTrace

def wordJson (w : UInt32) : Json := .int w.toNat

def Info.toJson (info : Info) : Json :=
  .object [("parent", Ref.toJson info.parent), ("pos", wordJson info.span.pos),
    ("end", wordJson info.span.stop)]

def Info.ofCell? (v : Cell) : Option Info := do
  match ← v.fields? ["parent", "pos", "end"] with
  | [some parent, some pos, some stop] =>
    return ⟨← Ref.ofCell? parent, ⟨← pos.word?, ← stop.word?⟩⟩
  | _ => none

namespace Arena

def toJson (a : Arena) : Json :=
  .object [("nodes", .array (a.nodes.toList.map Node.toJson)),
    ("extended_info", .array (a.infos.toList.map Info.toJson))]

/-- An arena's nodes stand inside its record and its list of nodes. -/
def ofCell? (v : Cell) : Option Arena := do
  match ← v.fields? ["nodes", "extended_info"] with
  | [some nodes, some infos] =>
    return ⟨(← nodes.list? (Node.ofCell? 2)).toArray, (← infos.list? Info.ofCell?).toArray⟩
  | _ => none

/-- The stored form of an arena. -/
def save (a : Arena) : String := a.toJson.compress

/-- The arena of a stored form. -/
def load? (text : String) : Option Arena := Record.parse? ofCell? text

end Arena

end CallTrace
