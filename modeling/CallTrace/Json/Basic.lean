import CallTrace.Binary64

/-!
JSON values. Integers and floats are told apart, and an object is the list of its members in the
order in which they were written.
-/
namespace CallTrace

inductive Json where
  | null
  | bool (b : Bool)
  | int (n : Int)
  | float (negative : Bool) (magnitude : Binary64)
  | string (s : String)
  | array (items : List Json)
  | object (members : List (String × Json))
deriving Repr, Inhabited

namespace Json

/-- The value of the first member with the given key. -/
def lookup (key : String) (members : List (String × Json)) : Option Json :=
  (members.find? (fun m => m.1 = key)).map (·.2)

/-- A member of an object; a value of another kind has none. -/
def get? (key : String) : Json → Option Json
  | .object members => lookup key members
  | _ => none

def isNull : Json → Bool
  | .null => true
  | _ => false

def string? : Json → Option String
  | .string s => some s
  | _ => none

/-- An integer that fits 32 bits without a sign. -/
def word? : Json → Option UInt32
  | .int n => if 0 ≤ n ∧ n < 0x100000000 then some (UInt32.ofNat n.toNat) else none
  | _ => none

/-- The member list with one member set: a known key keeps its place, a new one goes last. -/
def put (members : List (String × Json)) (m : String × Json) : List (String × Json) :=
  if members.any (fun x => x.1 = m.1) then members.map (fun x => if x.1 = m.1 then m else x)
  else members ++ [m]

/-- Of members with the same key the last value counts, in the place of the first. -/
def lastWins (members : List (String × Json)) : List (String × Json) := members.foldl put []

end Json

end CallTrace
