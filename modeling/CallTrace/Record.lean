import CallTrace.Json.Reader

/-!
Records in JSON: values of fixed fields.

A record is an object that holds each of its fields at most once, in any order and among others
that are passed over, or an array of exactly its fields. What is passed over has to be JSON, but
need not name a value, and may be nested to any depth.

A tag is a string or an object with that one key and no value.
-/
namespace CallTrace

/-- A value as it stands in a stored record. What names no value is `void`, an object with such a
key included. -/
inductive Cell where
  | scalar (v : Json)
  | void
  | list (items : List Cell)
  | record (members : List (String × Cell))
deriving Inhabited

namespace Cell

def ofMembers (members : List (Option String × Cell)) : Cell :=
  if members.all fun m => m.1.isSome then .record (Json.named members) else .void

/-- The reading of a stored record: objects keep every member as written. -/
def reading : Json.Reading Cell := ⟨.scalar, some .void, .list, ofMembers⟩

def word? : Cell → Option UInt32
  | .scalar v => v.word?
  | _ => none

def string? : Cell → Option String
  | .scalar v => v.string?
  | _ => none

def bool? : Cell → Option Bool
  | .scalar (.bool b) => some b
  | _ => none

/-- A text that may be missing. -/
def optionalText? : Option Cell → Option (Option String)
  | none | some (.scalar .null) => some none
  | some v => v.string?.map some

def tag? : Cell → Option String
  | .scalar (.string s) => some s
  | .record [(s, .scalar .null)] => some s
  | _ => none

def list? {α : Type} (item? : Cell → Option α) : Cell → Option (List α)
  | .list items => items.mapM item?
  | _ => none

/-- The fields with the given names, in the order of the names. -/
def fields? (names : List String) : Cell → Option (List (Option Cell))
  | .record members =>
    if names.all fun name => (members.filter fun m => m.1 = name).length ≤ 1 then
      some (names.map fun name => (members.find? fun m => m.1 = name).map (·.2))
    else none
  | .list items => if items.length = names.length then some (items.map some) else none
  | _ => none

/-- Whether a value can be kept before it is known what it is the value of: all of it names values,
and it is nested at most to the given depth. -/
def isKeepable : Nat → Cell → Bool
  | _, .scalar _ => true
  | _, .void => false
  | 0, _ => false
  | depth + 1, .list items => items.all (isKeepable depth)
  | depth + 1, .record members => members.all fun m => isKeepable depth m.2

end Cell

namespace Record

/-- How deep the arrays and objects that a record is made of may be nested. -/
def maxNesting : Nat := 127

def optionalText : Option String → Json
  | some s => .string s
  | none => .null

/-- Reads a record that is given as text. -/
def parse? {α : Type} (decode? : Cell → Option α) (text : String) : Option α :=
  match Json.read Cell.reading text with
  | .ok v => decode? v
  | .error _ => none

end Record

end CallTrace
