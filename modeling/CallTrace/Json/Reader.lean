import CallTrace.Json.Numeral
import CallTrace.Json.Text

/-!
Reading JSON text, one character at a time.

The reader is a machine with a stack of open arrays and objects, so nesting is limited by nothing.
What it builds is given by a `Reading`. A text that the machine refuses at some character is
malformed; one that ends before the value is complete is cut short.
-/
namespace CallTrace.Json

/-- Why a text is not a JSON value. -/
inductive Fault where
  | cut
  | malformed
deriving DecidableEq, Repr

/-- What values are read as. A number beyond the range and a string with an unpaired surrogate name
no value: they are read as `void?`, or refused if there is none. -/
structure Reading (α : Type) where
  scalar : Json → α
  void? : Option α
  array : List α → α
  object : List (Option String × α) → α

namespace Reading

variable {α : Type}

def isStrict (r : Reading α) : Bool := r.void?.isNone

/-- A scalar that names the given value or none. -/
def scalar? (r : Reading α) : Option Json → Option α
  | some v => some (r.scalar v)
  | none => r.void?

end Reading

/-- An array or object that is open; what it holds so far stands in reverse order. -/
inductive Frame (α : Type) where
  | array (items : List α)
  | object (members : List (Option String × α))
  | member (members : List (Option String × α)) (key : Option String)

/-- What the reader is in the middle of. -/
inductive Mode (α : Type) where
  | value
  | item
  | key
  | nextKey
  | colon
  | next
  | word (letters : List Char) (v : Json)
  | number (n : Numeral)
  | text (t : Text)
  | done (v : α)

structure State (α : Type) where
  mode : Mode α
  frames : List (Frame α)

variable {α : Type}

def State.start : State α := ⟨.value, []⟩

def isBlank (c : Char) : Bool := c = ' ' || c = '\t' || c = '\r' || c = '\n'

def State.complete (v : α) : List (Frame α) → State α
  | [] => ⟨.done v, []⟩
  | .array items :: rest => ⟨.next, .array (v :: items) :: rest⟩
  | .member members key :: rest => ⟨.next, .object ((key, v) :: members) :: rest⟩
  | .object members :: rest => ⟨.next, .object members :: rest⟩

def completeScalar (r : Reading α) (v : Option Json) (frames : List (Frame α)) :
    Option (State α) :=
  (r.scalar? v).map fun v => .complete v frames

/-- The state after a complete string: a key if an object waits for one. -/
def completeText (r : Reading α) (s : Option String) : List (Frame α) → Option (State α)
  | .object members :: rest => some ⟨.colon, .member members s :: rest⟩
  | frames => completeScalar r (s.map Json.string) frames

/-- The first character of a value. -/
def openValue (c : Char) (frames : List (Frame α)) : Option (State α) :=
  if c = '[' then some ⟨.item, .array [] :: frames⟩
  else if c = '\x7b' then some ⟨.key, .object [] :: frames⟩
  else if c = '"' then some ⟨.text .start, frames⟩
  else if c = 'n' then some ⟨.word ['u', 'l', 'l'] .null, frames⟩
  else if c = 't' then some ⟨.word ['r', 'u', 'e'] (.bool true), frames⟩
  else if c = 'f' then some ⟨.word ['a', 'l', 's', 'e'] (.bool false), frames⟩
  else (Numeral.start? c).map fun n => ⟨.number n, frames⟩

def closeArray (r : Reading α) : List (Frame α) → Option (State α)
  | .array items :: rest => some (.complete (r.array items.reverse) rest)
  | _ => none

def closeObject (r : Reading α) : List (Frame α) → Option (State α)
  | .object members :: rest => some (.complete (r.object members.reverse) rest)
  | _ => none

/-- What may follow a complete value. -/
def follow (r : Reading α) (s : State α) (c : Char) : Option (State α) :=
  if isBlank c then some s
  else match s.mode with
    | .next =>
      if c = ',' then
        match s.frames with
        | .object _ :: _ => some ⟨.nextKey, s.frames⟩
        | _ => some ⟨.value, s.frames⟩
      else if c = ']' then closeArray r s.frames
      else if c = '\x7d' then closeObject r s.frames
      else none
    | _ => none

/-- One character; none if no JSON text goes on with it. -/
def step (r : Reading α) (s : State α) (c : Char) : Option (State α) :=
  match s.mode with
  | .value => if isBlank c then some s else openValue c s.frames
  | .item =>
    if isBlank c then some s
    else if c = ']' then closeArray r s.frames
    else openValue c s.frames
  | .key =>
    if isBlank c then some s
    else if c = '\x7d' then closeObject r s.frames
    else if c = '"' then some ⟨.text .start, s.frames⟩
    else none
  | .nextKey =>
    if isBlank c then some s
    else if c = '"' then some ⟨.text .start, s.frames⟩
    else none
  | .colon =>
    if isBlank c then some s
    else if c = ':' then some ⟨.value, s.frames⟩
    else none
  | .word [] v => follow r (.complete (r.scalar v) s.frames) c
  | .word [l] v => if c = l then some (.complete (r.scalar v) s.frames) else none
  | .word (l :: letters) v => if c = l then some ⟨.word letters v, s.frames⟩ else none
  | .number n =>
    match n.extend? c with
    | some n => some ⟨.number n, s.frames⟩
    | none =>
      if n.isComplete then (completeScalar r n.value? s.frames).bind fun s => follow r s c
      else none
  | .text t =>
    match if c = '"' then t.close? r.isStrict else none with
    | some t => completeText r t.value? s.frames
    | none => (t.extend? r.isStrict c).map fun t => ⟨.text t, s.frames⟩
  | .next | .done _ => follow r s c

/-- The value once the text has ended. -/
def State.result (r : Reading α) (s : State α) : Except Fault α :=
  match s.mode with
  | .done v => .ok v
  | .number n =>
    if n.isComplete then
      match r.scalar? n.value?, s.frames with
      | none, _ => .error .malformed
      | some v, [] => .ok v
      | some _, _ => .error .cut
    else .error .cut
  | _ => .error .cut

def run (r : Reading α) : State α → List Char → Option (State α)
  | s, [] => some s
  | s, c :: cs => match step r s c with
    | some s => run r s cs
    | none => none

def read (r : Reading α) (text : String) : Except Fault α :=
  match run r .start text.toList with
  | some s => s.result r
  | none => .error .malformed

/-- The members whose keys name a text. -/
def named (members : List (Option String × α)) : List (String × α) :=
  members.filterMap fun m => m.1.map fun key => (key, m.2)

/-- The reading of a document: what names no value is refused, and of members with one key the last
value counts. -/
def document : Reading Json := ⟨id, none, .array, fun members => .object (lastWins (named members))⟩

def parse (text : String) : Except Fault Json := read document text

end CallTrace.Json
