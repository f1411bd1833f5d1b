/-!
JSON strings, read one character at a time.

An escape `\u` takes the next four bytes before it looks at them. A leading surrogate waits for its
trailing one; a surrogate that stays alone names no character, and a string with such a surrogate
names no text. A strict reader refuses it, another one reads on to the end of the string.
-/
namespace CallTrace.Json

/-- Where the reader stands inside a string. -/
inductive Text.Place where
  | plain
  | slash
  | code (lead : Option Nat) (taken : List Char)
  | lead (unit : Nat)
  | leadSlash (unit : Nat)
deriving DecidableEq, Repr

/-- What has been read of a string, its characters in reverse order, and whether it names them. -/
structure Text where
  seen : List Char
  sound : Bool
  place : Text.Place
deriving DecidableEq, Repr

def hexDigit? (c : Char) : Option Nat :=
  if c.isDigit then some (c.toNat - '0'.toNat)
  else if 'a' ≤ c ∧ c ≤ 'f' then some (c.toNat - 'a'.toNat + 10)
  else if 'A' ≤ c ∧ c ≤ 'F' then some (c.toNat - 'A'.toNat + 10)
  else none

/-- The unit that four hexadecimal digits name. -/
def hexUnit? : List Char → Option Nat
  | [a, b, c, d] => do
    let a ← hexDigit? a
    let b ← hexDigit? b
    let c ← hexDigit? c
    let d ← hexDigit? d
    return ((a * 16 + b) * 16 + c) * 16 + d
  | _ => none

def isLead (unit : Nat) : Bool := 0xD800 ≤ unit && unit ≤ 0xDBFF

def isTrail (unit : Nat) : Bool := 0xDC00 ≤ unit && unit ≤ 0xDFFF

def pairChar (lead trail : Nat) : Char :=
  Char.ofNat ((lead - 0xD800) * 0x400 + (trail - 0xDC00) + 0x10000)

def simpleEscape? (c : Char) : Option Char :=
  if c = '"' ∨ c = '\\' ∨ c = '/' then some c
  else if c = 'b' then some '\x08'
  else if c = 'f' then some '\x0c'
  else if c = 'n' then some '\n'
  else if c = 'r' then some '\r'
  else if c = 't' then some '\t'
  else none

namespace Text

def start : Text := ⟨[], true, .plain⟩

def value? (t : Text) : Option String :=
  if t.sound then some (String.ofList t.seen.reverse) else none

def push (t : Text) (c : Char) : Text := { t with seen := c :: t.seen, place := .plain }

/-- The string after a surrogate that stays alone. -/
def lose? (strict : Bool) (t : Text) (place : Place) : Option Text :=
  if strict then none else some { t with sound := false, place := place }

/-- A character that is not part of an escape. -/
def pushPlain? (t : Text) (c : Char) : Option Text :=
  if c = '\\' then some { t with place := .slash }
  else if c.toNat < 0x20 then none
  else some (t.push c)

/-- The character after a backslash. -/
def pushEscape? (t : Text) (c : Char) : Option Text :=
  if c = 'u' then some { t with place := .code none [] } else (simpleEscape? c).map t.push

/-- The string after an escape with the given unit. -/
def pushUnit? (strict : Bool) (t : Text) (lead : Option Nat) (unit : Nat) : Option Text :=
  match lead with
  | none =>
    if isTrail unit then t.lose? strict .plain
    else if isLead unit then some { t with place := .lead unit }
    else some (t.push (Char.ofNat unit))
  | some first =>
    if isTrail unit then some (t.push (pairChar first unit)) else t.lose? strict .plain

/-- The string with one more character that does not end it. -/
def extend? (strict : Bool) (t : Text) (c : Char) : Option Text :=
  match t.place with
  | .plain => t.pushPlain? c
  | .slash => t.pushEscape? c
  | .code lead taken =>
    let taken := taken ++ [c]
    if taken.foldl (fun n c => n + c.utf8Size) 0 < 4 then some { t with place := .code lead taken }
    else (hexUnit? taken).bind (t.pushUnit? strict lead)
  | .lead unit =>
    if c = '\\' then some { t with place := .leadSlash unit }
    else (t.lose? strict .plain).bind fun t => t.pushPlain? c
  | .leadSlash unit =>
    if c = 'u' then some { t with place := .code (some unit) [] }
    else (t.lose? strict .slash).bind fun t => t.pushEscape? c

/-- The string at a quote that ends it, if the quote does. -/
def close? (strict : Bool) (t : Text) : Option Text :=
  match t.place with
  | .plain => some t
  | .lead _ => t.lose? strict .plain
  | _ => none

end Text

end CallTrace.Json
