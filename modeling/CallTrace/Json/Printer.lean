import CallTrace.Binary64.Shortest
import CallTrace.Json.Basic

/-!
JSON text of a value, compact or indented by two spaces. The writers append to the text written so
far.
-/
namespace CallTrace.Json

def hexChar (n : Nat) : Char := if n < 10 then Char.ofNat (n + 48) else Char.ofNat (n + 87)

/-- A character inside a string: quotes, backslashes and control characters are escaped. -/
def writeChar (out : String) (c : Char) : String :=
  if c = '"' then out ++ "\\\""
  else if c = '\\' then out ++ "\\\\"
  else if c = '\x08' then out ++ "\\b"
  else if c = '\t' then out ++ "\\t"
  else if c = '\n' then out ++ "\\n"
  else if c = '\x0c' then out ++ "\\f"
  else if c = '\r' then out ++ "\\r"
  else if c.toNat < 0x20 then
    ((out ++ "\\u00").push (hexChar (c.toNat / 16))).push (hexChar (c.toNat % 16))
  else out.push c

def writeText (out : String) (s : String) : String :=
  (s.toList.foldl writeChar (out.push '"')).push '"'

/-- The decimal exponents, from and to, of floats that are written without an exponent. -/
def positional : Int × Int := (-5, 15)

/-- A positive decimal: positional with at least one digit after the point, or one digit before the
point and an exponent with its sign. -/
def decimalText (x : Decimal) : String :=
  let digits := Nat.toDigits 10 x.digits
  let lead := (digits.length : Int) - 1 + x.exponent
  let text : List Char :=
    if positional.1 ≤ lead ∧ lead ≤ positional.2 then
      if lead < 0 then '0' :: '.' :: List.replicate (-lead - 1).toNat '0' ++ digits
      else
        let whole := lead.toNat + 1
        if digits.length ≤ whole then
          digits ++ List.replicate (whole - digits.length) '0' ++ ['.', '0']
        else digits.take whole ++ '.' :: digits.drop whole
    else
      let fraction := digits.drop 1
      digits.take 1 ++ (if fraction.isEmpty then [] else '.' :: fraction) ++
        ('e' :: (if lead < 0 then '-' else '+') :: Nat.toDigits 10 lead.natAbs)
  String.ofList text

def floatText (negative : Bool) (x : Binary64) : String :=
  let text := if x.significand = 0 then "0.0" else decimalText x.shortest
  if negative then "-" ++ text else text

def intText (n : Int) : String :=
  let digits := String.ofList (Nat.toDigits 10 n.natAbs)
  if n < 0 then "-" ++ digits else digits

mutual

def write (out : String) : Json → String
  | .null => out ++ "null"
  | .bool true => out ++ "true"
  | .bool false => out ++ "false"
  | .int n => out ++ intText n
  | .float negative x => out ++ floatText negative x
  | .string s => writeText out s
  | .array items => (writeItems (out.push '[') true items).push ']'
  | .object members => (writeMembers (out.push '\x7b') true members).push '\x7d'

def writeItems (out : String) (first : Bool) : List Json → String
  | [] => out
  | v :: rest => writeItems (write (if first then out else out.push ',') v) false rest

def writeMembers (out : String) (first : Bool) : List (String × Json) → String
  | [] => out
  | m :: rest => writeMembers (writeMember (if first then out else out.push ',') m) false rest

def writeMember (out : String) : String × Json → String
  | (key, v) => write ((writeText out key).push ':') v

end

/-- The text of a value without blanks. -/
def compress (v : Json) : String := write "" v

/-- A new line at the given depth. -/
def newLine (out : String) (depth : Nat) : String := depth.repeat (fun s => s ++ "  ") (out.push '\n')

mutual

def writePretty (out : String) (depth : Nat) : Json → String
  | .array [] => out ++ "[]"
  | .array (v :: rest) =>
    (newLine (writePrettyItems (out.push '[') depth true (v :: rest)) depth).push ']'
  | .object [] => (out.push '\x7b').push '\x7d'
  | .object (m :: rest) =>
    (newLine (writePrettyMembers (out.push '\x7b') depth true (m :: rest)) depth).push '\x7d'
  | .null => write out .null
  | .bool b => write out (.bool b)
  | .int n => write out (.int n)
  | .float negative x => write out (.float negative x)
  | .string s => write out (.string s)

def writePrettyItems (out : String) (depth : Nat) (first : Bool) : List Json → String
  | [] => out
  | v :: rest =>
    let out := newLine (if first then out else out.push ',') (depth + 1)
    writePrettyItems (writePretty out (depth + 1) v) depth false rest

def writePrettyMembers (out : String) (depth : Nat) (first : Bool) :
    List (String × Json) → String
  | [] => out
  | m :: rest =>
    let out := newLine (if first then out else out.push ',') (depth + 1)
    writePrettyMembers (writePrettyMember out depth m) depth false rest

def writePrettyMember (out : String) (depth : Nat) : String × Json → String
  | (key, v) => writePretty (writeText out key ++ ": ") (depth + 1) v

end

/-- The text of a value on indented lines. -/
def pretty (v : Json) : String := writePretty "" 0 v

end CallTrace.Json
