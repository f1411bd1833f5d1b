import CallTrace.Json.Basic

/-!
JSON numbers, read one character at a time.

The digits make up one significand as long as it fits 64 bits. Further digits of the whole part
only raise the power of ten, further digits of the fraction are dropped.
-/
namespace CallTrace.Json

/-- Where the reader stands inside a number. -/
inductive Numeral.Place where
  | sign
  | zero
  | whole
  | longWhole
  | point
  | fraction
  | longFraction
  | mark
  | markSign
  | exponent
deriving DecidableEq, Repr

/-- What has been read of a number: its value is `significand * 10 ^ (scale ± exponent)`. -/
structure Numeral where
  negative : Bool
  significand : Nat
  scale : Int
  exponentNegative : Bool
  exponent : Nat
  place : Numeral.Place
deriving DecidableEq, Repr

namespace Numeral

/-- The largest significand that is kept. -/
def maxSignificand : Nat := 0xffffffffffffffff

def digit? (c : Char) : Option Nat := if c.isDigit then some (c.toNat - '0'.toNat) else none

def isMark (c : Char) : Bool := c = 'e' || c = 'E'

/-- The first digit of the whole part. -/
def first? (n : Numeral) (c : Char) : Option Numeral :=
  (digit? c).map fun d => { n with significand := d, place := if d = 0 then .zero else .whole }

/-- The number that a first character opens. -/
def start? (c : Char) : Option Numeral :=
  if c = '-' then some ⟨true, 0, 0, false, 0, .sign⟩
  else first? ⟨false, 0, 0, false, 0, .sign⟩ c

/-- A further digit of the whole part. -/
def pushWhole (n : Numeral) (d : Nat) : Numeral :=
  let s := n.significand * 10 + d
  if s ≤ maxSignificand then { n with significand := s }
  else { n with scale := n.scale + 1, place := .longWhole }

/-- A further digit of the fraction. -/
def pushFraction (n : Numeral) (d : Nat) : Numeral :=
  let s := n.significand * 10 + d
  if s ≤ maxSignificand then { n with significand := s, scale := n.scale - 1, place := .fraction }
  else { n with place := .longFraction }

/-- What may follow the whole part apart from its digits. -/
def leaveWhole? (n : Numeral) (c : Char) : Option Numeral :=
  if c = '.' then some { n with place := .point }
  else if isMark c then some { n with place := .mark }
  else none

def leaveFraction? (n : Numeral) (c : Char) : Option Numeral :=
  if isMark c then some { n with place := .mark } else none

def pushExponent? (n : Numeral) (c : Char) : Option Numeral :=
  (digit? c).map fun d => { n with exponent := n.exponent * 10 + d, place := .exponent }

/-- The number with one more character, if the character belongs to it. -/
def extend? (n : Numeral) (c : Char) : Option Numeral :=
  match n.place with
  | .sign => n.first? c
  | .zero => n.leaveWhole? c
  | .whole => match digit? c with
    | some d => some (n.pushWhole d)
    | none => n.leaveWhole? c
  | .longWhole => match digit? c with
    | some _ => some { n with scale := n.scale + 1 }
    | none => n.leaveWhole? c
  | .point => (digit? c).map n.pushFraction
  | .fraction => match digit? c with
    | some d => some (n.pushFraction d)
    | none => n.leaveFraction? c
  | .longFraction => match digit? c with
    | some _ => some n
    | none => n.leaveFraction? c
  | .mark =>
    if c = '+' then some { n with place := .markSign }
    else if c = '-' then some { n with exponentNegative := true, place := .markSign }
    else n.pushExponent? c
  | .markSign => n.pushExponent? c
  | .exponent => n.pushExponent? c

/-- Whether the number may end here. -/
def isComplete (n : Numeral) : Bool :=
  match n.place with
  | .sign | .point | .mark | .markSign => false
  | _ => true

def isWhole (n : Numeral) : Bool := n.place = .zero || n.place = .whole

/-- The integer that a whole number stands for, if it has one: a positive one fits 64 bits without
a sign, a negative one 64 bits with a sign, and `-0` is not an integer. -/
def int? (n : Numeral) : Option Int :=
  if ¬ n.isWhole then none
  else if ¬ n.negative then some n.significand
  else if n.significand = 0 ∨ 0x8000000000000000 < n.significand then none
  else some (-n.significand)

def totalExponent (n : Numeral) : Int :=
  if n.exponentNegative then n.scale - n.exponent else n.scale + n.exponent

/-- The value of a complete number; none if it is too large. -/
def value? (n : Numeral) : Option Json :=
  match n.int? with
  | some i => some (.int i)
  | none => (Binary64.ofDecimal? n.significand n.totalExponent).map (.float n.negative)

end Numeral

end CallTrace.Json
