/-!
Nonnegative binary64 numbers as a significand times a power of two.

An operation is the exact operation on fractions followed by one rounding: to the nearest number
of at most 53 significant bits, a tie going to the even significand. Exponents are unbounded
upwards, so that a result beyond the largest finite number is still a number; `inRange` tells.
-/
namespace CallTrace

/-- The quotient `n / d` to the nearest natural number, a tie going to the even neighbour. -/
def roundDiv (n d : Nat) : Nat :=
  let q := n / d
  let r := n % d
  if 2 * r < d ∨ (2 * r = d ∧ q % 2 = 0) then q else q + 1

/-- The largest `k` with `2 ^ k ≤ n / d`, for positive `n` and `d`. -/
def floorLog2 (n d : Nat) : Int :=
  let k : Int := (n.log2 : Int) - (d.log2 : Int)
  if d * Nat.pow 2 k.toNat ≤ n * Nat.pow 2 (-k).toNat then k else k - 1

/-- The number `significand * 2 ^ exponent`. -/
structure Binary64 where
  significand : Nat
  exponent : Int
deriving DecidableEq, Repr

namespace Binary64

def zero : Binary64 := ⟨0, -1074⟩

/-- Numerator of the exact value over `den`. -/
def num (x : Binary64) : Nat := x.significand * Nat.pow 2 x.exponent.toNat

def den (x : Binary64) : Nat := Nat.pow 2 (-x.exponent).toNat

/-- The fraction `n / d`, rounded. -/
def ofRatio (n d : Nat) : Binary64 :=
  if n = 0 then zero
  else
    let e := max (floorLog2 n d - 52) (-1074)
    let m := roundDiv (n * Nat.pow 2 (-e).toNat) (d * Nat.pow 2 e.toNat)
    if m = Nat.pow 2 53 then ⟨Nat.pow 2 52, e + 1⟩ else ⟨m, e⟩

def ofNat (n : Nat) : Binary64 := ofRatio n 1

def add (x y : Binary64) : Binary64 := ofRatio (x.num * y.den + y.num * x.den) (x.den * y.den)

def mul (x y : Binary64) : Binary64 := ofRatio (x.num * y.num) (x.den * y.den)

def div (x y : Binary64) : Binary64 := ofRatio (x.num * y.den) (x.den * y.num)

/-- The nearest natural number, a half going up. -/
def roundHalfUp (x : Binary64) : Nat := (2 * x.num + x.den) / (2 * x.den)

/-- Whether the number is at most the largest finite binary64 number. -/
def inRange (x : Binary64) : Bool := x.exponent ≤ 971

/-- The power `10 ^ k`, rounded. -/
def tenPow (k : Nat) : Binary64 := ofNat (Nat.pow 10 k)

/-- Division by `10 ^ k`, by steps of at most `10 ^ 308`. -/
def shrink (x : Binary64) (k : Nat) : Binary64 :=
  if k ≤ 308 then x.div (tenPow k)
  else if x.significand = 0 then x
  else shrink (x.div (tenPow 308)) (k - 308)
termination_by k

/-- The decimal `digits * 10 ^ exponent`: the digits are rounded first and then scaled by a
rounded power of ten. There is no result beyond the largest finite number. -/
def ofDecimal? (digits : Nat) (exponent : Int) : Option Binary64 :=
  let x := ofNat digits
  if exponent < 0 then some (x.shrink (-exponent).toNat)
  else if exponent ≤ 308 then
    let y := x.mul (tenPow exponent.toNat)
    if y.inRange then some y else none
  else if digits = 0 then some x
  else none

end Binary64

end CallTrace
