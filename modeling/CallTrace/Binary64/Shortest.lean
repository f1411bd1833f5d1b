import CallTrace.Binary64

/-!
The shortest decimal that reads back as a given binary64 number.

The numbers that round to `m * 2 ^ e` form an interval around it, ends included when `m` is even.
For one digit, two digits and so on, the two multiples of the power of ten next to the value are
tried; the first length with a hit is taken, of two hits the nearer, and of two equally near the even.
-/
namespace CallTrace

/-- The number `digits * 10 ^ exponent`. -/
structure Decimal where
  digits : Nat
  exponent : Int
deriving DecidableEq, Repr

namespace Decimal

/-- Trailing zeros of the digits move into the exponent. -/
def normalize : Nat → Decimal → Decimal
  | 0, x => x
  | fuel + 1, x =>
    if x.digits ≠ 0 ∧ x.digits % 10 = 0 then normalize fuel ⟨x.digits / 10, x.exponent + 1⟩ else x

end Decimal

namespace Binary64

/-- The value in units of `2 ^ (exponent - 2)`, with the lower and upper end of its interval. -/
def center (x : Binary64) : Nat := 4 * x.significand

def lower (x : Binary64) : Nat :=
  if x.significand = Nat.pow 2 52 ∧ -1074 < x.exponent then x.center - 1 else x.center - 2

def upper (x : Binary64) : Nat := x.center + 2

/-- The number of `k` units as a multiple of a step that `onGrid` shares. -/
def units (x : Binary64) (g : Int) (k : Nat) : Nat :=
  k * Nat.pow 2 (x.exponent - 2).toNat * Nat.pow 10 (-g).toNat

/-- The decimal `c * 10 ^ g` as a multiple of the same step. -/
def onGrid (x : Binary64) (g : Int) (c : Nat) : Nat :=
  c * Nat.pow 2 (2 - x.exponent).toNat * Nat.pow 10 g.toNat

/-- Whether `c * 10 ^ g` reads back as `x`. -/
def readsBack (x : Binary64) (g : Int) (c : Nat) : Bool :=
  let lo := x.units g x.lower
  let hi := x.units g x.upper
  let v := x.onGrid g c
  if x.significand % 2 = 0 then lo ≤ v ∧ v ≤ hi else lo < v ∧ v < hi

/-- The multiple of `10 ^ g` to take for `x`, if one of its two neighbours reads back. -/
def neighbour? (x : Binary64) (g : Int) : Option Nat :=
  let v := x.units g x.center
  let c := v / x.onGrid g 1
  let below := v - x.onGrid g c
  let above := x.onGrid g (c + 1) - v
  match x.readsBack g c, x.readsBack g (c + 1) with
  | true, true => if below < above ∨ (below = above ∧ c % 2 = 0) then some c else some (c + 1)
  | true, false => some c
  | false, true => some (c + 1)
  | false, false => none

/-- The least `j` from the given one on with `1 ≤ x * 10 ^ j`, looked for in the given number of places. -/
def leadingPlace (x : Binary64) : Nat → Nat → Nat
  | 0, j => j
  | fuel + 1, j => if x.den ≤ x.num * Nat.pow 10 j then j else leadingPlace x fuel (j + 1)

/-- The decimal exponent of the first digit of a positive number. -/
def leadingExponent (x : Binary64) : Int :=
  let whole := x.num / x.den
  if whole = 0 then -(x.leadingPlace 400 1 : Int) else ((Nat.toDigits 10 whole).length : Int) - 1

def shortestFrom (x : Binary64) (lead : Int) : Nat → Nat → Decimal
  | 0, k => ⟨x.units (lead - k) x.center / x.onGrid (lead - k) 1, lead - k⟩
  | fuel + 1, k =>
    match x.neighbour? (lead - k) with
    | some c => ⟨c, lead - k⟩
    | none => shortestFrom x lead fuel (k + 1)

/-- The decimal of fewest digits that reads back as `x`; seventeen digits always suffice. -/
def shortest (x : Binary64) : Decimal :=
  if x.significand = 0 then ⟨0, 0⟩
  else (x.shortestFrom x.leadingExponent 17 0).normalize 20

end Binary64

end CallTrace
