import CallTrace.Binary64
import Mathlib

/-!
What rounding to binary64 does.

A number stands for a rational (`Binary64.value`). `Binary64.Rounds q x` says that `x` is `q` correctly
rounded: no number of 53 bits is nearer to `q`, and `x` has an even significand where another one is as
near. Every fraction is rounded in this way (`Binary64.rounds_ofRatio`), and with it every sum and product.

All that follows comes from this rule alone: it leaves no choice (`Rounds.value_unique`), keeps the order
(`Rounds.value_le_value`), keeps a number that fits (`Rounds.value_eq`), and changes a rational below
`2 ^ 53` units of a place by less than one unit (`Rounds.abs_value_sub_lt`).
-/
namespace CallTrace

theorem two_zpow_eq_div (k : ℤ) : (2 : ℚ) ^ k = 2 ^ k.toNat / 2 ^ (-k).toNat := by
  obtain ⟨n, rfl | rfl⟩ := k.eq_nat_or_neg <;> simp

theorem two_pow_mul_zpow (n : ℕ) (e : ℤ) : (2 : ℚ) ^ n * 2 ^ e = 2 ^ (n + e) := by
  rw [zpow_add₀ two_ne_zero, zpow_natCast]

section Quotients

variable {n d : ℕ}

/-- The rounded quotient is at most one half away, and an even number if it is exactly one half away. -/
theorem roundDiv_spec (hd : 0 < d) :
    |(roundDiv n d : ℚ) - n / d| ≤ 1 / 2 ∧
      (|(roundDiv n d : ℚ) - n / d| = 1 / 2 → roundDiv n d % 2 = 0) := by
  have hd' : (0 : ℚ) < d := by exact_mod_cast hd
  have hquotient : (n : ℚ) / d = (n / d : ℕ) + ((n % d : ℕ) : ℚ) / d := by
    rw [add_div' _ _ _ hd'.ne', div_left_inj' hd'.ne']
    exact_mod_cast (Nat.div_add_mod' n d).symm
  have hlt : ((n % d : ℕ) : ℚ) / d < 1 := by
    rw [div_lt_one hd']
    exact_mod_cast Nat.mod_lt n hd
  have hnonneg : 0 ≤ ((n % d : ℕ) : ℚ) / d := by positivity
  have hhalf : ((n % d : ℕ) : ℚ) / d = 1 / 2 ↔ 2 * (n % d) = d := by
    rw [div_eq_div_iff hd'.ne' two_ne_zero, mul_comm, one_mul]
    exact_mod_cast Iff.rfl
  rw [hquotient]
  simp only [roundDiv]
  split_ifs with h
  · have hle : ((n % d : ℕ) : ℚ) / d ≤ 1 / 2 := by
      rw [div_le_div_iff₀ hd' two_pos]
      exact_mod_cast (by omega : n % d * 2 ≤ 1 * d)
    rw [sub_add_cancel_left, abs_neg, abs_of_nonneg hnonneg, hhalf]
    exact ⟨hle, by omega⟩
  · have hle : 1 / 2 ≤ ((n % d : ℕ) : ℚ) / d := by
      rw [div_le_div_iff₀ two_pos hd']
      exact_mod_cast (by omega : 1 * d ≤ n % d * 2)
    rw [Nat.cast_add_one, add_sub_add_left_eq_sub, abs_of_nonneg (by linarith)]
    refine ⟨by linarith, fun heq => ?_⟩
    have htie := hhalf.1 (by linarith)
    omega

/-- No natural number is nearer to the quotient than the rounded one, and another that is as near is the
odd neighbour of a tie. -/
theorem roundDiv_nearest (hd : 0 < d) (j : ℕ) :
    |(roundDiv n d : ℚ) - n / d| ≤ |(j : ℚ) - n / d| ∧
      (j ≠ roundDiv n d → |(j : ℚ) - n / d| = |(roundDiv n d : ℚ) - n / d| → roundDiv n d % 2 = 0) := by
  obtain ⟨hle, heven⟩ := roundDiv_spec (n := n) hd
  by_cases hj : j = roundDiv n d
  · subst hj
    simp
  have hapart : (1 : ℚ) ≤ |(j : ℚ) - roundDiv n d| := by
    have hint : (j : ℤ) - roundDiv n d ≠ 0 := sub_ne_zero.2 (by exact_mod_cast hj)
    exact_mod_cast Int.one_le_abs hint
  have htriangle := abs_sub_le (j : ℚ) (n / d) (roundDiv n d)
  rw [abs_sub_comm (n / d : ℚ)] at htriangle
  exact ⟨by linarith, fun _ htie => heven (by linarith)⟩

theorem floorLog2_spec (hn : 0 < n) (hd : 0 < d) :
    (2 : ℚ) ^ floorLog2 n d ≤ n / d ∧ (n / d : ℚ) < 2 ^ (floorLog2 n d + 1) := by
  have hd' : (0 : ℚ) < d := by exact_mod_cast hd
  have hnlow : (2 : ℚ) ^ (n.log2 : ℤ) ≤ n := by exact_mod_cast Nat.log2_self_le hn.ne'
  have hnhigh : (n : ℚ) < 2 ^ (n.log2 + 1 : ℤ) := by exact_mod_cast Nat.lt_log2_self
  have hdlow : (2 : ℚ) ^ (d.log2 : ℤ) ≤ d := by exact_mod_cast Nat.log2_self_le hd.ne'
  have hdhigh : (d : ℚ) < 2 ^ (d.log2 + 1 : ℤ) := by exact_mod_cast Nat.lt_log2_self
  -- The quotient of the leading bits is off by one place at most, and the test tells.
  have htest : d * 2 ^ ((n.log2 : ℤ) - d.log2).toNat ≤ n * 2 ^ (-((n.log2 : ℤ) - d.log2)).toNat ↔
      (2 : ℚ) ^ ((n.log2 : ℤ) - d.log2) ≤ n / d := by
    rw [two_zpow_eq_div, div_le_div_iff₀ (by positivity) hd', mul_comm d]
    exact_mod_cast Iff.rfl
  simp only [floorLog2, Nat.pow_eq, htest]
  split_ifs with h
  · refine ⟨h, ?_⟩
    rw [div_lt_iff₀ hd']
    calc (n : ℚ) < 2 ^ (n.log2 + 1 : ℤ) := hnhigh
      _ = 2 ^ ((n.log2 : ℤ) - d.log2 + 1) * 2 ^ (d.log2 : ℤ) := by
        rw [← zpow_add₀ two_ne_zero]
        congr 1
        ring
      _ ≤ 2 ^ ((n.log2 : ℤ) - d.log2 + 1) * d := by gcongr
  · refine ⟨?_, by simpa using h⟩
    rw [le_div_iff₀ hd']
    calc (2 : ℚ) ^ ((n.log2 : ℤ) - d.log2 - 1) * d
        ≤ 2 ^ ((n.log2 : ℤ) - d.log2 - 1) * 2 ^ (d.log2 + 1 : ℤ) := by gcongr
      _ = 2 ^ (n.log2 : ℤ) := by
        rw [← zpow_add₀ two_ne_zero]
        congr 1
        ring
      _ ≤ n := hnlow

end Quotients

namespace Binary64

/-- The rational that a number stands for. -/
def value (x : Binary64) : ℚ := x.significand * 2 ^ x.exponent

theorem value_eq_div (x : Binary64) : x.value = x.num / x.den := by
  rw [value, two_zpow_eq_div, ← mul_div_assoc]
  simp [num, den]

theorem value_nonneg (x : Binary64) : 0 ≤ x.value := by
  rw [value]
  positivity

theorem den_pos (x : Binary64) : 0 < x.den := Nat.two_pow_pos _

/-- The number has at most 53 bits, and none below the smallest place. -/
structure Fits (x : Binary64) : Prop where
  significand_lt : x.significand < 2 ^ 53
  le_exponent : -1074 ≤ x.exponent

/-- A number is a multiple of every place up to its last one. -/
theorem value_eq_mul_zpow {x : Binary64} {e : ℤ} (h : e ≤ x.exponent) :
    x.value = ((x.significand * 2 ^ (x.exponent - e).toNat : ℕ) : ℚ) * 2 ^ e := by
  have hpow : (2 : ℚ) ^ x.exponent = 2 ^ (x.exponent - e).toNat * 2 ^ e := by
    rw [two_pow_mul_zpow]
    congr 1
    omega
  rw [value, hpow]
  push_cast
  ring

/-- A number whose last place is lower is less than the numbers of 53 bits that end at `e`. -/
theorem Fits.value_lt {x : Binary64} {e : ℤ} (hx : x.Fits) (h : x.exponent < e) :
    x.value < 2 ^ 52 * 2 ^ e := by
  have hsig : (x.significand : ℚ) < 2 ^ 53 := by exact_mod_cast hx.significand_lt
  calc x.value < 2 ^ 53 * 2 ^ x.exponent := by
        rw [value]
        gcongr
    _ ≤ 2 ^ 53 * 2 ^ (e - 1) := by
        gcongr
        · exact one_le_two
        · omega
    _ = 2 ^ 52 * 2 ^ e := by
        rw [two_pow_mul_zpow, two_pow_mul_zpow]
        congr 1
        push_cast
        ring

/-- The number is the rational `q`, correctly rounded: the nearest one, and where another is as near, the one
with the even significand. The significand is written with all 53 bits unless it ends at the smallest place. -/
structure Rounds (q : ℚ) (x : Binary64) : Prop where
  fits : x.Fits
  normal : 2 ^ 52 ≤ x.significand ∨ x.exponent = -1074
  nearest : ∀ y : Binary64, y.Fits → |x.value - q| ≤ |y.value - q|
  even : ∀ y : Binary64, y.Fits → y.value ≠ x.value → |y.value - q| = |x.value - q| →
    x.significand % 2 = 0

section OfRatio

variable {n d : ℕ}

/-- The exponent of the last of 53 bits of a fraction. -/
def lastPlace (n d : ℕ) : ℤ := max (floorLog2 n d - 52) (-1074)

/-- The fraction in units of its last place, rounded. -/
def unitsOf (n d : ℕ) : ℕ :=
  roundDiv (n * Nat.pow 2 (-lastPlace n d).toNat) (d * Nat.pow 2 (lastPlace n d).toNat)

theorem ofRatio_of_pos (hn : 0 < n) :
    ofRatio n d =
      if unitsOf n d = 2 ^ 53 then ⟨2 ^ 52, lastPlace n d + 1⟩ else ⟨unitsOf n d, lastPlace n d⟩ := by
  rw [ofRatio, if_neg hn.ne']
  rfl

theorem lt_mul_lastPlace (hn : 0 < n) (hd : 0 < d) : (n / d : ℚ) < 2 ^ 53 * 2 ^ lastPlace n d := by
  rw [two_pow_mul_zpow]
  calc (n / d : ℚ) < 2 ^ (floorLog2 n d + 1) := (floorLog2_spec hn hd).2
    _ ≤ 2 ^ ((53 : ℕ) + lastPlace n d) := by
        apply zpow_le_zpow_right₀ one_le_two
        rw [lastPlace]
        omega

theorem mul_lastPlace_le (hn : 0 < n) (hd : 0 < d) (h : lastPlace n d ≠ -1074) :
    (2 ^ 52 * 2 ^ lastPlace n d : ℚ) ≤ n / d := by
  have hplace : (52 : ℕ) + lastPlace n d = floorLog2 n d := by
    rw [lastPlace] at h ⊢
    omega
  rw [two_pow_mul_zpow, hplace]
  exact (floorLog2_spec hn hd).1

/-- The fraction that is rounded to a number of units. -/
theorem cast_units (n d : ℕ) :
    ((n * Nat.pow 2 (-lastPlace n d).toNat : ℕ) : ℚ) / (d * Nat.pow 2 (lastPlace n d).toNat : ℕ) =
      n / d / 2 ^ lastPlace n d := by
  rw [two_zpow_eq_div, div_div_div_eq]
  simp

/-- No multiple of the last place is nearer to the fraction than the rounded one, and another that is as
near is the odd neighbour of a tie. -/
theorem unitsOf_nearest (hd : 0 < d) (j : ℕ) :
    |unitsOf n d * 2 ^ lastPlace n d - (n / d : ℚ)| ≤ |j * 2 ^ lastPlace n d - (n / d : ℚ)| ∧
      (j ≠ unitsOf n d →
        |j * 2 ^ lastPlace n d - (n / d : ℚ)| = |unitsOf n d * 2 ^ lastPlace n d - (n / d : ℚ)| →
        unitsOf n d % 2 = 0) := by
  have hpos : (0 : ℚ) < 2 ^ lastPlace n d := by positivity
  have hscale (c : ℚ) : |c * 2 ^ lastPlace n d - (n / d : ℚ)| =
      |c - n / d / 2 ^ lastPlace n d| * 2 ^ lastPlace n d := by
    rw [← abs_of_pos hpos, ← abs_mul, abs_of_pos hpos, sub_mul, div_mul_cancel₀ _ hpos.ne']
  rw [hscale, hscale, mul_le_mul_iff_left₀ hpos, mul_left_inj' hpos.ne', ← cast_units]
  exact roundDiv_nearest (Nat.mul_pos hd (Nat.two_pow_pos _)) j

theorem unitsOf_le (hn : 0 < n) (hd : 0 < d) : unitsOf n d ≤ 2 ^ 53 := by
  have hpos : (0 : ℚ) < 2 ^ lastPlace n d := by positivity
  have hnear := (unitsOf_nearest (n := n) hd (2 ^ 53)).1
  rw [Nat.cast_pow, Nat.cast_ofNat, abs_of_pos (sub_pos.2 (lt_mul_lastPlace hn hd))] at hnear
  have hle : (unitsOf n d * 2 ^ lastPlace n d : ℚ) ≤ 2 ^ 53 * 2 ^ lastPlace n d := by
    linarith [le_abs_self (unitsOf n d * 2 ^ lastPlace n d - (n / d : ℚ))]
  exact_mod_cast le_of_mul_le_mul_right hle hpos

theorem le_unitsOf (hn : 0 < n) (hd : 0 < d) (h : lastPlace n d ≠ -1074) : 2 ^ 52 ≤ unitsOf n d := by
  have hpos : (0 : ℚ) < 2 ^ lastPlace n d := by positivity
  have hnear := (unitsOf_nearest (n := n) hd (2 ^ 52)).1
  rw [Nat.cast_pow, Nat.cast_ofNat, abs_of_nonpos (sub_nonpos.2 (mul_lastPlace_le hn hd h))] at hnear
  have hle : (2 ^ 52 * 2 ^ lastPlace n d : ℚ) ≤ unitsOf n d * 2 ^ lastPlace n d := by
    linarith [neg_abs_le (unitsOf n d * 2 ^ lastPlace n d - (n / d : ℚ))]
  exact_mod_cast le_of_mul_le_mul_right hle hpos

/-- Carrying into a 54th bit does not change the value. -/
theorem value_ofRatio (hn : 0 < n) : (ofRatio n d).value = unitsOf n d * 2 ^ lastPlace n d := by
  rw [ofRatio_of_pos hn]
  split_ifs with h
  · rw [value, h, zpow_add_one₀ two_ne_zero]
    push_cast
    ring
  · rfl

/-- A number whose last place is lower than that of the fraction is less than `2 ^ 52` units. These are at
most the fraction, so the number is farther from it. -/
theorem unitsOf_lt_of_exponent_lt {y : Binary64} (hn : 0 < n) (hd : 0 < d) (hy : y.Fits)
    (h : y.exponent < lastPlace n d) :
    |unitsOf n d * 2 ^ lastPlace n d - (n / d : ℚ)| < |y.value - n / d| := by
  have hplace : lastPlace n d ≠ -1074 := by
    have := hy.le_exponent
    omega
  have hend := mul_lastPlace_le hn hd hplace
  have hbelow := hy.value_lt h
  calc |unitsOf n d * 2 ^ lastPlace n d - (n / d : ℚ)|
      ≤ |2 ^ 52 * 2 ^ lastPlace n d - (n / d : ℚ)| := by
        have hnear := (unitsOf_nearest (n := n) hd (2 ^ 52)).1
        exact_mod_cast hnear
    _ = n / d - 2 ^ 52 * 2 ^ lastPlace n d := by rw [abs_of_nonpos (by linarith), neg_sub]
    _ < n / d - y.value := by linarith
    _ = |y.value - n / d| := by rw [abs_of_neg (by linarith), neg_sub]

theorem rounds_zero : Rounds 0 zero := by
  have hvalue : zero.value = 0 := by simp [value, zero]
  exact ⟨⟨by simp [zero], by simp [zero]⟩, .inr rfl, by simp [hvalue], fun _ _ _ _ => rfl⟩

theorem rounds_ofRatio (n : ℕ) (hd : 0 < d) : Rounds (n / d) (ofRatio n d) := by
  obtain rfl | hn := n.eq_zero_or_pos
  · simpa [ofRatio] using rounds_zero
  have hle := unitsOf_le hn hd
  have hplace : -1074 ≤ lastPlace n d := le_max_right _ _
  refine ⟨?fits, ?normal, ?nearest, ?even⟩
  case fits =>
    rw [ofRatio_of_pos hn]
    split_ifs with h
    · exact ⟨by norm_num, by dsimp only; omega⟩
    · exact ⟨by dsimp only; omega, hplace⟩
  case normal =>
    rw [ofRatio_of_pos hn]
    split_ifs with h
    · exact .inl le_rfl
    · by_cases hmin : lastPlace n d = -1074
      · exact .inr hmin
      · exact .inl (le_unitsOf hn hd hmin)
  case nearest =>
    intro y hy
    rw [value_ofRatio hn]
    obtain hlow | hgrid := lt_or_ge y.exponent (lastPlace n d)
    · exact (unitsOf_lt_of_exponent_lt hn hd hy hlow).le
    · rw [value_eq_mul_zpow hgrid]
      exact (unitsOf_nearest hd _).1
  case even =>
    intro y hy hne htie
    rw [value_ofRatio hn] at hne htie
    obtain hlow | hgrid := lt_or_ge y.exponent (lastPlace n d)
    · exact absurd htie (unitsOf_lt_of_exponent_lt hn hd hy hlow).ne'
    · have heven : unitsOf n d % 2 = 0 := by
        rw [value_eq_mul_zpow hgrid] at hne htie
        exact (unitsOf_nearest (n := n) hd _).2 (fun heq => hne (by rw [heq])) htie
      rw [ofRatio_of_pos hn]
      split_ifs with h
      · norm_num
      · exact heven

theorem rounds_ofNat (n : ℕ) : Rounds n (ofNat n) := by
  simpa [ofNat] using rounds_ofRatio n one_pos

theorem rounds_add (x y : Binary64) : Rounds (x.value + y.value) (x.add y) := by
  have hx : (x.den : ℚ) ≠ 0 := by exact_mod_cast x.den_pos.ne'
  have hy : (y.den : ℚ) ≠ 0 := by exact_mod_cast y.den_pos.ne'
  have h := rounds_ofRatio (x.num * y.den + y.num * x.den) (Nat.mul_pos x.den_pos y.den_pos)
  rw [value_eq_div, value_eq_div, div_add_div _ _ hx hy, mul_comm (x.den : ℚ) y.num]
  exact_mod_cast h

theorem rounds_mul (x y : Binary64) : Rounds (x.value * y.value) (x.mul y) := by
  have h := rounds_ofRatio (x.num * y.num) (Nat.mul_pos x.den_pos y.den_pos)
  rw [value_eq_div, value_eq_div, div_mul_div_comm]
  exact_mod_cast h

end OfRatio

theorem roundHalfUp_eq_floor (x : Binary64) : x.roundHalfUp = ⌊x.value + 1 / 2⌋₊ := by
  have hden : (x.den : ℚ) ≠ 0 := by exact_mod_cast x.den_pos.ne'
  have hsum : x.value + 1 / 2 = (2 * x.num + x.den : ℕ) / (2 * x.den : ℕ) := by
    rw [value_eq_div, div_add_div _ _ hden two_ne_zero]
    push_cast
    ring
  rw [hsum, Nat.floor_div_eq_div, roundHalfUp]

theorem roundHalfUp_mono {x y : Binary64} (h : x.value ≤ y.value) : x.roundHalfUp ≤ y.roundHalfUp := by
  rw [roundHalfUp_eq_floor, roundHalfUp_eq_floor]
  exact Nat.floor_le_floor (by linarith)

namespace Rounds

variable {q r : ℚ} {x y : Binary64}

/-- Rounding does not go past a number that fits. -/
theorem le_value (h : Rounds q x) (hy : y.Fits) (hle : y.value ≤ q) : y.value ≤ x.value := by
  have hnear := h.nearest y hy
  rw [abs_of_nonpos (by linarith : y.value - q ≤ 0)] at hnear
  linarith [neg_abs_le (x.value - q)]

theorem half_le_value {j : ℕ} (h : Rounds q x) (hj : j < 2 ^ 53) (hle : (j / 2 : ℚ) ≤ q) :
    (j / 2 : ℚ) ≤ x.value := by
  have hvalue : value ⟨j, -1⟩ = j / 2 := by simp [value, div_eq_mul_inv]
  rw [← hvalue] at hle ⊢
  exact h.le_value ⟨hj, by norm_num⟩ hle

/-- A number that fits stays as it is. -/
theorem value_eq (h : Rounds y.value x) (hy : y.Fits) : x.value = y.value := by
  have hnear := h.nearest y hy
  rw [sub_self, abs_zero, abs_nonpos_iff] at hnear
  exact sub_eq_zero.1 hnear

/-- A greater number does not reach further down than the rounded one. -/
theorem exponent_le (h : Rounds q x) (hy : y.Fits) (hlt : x.value < y.value) :
    x.exponent ≤ y.exponent := by
  by_contra! hlow
  have hnormal : 2 ^ 52 ≤ x.significand := by
    have := hy.le_exponent
    exact h.normal.resolve_right (by omega)
  have hbelow := hy.value_lt hlow
  have hend : 2 ^ 52 * 2 ^ x.exponent ≤ x.value := by
    rw [value]
    gcongr
    exact_mod_cast hnormal
  linarith

/-- Two numbers that are both the nearest have no number between them. So they are neighbours in the last
place of the smaller one, where only one of two neighbours is even. -/
theorem not_value_lt (hx : Rounds q x) (hy : Rounds q y) : ¬ x.value < y.value := by
  intro hlt
  have htie : |y.value - q| = |x.value - q| :=
    le_antisymm (hy.nearest x hx.fits) (hx.nearest y hy.fits)
  have hmid : y.value - q = q - x.value := by
    obtain h | h := abs_eq_abs.1 htie <;> linarith
  have hxeven := hx.even y hy.fits hlt.ne' htie
  have hyeven := hy.even x hx.fits hlt.ne htie.symm
  let next : Binary64 := ⟨x.significand + 1, x.exponent⟩
  have hnext : next.value = x.value + 2 ^ x.exponent := by
    simp only [next, value]
    push_cast
    ring
  have hpos : (0 : ℚ) < 2 ^ x.exponent := by positivity
  have hle : y.value ≤ next.value := by
    have hlast : x.significand + 1 < 2 ^ 53 := by
      have := hx.fits.significand_lt
      omega
    have hnear := hx.nearest next ⟨hlast, hx.fits.le_exponent⟩
    by_contra! hbetween
    rw [abs_of_nonpos (by linarith : x.value - q ≤ 0)] at hnear
    obtain h | h := le_abs'.1 hnear <;> linarith
  have hmultiple := value_eq_mul_zpow (hx.exponent_le hy.fits hlt)
  rw [hmultiple] at hlt hle
  have hlt' := lt_of_mul_lt_mul_right hlt hpos.le
  have hle' : _ ≤ ((x.significand + 1 : ℕ) : ℚ) := le_of_mul_le_mul_right hle hpos
  norm_cast at hlt' hle'
  have heq : y.significand * 2 ^ (y.exponent - x.exponent).toNat = x.significand + 1 := by omega
  have hdvd : 2 ∣ x.significand + 1 := heq ▸ (Nat.dvd_of_mod_eq_zero hyeven).mul_right _
  omega

theorem value_unique (hx : Rounds q x) (hy : Rounds q y) : x.value = y.value :=
  le_antisymm (not_lt.1 (hy.not_value_lt hx)) (not_lt.1 (hx.not_value_lt hy))

theorem value_le_value (hx : Rounds q x) (hy : Rounds r y) (h : q ≤ r) : x.value ≤ y.value := by
  obtain rfl | hlt := h.eq_or_lt
  · exact (hx.value_unique hy).le
  -- If the order changed, the middle of the two numbers would be at most `q` and at least `r`.
  by_contra! hchanged
  have hq : x.value + y.value ≤ 2 * q := by
    have hnear := sq_le_sq.2 (hx.nearest y hy.fits)
    nlinarith
  have hr : 2 * r ≤ x.value + y.value := by
    have hnear := sq_le_sq.2 (hy.nearest x hx.fits)
    nlinarith
  linarith

/-- A rational below `2 ^ 53` units of a place is changed by less than one unit of it. -/
theorem abs_value_sub_lt (h : Rounds q x) (hq : 0 ≤ q) {k : ℤ} (hk : -1074 ≤ k)
    (hlt : q < 2 ^ 53 * 2 ^ k) : |x.value - q| < 2 ^ k := by
  have hpos : (0 : ℚ) < 2 ^ k := by positivity
  have hfloor : ⌊q / 2 ^ k⌋₊ < 2 ^ 53 := by
    rw [Nat.floor_lt (by positivity), div_lt_iff₀ hpos]
    exact_mod_cast hlt
  calc |x.value - q| ≤ |value ⟨⌊q / 2 ^ k⌋₊, k⟩ - q| := h.nearest _ ⟨hfloor, hk⟩
    _ = q - ⌊q / 2 ^ k⌋₊ * 2 ^ k := by
        have hle := (le_div_iff₀ hpos).1 (Nat.floor_le (by positivity : 0 ≤ q / 2 ^ k))
        rw [value, abs_of_nonpos (by linarith), neg_sub]
    _ < 2 ^ k := by
        have hlt := (div_lt_iff₀ hpos).1 (Nat.lt_floor_add_one (q / 2 ^ k))
        linarith

end Rounds

theorem value_ofNat {n : ℕ} (h : n < 2 ^ 53) : (ofNat n).value = n := by
  have hvalue : value ⟨n, 0⟩ = n := by simp [value]
  rw [← hvalue]
  exact Rounds.value_eq (hvalue ▸ rounds_ofNat n) ⟨h, by norm_num⟩

end Binary64

end CallTrace
