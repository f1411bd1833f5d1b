import CallTrace.Proofs.Rounding
import CallTrace.Trace.Basic

/-!
How far a long body is looked at.

The last statement is the rounded value of `9 + 0.002 * last`, computed with binary64 numbers. The factor
is not a binary64 number, so the product and the sum are only near their exact values. The rounded value is
still right for every body of up to `2 ^ 48` statements (`roundHalfUp_reach`). From below this does not rest
on how near they are: the factor is rounded up, and the product and the sum are never rounded past a half, so
that exact halves go up as they should. From above the exact value, a multiple of one in five hundred, stays
away from the next half by more than all errors together.
-/
namespace CallTrace

open Binary64

/-- Below `2 ^ 40` the place of `2 ^ -13` is among the 53. -/
theorem Binary64.Rounds.value_lt_add {q : ℚ} {x : Binary64} (h : Rounds q x) (hq : 0 ≤ q)
    (hlt : q < 2 ^ 40) : x.value < q + 1 / 2 ^ 13 := by
  have hplace : (2 : ℚ) ^ (-13 : ℤ) = 1 / 2 ^ 13 := by norm_num
  have herror := h.abs_value_sub_lt (k := -13) hq (by norm_num) (by rw [hplace]; linarith)
  rw [hplace] at herror
  linarith [le_abs_self (x.value - q)]

/-- One in five hundred is rounded up. -/
theorem growth_bounds : 1 / 500 ≤ growth.value ∧ growth.value ≤ 1 / 500 + 1 / 2 ^ 61 := by
  have hgrowth : growth = ⟨4611686018427388, -61⟩ := by decide +kernel
  rw [hgrowth, value]
  norm_num

namespace Limit

/-- What a long body adds to the statements that are always looked at. -/
def share (last : ℕ) : Binary64 := (ofNat last).mul growth

/-- How far a long body is looked at, before it is rounded to a whole number. -/
def reach (last : ℕ) : Binary64 := (ofNat wholeLast).add (share last)

theorem rounds_share (last : ℕ) : Rounds ((ofNat last).value * growth.value) (share last) :=
  rounds_mul _ _

theorem rounds_reach (last : ℕ) : Rounds (9 + (share last).value) (reach last) := by
  have hwhole : (ofNat wholeLast).value = 9 := by
    rw [value_ofNat (by decide)]
    rfl
  have h := rounds_add (ofNat wholeLast) (share last)
  rwa [hwhole] at h

theorem reach_mono {l m : ℕ} (h : l ≤ m) : (reach l).value ≤ (reach m).value := by
  have hlast : (ofNat l).value ≤ (ofNat m).value :=
    (rounds_ofNat l).value_le_value (rounds_ofNat m) (by exact_mod_cast h)
  have hshare : (share l).value ≤ (share m).value :=
    (rounds_share l).value_le_value (rounds_share m)
      (mul_le_mul_of_nonneg_right hlast growth.value_nonneg)
  exact (rounds_reach l).value_le_value (rounds_reach m) (by linarith)

theorem nine_le_reach (last : ℕ) : 9 ≤ (reach last).value := by
  have hshare := (share last).value_nonneg
  have h := (rounds_reach last).half_le_value (j := 18) (by norm_num) (by norm_num; linarith)
  norm_num at h
  exact h

theorem nine_le_roundHalfUp_reach (last : ℕ) : 9 ≤ (reach last).roundHalfUp := by
  rw [roundHalfUp_eq_floor]
  exact Nat.le_floor (by norm_num; linarith [nine_le_reach last])

section Exact

variable {last : ℕ}

/-- A half that the exact value reaches is also reached by the computed one. -/
theorem half_le_reach (h : last < 2 ^ 48) {k : ℕ} (hk : 1000 * k ≤ 2 * last + 9500) :
    (k - 1 / 2 : ℚ) ≤ (reach last).value := by
  -- Less the nine of the sum, the half is `(2 * k - 19) / 2`, or it is below zero.
  have hshare : ((2 * k - 19 : ℕ) / 2 : ℚ) ≤ (share last).value := by
    apply (rounds_share last).half_le_value (by omega)
    calc ((2 * k - 19 : ℕ) / 2 : ℚ) ≤ last * (1 / 500) := by
          have hexact : ((2 * k - 19 : ℕ) * 250 : ℚ) ≤ last := by
            exact_mod_cast (by omega : (2 * k - 19) * 250 ≤ last)
          linarith
      _ ≤ (ofNat last).value * growth.value := by
          rw [value_ofNat (by omega)]
          gcongr
          exact growth_bounds.1
  have hsum : ((2 * k - 1 : ℕ) / 2 : ℚ) ≤ 9 + (share last).value := by
    have hnine : ((2 * k - 1 : ℕ) : ℚ) ≤ 18 + (2 * k - 19 : ℕ) := by
      exact_mod_cast (by omega : 2 * k - 1 ≤ 18 + (2 * k - 19))
    linarith
  have hreach := (rounds_reach last).half_le_value (by omega) hsum
  have hhalf : (2 * k : ℚ) ≤ (2 * k - 1 : ℕ) + 1 := by
    exact_mod_cast (by omega : 2 * k ≤ 2 * k - 1 + 1)
  linarith

theorem share_lt (h : last < 2 ^ 48) : (share last).value < last / 500 + 1 / 2 ^ 12 := by
  have hlast : (last : ℚ) < 2 ^ 48 := by exact_mod_cast h
  have hproduct : (ofNat last).value * growth.value ≤ last / 500 + 1 / 2 ^ 13 := by
    calc (ofNat last).value * growth.value ≤ last * (1 / 500 + 1 / 2 ^ 61) := by
          rw [value_ofNat (by omega)]
          gcongr
          exact growth_bounds.2
      _ ≤ last / 500 + 1 / 2 ^ 13 := by linarith
  have hnonneg := mul_nonneg (ofNat last).value_nonneg growth.value_nonneg
  have herror := (rounds_share last).value_lt_add hnonneg (by linarith)
  linarith

/-- The computed value is less than one in five hundred above the exact one. -/
theorem reach_lt (h : last < 2 ^ 48) : (reach last).value < 9 + (last + 1) / 500 := by
  have hlast : (last : ℚ) < 2 ^ 48 := by exact_mod_cast h
  have hshare := share_lt h
  have hnonneg := (share last).value_nonneg
  have herror := (rounds_reach last).value_lt_add (by linarith) (by linarith)
  linarith

/-- The exact value is a multiple of one in five hundred. So the next half is at least as far above it. -/
theorem roundHalfUp_reach (h : last < 2 ^ 48) :
    (reach last).roundHalfUp = (2 * last + 9500) / 1000 := by
  rw [roundHalfUp_eq_floor, Nat.floor_eq_iff (by linarith [nine_le_reach last])]
  constructor
  · linarith [half_le_reach h (Nat.mul_div_le (2 * last + 9500) 1000)]
  · have hexact : (2 * last + 9502 : ℚ) ≤ 1000 * ((2 * last + 9500) / 1000 : ℕ) + 1000 := by
      exact_mod_cast (by omega : 2 * last + 9502 ≤ 1000 * ((2 * last + 9500) / 1000) + 1000)
    linarith [reach_lt h]

end Exact

end Limit

open Limit

theorem lastLooked_of_short {n : ℕ} (h : n ≤ 10) : lastLooked n = n - 1 := by
  have hwhole : n - 1 ≤ wholeLast := by
    simp only [wholeLast]
    omega
  simp [lastLooked, hwhole]

theorem lastLooked_of_long {n : ℕ} (h : 10 < n) :
    lastLooked n = min (reach (n - 1)).roundHalfUp (n - 1) := by
  have hwhole : ¬ n - 1 ≤ wholeLast := by
    simp only [wholeLast]
    omega
  simp [lastLooked, hwhole, reach, share]

theorem lastLooked_lt {n : ℕ} (h : 1 ≤ n) : lastLooked n < n := by
  have hle : lastLooked n ≤ n - 1 := by
    obtain hshort | hlong := le_or_gt n 10
    · exact (lastLooked_of_short hshort).le
    · rw [lastLooked_of_long hlong]
      exact min_le_right _ _
  omega

theorem nine_le_lastLooked {n : ℕ} (h : 10 < n) : 9 ≤ lastLooked n := by
  rw [lastLooked_of_long h]
  exact le_min (nine_le_roundHalfUp_reach _) (by omega)

theorem monotone_lastLooked : Monotone lastLooked := by
  intro m n h
  obtain hshort | hlong := le_or_gt n 10
  · rw [lastLooked_of_short hshort, lastLooked_of_short (h.trans hshort)]
    omega
  obtain hshort' | hlong' := le_or_gt m 10
  · have hnine := nine_le_lastLooked hlong
    rw [lastLooked_of_short hshort']
    omega
  · rw [lastLooked_of_long hlong, lastLooked_of_long hlong']
    have hlast : m - 1 ≤ n - 1 := Nat.sub_le_sub_right h 1
    exact min_le_min (roundHalfUp_mono (reach_mono hlast)) hlast

theorem lastLooked_eq_div {n : ℕ} (h : 10 < n) (hn : n ≤ 2 ^ 48) :
    lastLooked n = (2 * (n - 1) + 9500) / 1000 := by
  rw [lastLooked_of_long h, roundHalfUp_reach (by omega)]
  omega

/-- Of a body that is not empty, the last statement that is looked at exists, and so do all before it. Up
to ten statements it is the last one, and up to `2 ^ 48` statements it is the nearest whole number to
`9 + 0.002 * (n - 1)`, a half going up. It never moves back as a body grows, and of more than ten statements the
first ten are always looked at. -/
theorem lastLooked_eq_floor :
    (∀ n, 1 ≤ n → lastLooked n < n) ∧
      (∀ body : List Ref, body ≠ [] →
        (Arena.lookedAt body).length = lastLooked body.length + 1) ∧
      (∀ n, 1 ≤ n → n ≤ 2 ^ 48 →
        lastLooked n = if n ≤ 10 then n - 1 else (2 * (n - 1) + 9500) / 1000) ∧
      Monotone lastLooked ∧
      ∀ n, 10 < n → 9 ≤ lastLooked n := by
  refine ⟨fun n => lastLooked_lt, fun body hbody => ?_, fun n _ hn => ?_, monotone_lastLooked,
    fun n => nine_le_lastLooked⟩
  · have hlt := lastLooked_lt (List.length_pos_iff.2 hbody)
    rw [Arena.lookedAt, List.length_take]
    omega
  · split_ifs with hshort
    · exact lastLooked_of_short hshort
    · exact lastLooked_eq_div (not_le.1 hshort) hn

/-- The exact value is a half for the last of 251 statements and, near the end of the range, of
281474976710251. -/
theorem lastLooked_eq_floor_halves :
    lastLooked 250 = 9 ∧ lastLooked 251 = 10 ∧
      lastLooked 281474976710250 = 562949953429 ∧ lastLooked 281474976710251 = 562949953430 ∧
      lastLooked (2 ^ 64 - 1) < 2 ^ 64 - 1 ∧ 9 ≤ lastLooked (2 ^ 64 - 1) ∧
      lastLooked 251 ≤ lastLooked (2 ^ 64 - 1) ∧
      (Arena.lookedAt (List.replicate 251 none)).length = 11 := by
  obtain ⟨hlt, hlength, hexact, hmono, hnine⟩ := lastLooked_eq_floor
  have hhalf : lastLooked 251 = 10 := hexact 251 (by norm_num) (by norm_num)
  refine ⟨hexact 250 (by norm_num) (by norm_num), hhalf, hexact _ (by norm_num) (by norm_num),
    hexact _ (by norm_num) (by norm_num), hlt _ (by norm_num), hnine _ (by norm_num), hmono (by norm_num), ?_⟩
  have hbody : List.replicate 251 (none : Ref) ≠ [] := List.cons_ne_nil _ _
  rw [hlength _ hbody, List.length_replicate, hhalf]

end CallTrace
