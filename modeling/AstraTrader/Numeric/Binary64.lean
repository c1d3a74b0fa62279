import AstraTrader.Numeric.Rounding
import Mathlib.Algebra.Order.Field.Basic
import Mathlib.Tactic.Linarith
import Mathlib.Tactic.NormNum

/-! Numbers of 53 significant bits: the finite ones by their value, and how a result is rounded to
them. -/

namespace Decimal

variable {x : ℚ} {n : ℤ}

theorem le_roundHalfEven (h : (n : ℚ) ≤ x) : n ≤ roundHalfEven x := by
  have hfloor : n ≤ ⌊x⌋ := Int.le_floor.mpr h
  unfold roundHalfEven
  dsimp only
  split_ifs <;> omega

theorem roundHalfEven_le (h : x ≤ n) : roundHalfEven x ≤ n := by
  have hfloor : ⌊x⌋ ≤ n := Int.cast_le.mp ((Int.floor_le x).trans h)
  unfold roundHalfEven
  dsimp only
  have hup : ¬ x - ⌊x⌋ < 1 / 2 → ⌊x⌋ + 1 ≤ n := by
    intro hfraction
    have hlt : (⌊x⌋ : ℚ) < n := by linarith
    exact Int.cast_lt.mp hlt
  split_ifs with h1
  · exact hfloor
  · exact hup h1
  · exact hfloor
  · exact hup h1

theorem roundHalfEven_intCast (n : ℤ) : roundHalfEven n = n :=
  le_antisymm (roundHalfEven_le le_rfl) (le_roundHalfEven le_rfl)

end Decimal

/-- A double. The finite ones are those whose value `Binary64.round` leaves alone. -/
inductive Binary64
  | finite (value : ℚ)
  | infinite (negative : Bool)
  | nan
  deriving DecidableEq

namespace Binary64

/-- The exponent of the last place: of 53 bits, or that of the subnormal numbers. -/
def lastPlace (x : ℚ) : ℤ := max (Int.log 2 |x| - 52) (-1074)

/-- The nearest double, if the result is not too large for one. -/
def round (x : ℚ) : ℚ :=
  if x = 0 then 0
  else Decimal.roundHalfEven (x / 2 ^ lastPlace x) * 2 ^ lastPlace x

def ofInt (n : ℤ) : Binary64 := .finite (round n)

section Bounds
variable {x : ℚ}

theorem lastPlace_of_one_le (h : 1 ≤ |x|) : lastPlace x = Int.log 2 |x| - 52 := by
  have hlog : 0 ≤ Int.log 2 |x| := by
    have hmono := Int.log_mono_right (b := 2) one_pos h
    rwa [Int.log_one_right] at hmono
  exact max_eq_left (by omega)

theorem lastPlace_pos (x : ℚ) : (0 : ℚ) < 2 ^ lastPlace x := zpow_pos (by norm_num) _

/-- Of a number that is not small, 52 bits stand before the last place. -/
theorem pow_mul_lastPlace (h : 1 ≤ |x|) :
    ((2 ^ 52 : ℤ) : ℚ) * 2 ^ lastPlace x = 2 ^ Int.log 2 |x| := by
  rw [lastPlace_of_one_le h, zpow_sub₀ (by norm_num)]
  norm_num
  ring

theorem pow_le_div_lastPlace (h : 1 ≤ |x|) : ((2 ^ 52 : ℤ) : ℚ) ≤ |x| / 2 ^ lastPlace x := by
  rw [le_div_iff₀ (lastPlace_pos x), pow_mul_lastPlace h]
  exact_mod_cast Int.zpow_log_le_self (b := 2) (by norm_num) (zero_lt_one.trans_le h)

theorem le_round (h : 1 ≤ x) : (2 : ℚ) ^ Int.log 2 x ≤ round x := by
  have habs : |x| = x := abs_of_pos (zero_lt_one.trans_le h)
  have hone : 1 ≤ |x| := habs.symm ▸ h
  have hdiv := pow_le_div_lastPlace hone
  have hpow := pow_mul_lastPlace hone
  rw [habs] at hdiv hpow
  rw [round, if_neg (zero_lt_one.trans_le h).ne', ← hpow]
  refine mul_le_mul_of_nonneg_right ?_ (lastPlace_pos x).le
  exact_mod_cast Decimal.le_roundHalfEven hdiv

theorem round_le (h : x ≤ -1) : round x ≤ -(2 : ℚ) ^ Int.log 2 |x| := by
  have hneg : x < 0 := h.trans_lt (by norm_num)
  have habs : |x| = -x := abs_of_neg hneg
  have hone : 1 ≤ |x| := by rw [habs]; linarith
  have hdiv := pow_le_div_lastPlace hone
  have hpow := pow_mul_lastPlace hone
  rw [habs, neg_div, le_neg, ← Int.cast_neg] at hdiv
  rw [round, if_neg hneg.ne, ← hpow, ← neg_mul, ← Int.cast_neg]
  refine mul_le_mul_of_nonneg_right ?_ (lastPlace_pos x).le
  exact_mod_cast Decimal.roundHalfEven_le hdiv

theorem round_zero : round 0 = 0 := if_pos rfl

theorem round_one : round 1 = 1 := by
  have hlast : lastPlace 1 = -52 := by
    rw [lastPlace_of_one_le (by norm_num), abs_one, Int.log_one_right]
    norm_num
  have hplaces : (1 : ℚ) / 2 ^ (-52 : ℤ) = ((2 ^ 52 : ℤ) : ℚ) := by norm_num
  rw [round, if_neg one_ne_zero, hlast, hplaces, Decimal.roundHalfEven_intCast]
  norm_num

theorem round_intCast_mem_unit (n : ℤ) :
    (0 ≤ round n ∧ round n ≤ 1) ↔ 0 ≤ n ∧ n ≤ 1 := by
  rcases lt_or_ge n 0 with hneg | hnonneg
  · have hle : (n : ℚ) ≤ -1 := by exact_mod_cast Int.le_sub_one_of_lt hneg
    have hround : round n < 0 := (round_le hle).trans_lt (neg_neg_of_pos (zpow_pos (by norm_num) _))
    exact iff_of_false (fun h => absurd h.1 (not_le.mpr hround)) fun h => by omega
  · rcases le_or_gt n 1 with hle | hgt
    · obtain rfl | rfl : n = 0 ∨ n = 1 := by omega
      · rw [Int.cast_zero, round_zero]
        norm_num
      · rw [Int.cast_one, round_one]
        norm_num
    · have htwo : (2 : ℚ) ≤ n := by exact_mod_cast hgt
      have hlog : 1 ≤ Int.log 2 (n : ℚ) := by
        have hmono := Int.log_mono_right (b := 2) two_pos htwo
        have hself : Int.log 2 (2 : ℚ) = 1 := by
          exact_mod_cast Int.log_zpow (R := ℚ) (b := 2) (by norm_num) 1
        rwa [hself] at hmono
      have hpow : (2 : ℚ) ^ (1 : ℤ) ≤ 2 ^ Int.log 2 (n : ℚ) :=
        zpow_le_zpow_right₀ (by norm_num) hlog
      have hround := hpow.trans (le_round (by linarith))
      rw [zpow_one] at hround
      exact iff_of_false (fun h => by linarith [h.2]) fun h => by omega

end Bounds
end Binary64
