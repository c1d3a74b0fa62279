import Mathlib.Algebra.Order.Floor.Ring
import Mathlib.Algebra.Order.Archimedean.Basic
import Mathlib.Data.Rat.Floor
import Mathlib.Tactic.FieldSimp
import Mathlib.Tactic.Positivity
import Mathlib.Tactic.Linarith
import Mathlib.Tactic.LinearCombination

/-! Moving the decimal point of an integer, rounding down. -/

namespace Decimal

/-- `x * 10 ^ z`, rounded down. -/
def shift (z x : ℤ) : ℤ := ⌊(x : ℚ) * (10 : ℚ) ^ z⌋

theorem shift_of_nonneg {z : ℤ} (hz : 0 ≤ z) (x : ℤ) : shift z x = x * 10 ^ z.toNat := by
  obtain ⟨k, rfl⟩ := Int.eq_ofNat_of_zero_le hz
  rw [shift, zpow_natCast, Int.toNat_natCast]
  exact_mod_cast Int.floor_intCast (R := ℚ) (x * 10 ^ k)

theorem shift_of_nonpos {z : ℤ} (hz : z ≤ 0) (x : ℤ) : shift z x = x / 10 ^ (-z).toNat := by
  obtain ⟨k, hk⟩ := Int.eq_ofNat_of_zero_le (neg_nonneg.mpr hz)
  obtain rfl : z = -(k : ℤ) := by omega
  rw [shift, zpow_neg, zpow_natCast, neg_neg, Int.toNat_natCast, ← div_eq_mul_inv]
  exact_mod_cast Rat.floor_intCast_div_natCast x (10 ^ k)

theorem shift_mono (z : ℤ) {x y : ℤ} (h : x ≤ y) : shift z x ≤ shift z y := by
  have hc : (x : ℚ) ≤ y := by exact_mod_cast h
  exact Int.floor_le_floor (mul_le_mul_of_nonneg_right hc (zpow_nonneg (by norm_num) z))

@[simp] theorem shift_zero (z : ℤ) : shift z 0 = 0 := by simp [shift]

theorem shift_nonneg (z : ℤ) {x : ℤ} (h : 0 ≤ x) : 0 ≤ shift z x := by
  simpa using shift_mono z h

theorem add_le_shift (z x y : ℤ) : shift z x + shift z y ≤ shift z (x + y) := by
  have h := Int.le_floor_add ((x : ℚ) * 10 ^ z) ((y : ℚ) * 10 ^ z)
  simpa only [shift, Int.cast_add, add_mul] using h

theorem shift_add_le (z x y : ℤ) : shift z (x + y) ≤ shift z x + shift z y + 1 := by
  have h := Int.le_floor_add_floor ((x : ℚ) * 10 ^ z) ((y : ℚ) * 10 ^ z)
  simp only [shift, Int.cast_add, add_mul]
  omega

theorem shift_add_of_nonneg {z : ℤ} (hz : 0 ≤ z) (x y : ℤ) :
    shift z (x + y) = shift z x + shift z y := by
  simp only [shift_of_nonneg hz, add_mul]

/-- `x * 10 ^ z`, rounded towards zero. -/
def truncate (z x : ℤ) : ℤ := x.sign * shift z |x|

@[simp] theorem truncate_zero (z : ℤ) : truncate z 0 = 0 := by simp [truncate]

@[simp] theorem truncate_neg (z x : ℤ) : truncate z (-x) = -truncate z x := by
  rw [truncate, truncate, Int.sign_neg, abs_neg, neg_mul]

theorem truncate_of_nonneg (z : ℤ) {x : ℤ} (h : 0 ≤ x) : truncate z x = shift z x := by
  rcases h.eq_or_lt with rfl | hpos
  · simp
  · rw [truncate, Int.sign_eq_one_of_pos hpos, one_mul, abs_of_pos hpos]

theorem truncate_add_of_nonneg (z : ℤ) {x y : ℤ} (hx : 0 ≤ x) (hy : 0 ≤ y) :
    truncate z x + truncate z y ≤ truncate z (x + y) ∧
      truncate z (x + y) ≤ truncate z x + truncate z y + 1 := by
  rw [truncate_of_nonneg z hx, truncate_of_nonneg z hy, truncate_of_nonneg z (add_nonneg hx hy)]
  exact ⟨add_le_shift z x y, shift_add_le z x y⟩

theorem abs_truncate_add_le (z x y : ℤ) :
    |truncate z (x + y) - truncate z x - truncate z y| ≤ 1 := by
  -- two of `x`, `y` and `-(x + y)` lie on one side, and the third is their sum the other way
  have hside : ∀ {a b c : ℤ}, 0 ≤ a → 0 ≤ b → a + b = c →
      truncate z a + truncate z b ≤ truncate z c ∧
        truncate z c ≤ truncate z a + truncate z b + 1 := by
    rintro a b c ha hb rfl
    exact truncate_add_of_nonneg z ha hb
  rw [abs_le]
  rcases le_total 0 x with hx | hx <;> rcases le_total 0 y with hy | hy
  · have h := hside hx hy rfl
    omega
  · rcases le_total 0 (x + y) with hs | hs
    · have h := hside hs (neg_nonneg.mpr hy) (add_neg_cancel_right x y)
      rw [truncate_neg] at h
      omega
    · have h := hside hx (neg_nonneg.mpr hs) (show x + -(x + y) = -y by ring)
      rw [truncate_neg, truncate_neg] at h
      omega
  · rcases le_total 0 (x + y) with hs | hs
    · have h := hside hs (neg_nonneg.mpr hx) (show x + y + -x = y by ring)
      rw [truncate_neg] at h
      omega
    · have h := hside hy (neg_nonneg.mpr hs) (show y + -(x + y) = -x by ring)
      rw [truncate_neg, truncate_neg] at h
      omega
  · have h := hside (neg_nonneg.mpr hx) (neg_nonneg.mpr hy) (neg_add x y).symm
    rw [truncate_neg, truncate_neg, truncate_neg] at h
    omega

theorem truncate_of_scale_nonneg {z : ℤ} (hz : 0 ≤ z) (x : ℤ) :
    truncate z x = x * 10 ^ z.toNat := by
  rw [truncate, shift_of_nonneg hz, ← mul_assoc, Int.sign_mul_abs]

theorem truncate_add_of_scale_nonneg {z : ℤ} (hz : 0 ≤ z) (x y : ℤ) :
    truncate z (x + y) = truncate z x + truncate z y := by
  simp only [truncate_of_scale_nonneg hz, add_mul]

theorem ten_pow_pos (k : ℕ) : (0 : ℤ) < 10 ^ k := by positivity

theorem tdiv_tdiv (a : ℤ) {b c : ℤ} (hb : 0 ≤ b) : (a.tdiv b).tdiv c = a.tdiv (b * c) := by
  have hnn (x : ℤ) (hx : 0 ≤ x) : (x.tdiv b).tdiv c = x.tdiv (b * c) := by
    rw [Int.tdiv_eq_ediv_of_nonneg hx, Int.tdiv_eq_ediv_of_nonneg (Int.ediv_nonneg hx hb),
      Int.tdiv_eq_ediv_of_nonneg hx, Int.ediv_ediv_of_nonneg hb]
  rcases le_total 0 a with ha | ha
  · exact hnn a ha
  · have h := hnn (-a) (by omega)
    rwa [Int.neg_tdiv, Int.neg_tdiv, Int.neg_tdiv, neg_inj] at h

/-- Shifting right and back up to a strict bound: a quotient that stays below `b`
leaves at least one whole unit on the way back. -/
theorem one_le_shift_of_shift_neg_lt {z x p : ℤ} (hp : 1 ≤ p) {c : ℤ} (hc : 0 < c) (hx : 0 < x)
    (h : shift (-z) c < c * x) : 1 ≤ shift z (x * p) := by
  rcases le_total 0 z with hz | hz
  · rw [shift_of_nonneg hz]
    have hpow := ten_pow_pos z.toNat
    nlinarith [mul_pos hx (by omega : 0 < p)]
  · rw [shift_of_nonpos hz]
    rw [shift_of_nonneg (by omega)] at h
    have hlt : (10 : ℤ) ^ (-z).toNat < x := lt_of_mul_lt_mul_left h hc.le
    have hle : (10 : ℤ) ^ (-z).toNat ≤ x * p := by nlinarith
    exact Int.le_ediv_of_mul_le (ten_pow_pos _) (by simpa using hle)

end Decimal
