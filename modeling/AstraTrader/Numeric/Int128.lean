import Mathlib.Data.Int.Order.Basic
import Mathlib.Tactic.Linarith

/-! Signed 128-bit integers. Plain operators wrap in two's complement, the `Checked`
forms report the overflow instead, and every operator is read back through `toInt`. -/

namespace FixedWidth

/-- The integers a signed word of 64 bits can hold. -/
def InRange64 (n : ℤ) : Prop := -2 ^ 63 ≤ n ∧ n < 2 ^ 63

/-- The integers a signed word of 128 bits can hold. -/
def InRange128 (n : ℤ) : Prop := -2 ^ 127 ≤ n ∧ n < 2 ^ 127

instance (n : ℤ) : Decidable (InRange64 n) := inferInstanceAs (Decidable (_ ∧ _))
instance (n : ℤ) : Decidable (InRange128 n) := inferInstanceAs (Decidable (_ ∧ _))

theorem int64_toInt_ofInt {n : ℤ} (h : InRange64 n) : (Int64.ofInt n).toInt = n :=
  Int64.toInt_ofInt_of_le h.1 h.2

@[ext] structure Int128 where
  toInt : ℤ
  inRange : InRange128 toInt
  deriving DecidableEq

namespace Int128

theorem le_toInt (a : Int128) : -2 ^ 127 ≤ a.toInt := a.inRange.1

theorem toInt_lt (a : Int128) : a.toInt < 2 ^ 127 := a.inRange.2

theorem bmod_inRange (n : ℤ) : InRange128 (n.bmod (2 ^ 128)) := by
  have hlo := Int.le_bmod (x := n) (m := 2 ^ 128) (by decide)
  have hhi := Int.bmod_lt (x := n) (m := 2 ^ 128) (by decide)
  constructor
  · exact hlo
  · exact hhi

/-- The word congruent to `n`. -/
def ofInt (n : ℤ) : Int128 := ⟨n.bmod (2 ^ 128), bmod_inRange n⟩

def ofInt64 (x : Int64) : Int128 :=
  ⟨x.toInt, by have := x.le_toInt; have := x.toInt_lt; constructor <;> omega⟩

/-- Narrowing keeps the low 64 bits. -/
def toInt64 (a : Int128) : Int64 := Int64.ofInt a.toInt

instance (n : ℕ) : OfNat Int128 n := ⟨ofInt n⟩
instance : Neg Int128 := ⟨fun a => ofInt (-a.toInt)⟩
instance : Add Int128 := ⟨fun a b => ofInt (a.toInt + b.toInt)⟩
instance : Sub Int128 := ⟨fun a b => ofInt (a.toInt - b.toInt)⟩
instance : Mul Int128 := ⟨fun a b => ofInt (a.toInt * b.toInt)⟩
instance : Div Int128 := ⟨fun a b => ofInt (a.toInt.tdiv b.toInt)⟩
instance : Mod Int128 := ⟨fun a b => ofInt (a.toInt.tmod b.toInt)⟩
instance : LE Int128 := ⟨fun a b => a.toInt ≤ b.toInt⟩
instance : LT Int128 := ⟨fun a b => a.toInt < b.toInt⟩
instance (a b : Int128) : Decidable (a ≤ b) := inferInstanceAs (Decidable (a.toInt ≤ b.toInt))
instance (a b : Int128) : Decidable (a < b) := inferInstanceAs (Decidable (a.toInt < b.toInt))
instance : Min Int128 := ⟨fun a b => if a ≤ b then a else b⟩

def addChecked (a b : Int128) : Option Int128 :=
  if InRange128 (a.toInt + b.toInt) then some (a + b) else none

def mulChecked (a b : Int128) : Option Int128 :=
  if InRange128 (a.toInt * b.toInt) then some (a * b) else none

theorem toInt_ofInt {n : ℤ} (h : InRange128 n) : (ofInt n).toInt = n :=
  Int.bmod_eq_of_le (m := 2 ^ 128) h.1 h.2

@[simp] theorem toInt_ofInt64 (x : Int64) : (ofInt64 x).toInt = x.toInt := rfl

theorem toInt_ofNat {n : ℕ} (h : (n : ℤ) < 2 ^ 127) :
    (no_index (OfNat.ofNat n : Int128)).toInt = n :=
  toInt_ofInt ⟨by omega, h⟩

@[simp] theorem toInt_zero : (0 : Int128).toInt = 0 := toInt_ofNat (by decide)

@[simp] theorem toInt_one : (1 : Int128).toInt = 1 := toInt_ofNat (by decide)

theorem le_def (a b : Int128) : a ≤ b ↔ a.toInt ≤ b.toInt := Iff.rfl

theorem lt_def (a b : Int128) : a < b ↔ a.toInt < b.toInt := Iff.rfl

theorem le_of_not_lt {a b : Int128} (h : ¬ a < b) : b ≤ a := Int.not_lt.mp h

theorem lt_of_not_le {a b : Int128} (h : ¬ a ≤ b) : b < a := Int.not_le.mp h

theorem eq_zero_iff (a : Int128) : a = 0 ↔ a.toInt = 0 := by
  rw [Int128.ext_iff, toInt_zero]

theorem toInt_neg {a : Int128} (h : InRange128 (-a.toInt)) : (-a).toInt = -a.toInt :=
  toInt_ofInt h

theorem toInt_add {a b : Int128} (h : InRange128 (a.toInt + b.toInt)) :
    (a + b).toInt = a.toInt + b.toInt := toInt_ofInt h

theorem toInt_sub {a b : Int128} (h : InRange128 (a.toInt - b.toInt)) :
    (a - b).toInt = a.toInt - b.toInt := toInt_ofInt h

theorem toInt_mul {a b : Int128} (h : InRange128 (a.toInt * b.toInt)) :
    (a * b).toInt = a.toInt * b.toInt := toInt_ofInt h

theorem toInt_div {a b : Int128} (h : InRange128 (a.toInt.tdiv b.toInt)) :
    (a / b).toInt = a.toInt.tdiv b.toInt := toInt_ofInt h

theorem toInt_div_of_pos {a b : Int128} (hb : 0 < b.toInt) :
    (a / b).toInt = a.toInt.tdiv b.toInt := by
  apply toInt_div
  have hlo := a.le_toInt
  have hhi := a.toInt_lt
  have hle := Int.natAbs_tdiv_le_natAbs a.toInt b.toInt
  rcases le_or_gt 0 a.toInt with h0 | h0
  · have hq := Int.tdiv_nonneg h0 hb.le
    constructor <;> omega
  · have hq : a.toInt.tdiv b.toInt ≤ 0 := by
      have h := Int.tdiv_nonneg (a := -a.toInt) (by omega) hb.le
      rw [Int.neg_tdiv] at h
      omega
    constructor <;> omega

theorem toInt_min (a b : Int128) : (min a b).toInt = min a.toInt b.toInt := by
  change (if a ≤ b then a else b).toInt = _
  rw [min_def]
  by_cases h : a ≤ b
  · rw [if_pos h, if_pos ((le_def a b).mp h)]
  · rw [if_neg h, if_neg (mt (le_def a b).mpr h)]

theorem addChecked_eq_some {a b c : Int128} :
    addChecked a b = some c ↔ c.toInt = a.toInt + b.toInt := by
  unfold addChecked
  constructor
  · intro h
    split_ifs at h with hr
    rw [← Option.some.inj h, toInt_add hr]
  · intro h
    have hr : InRange128 (a.toInt + b.toInt) := h ▸ c.inRange
    rw [if_pos hr, Option.some.injEq]
    exact Int128.ext ((toInt_add hr).trans h.symm)

theorem mulChecked_eq_some {a b c : Int128} :
    mulChecked a b = some c ↔ c.toInt = a.toInt * b.toInt := by
  unfold mulChecked
  constructor
  · intro h
    split_ifs at h with hr
    rw [← Option.some.inj h, toInt_mul hr]
  · intro h
    have hr : InRange128 (a.toInt * b.toInt) := h ▸ c.inRange
    rw [if_pos hr, Option.some.injEq]
    exact Int128.ext ((toInt_mul hr).trans h.symm)

theorem toInt_toInt64 {a : Int128} (h : InRange64 a.toInt) : a.toInt64.toInt = a.toInt :=
  int64_toInt_ofInt h

end Int128

theorem int64_inRange (x : Int64) : InRange64 x.toInt := ⟨x.le_toInt, x.toInt_lt⟩

theorem InRange64.inRange128 {n : ℤ} (h : InRange64 n) : InRange128 n := by
  obtain ⟨h1, h2⟩ := h
  constructor <;> omega

theorem int64_pos_iff (x : Int64) : 0 < x ↔ 0 < x.toInt := by
  rw [Int64.lt_iff_toInt_lt, Int64.toInt_zero]

theorem int64_toInt_min (x y : Int64) : (min x y).toInt = min x.toInt y.toInt := by
  rw [min_def]
  change (if x ≤ y then x else y).toInt = _
  simp only [← Int64.le_iff_toInt_le]
  split_ifs <;> rfl

theorem int64_min_eq_right {x y : Int64} (h : y ≤ x) : min x y = y := by
  rw [← Int64.toInt_inj, int64_toInt_min]
  exact min_eq_right (Int64.le_iff_toInt_le.mp h)

theorem int64_min_eq_left {x y : Int64} (h : x ≤ y) : min x y = x := by
  rw [← Int64.toInt_inj, int64_toInt_min]
  exact min_eq_left (Int64.le_iff_toInt_le.mp h)

theorem int64_toInt_sub_of_nonneg {x y : Int64} (hx : 0 ≤ x.toInt) (hy : 0 ≤ y.toInt) :
    (x - y).toInt = x.toInt - y.toInt := by
  have hx' := x.toInt_lt
  have hy' := y.toInt_lt
  rw [Int64.toInt_sub]
  exact Int.bmod_eq_of_le (m := 2 ^ 64) (by omega) (by omega)

theorem int64_toInt_add_of_inRange {x y : Int64} (h : InRange64 (x.toInt + y.toInt)) :
    (x + y).toInt = x.toInt + y.toInt := by
  rw [Int64.toInt_add]
  exact Int.bmod_eq_of_le (m := 2 ^ 64) h.1 h.2

theorem int64_toInt_sub_of_inRange {x y : Int64} (h : InRange64 (x.toInt - y.toInt)) :
    (x - y).toInt = x.toInt - y.toInt := by
  rw [Int64.toInt_sub]
  exact Int.bmod_eq_of_le (m := 2 ^ 64) h.1 h.2

theorem int64_toInt_max (x y : Int64) : (max x y).toInt = max x.toInt y.toInt := by
  show (if x ≤ y then y else x).toInt = if x.toInt ≤ y.toInt then y.toInt else x.toInt
  simp only [Int64.le_iff_toInt_le]
  split_ifs <;> rfl

theorem int64_toInt_add_of_le {x y : Int64} (hy : 0 ≤ y) (h : x ≤ x + y) :
    (x + y).toInt = x.toInt + y.toInt := by
  have hy' := y.toInt_lt
  have hx := x.le_toInt
  have hx' := x.toInt_lt
  rw [Int64.le_iff_toInt_le, Int64.toInt_zero] at hy
  rw [Int64.le_iff_toInt_le, Int64.toInt_add, Int.bmod_def] at h
  apply int64_toInt_add_of_inRange
  constructor <;> omega

theorem int64_add_one_le_of_lt {x y : Int64} (h : x < y) : x + 1 ≤ y := by
  rw [Int64.lt_iff_toInt_lt] at h
  have hlo := x.le_toInt
  have hhi := y.toInt_lt
  have hone : (1 : Int64).toInt = 1 := rfl
  have hrange : InRange64 (x.toInt + (1 : Int64).toInt) := by
    rw [hone]
    constructor <;> omega
  rw [Int64.le_iff_toInt_le, int64_toInt_add_of_inRange hrange, hone]
  omega

end FixedWidth
